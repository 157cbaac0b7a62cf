import CognitiveTree.Core.Dict
import CognitiveTree.Core.Maximum
import CognitiveTree.Search.Traversal

/-!
# The thought tree

The tree pairs the arena with the identifier index. Pruning, the best accepted
terminal and the best path are the source's folds over the depth-first walk.
-/

namespace CognitiveTree.Search

variable {K : Type}

namespace Arena

/-- One visit of the pruning loop: a live node becomes pruned and is counted. -/
def pruneVisit (acc : Arena K × Nat) (r : Nat) : Arena K × Nat :=
  if (acc.1.node r).isLive then (acc.1.setStatus r .pruned, acc.2 + 1) else acc

/-- `tree.prune_subtree(node)`: the pruned tree and the number of changed nodes. -/
def pruneSubtree (a : Arena K) (n : Nat) : Arena K × Nat := (a.walk n).foldl pruneVisit (a, 0)

/-- Visiting dead nodes changes nothing. -/
theorem foldl_pruneVisit_dead {rs : List Nat} {acc : Arena K × Nat}
    (h : ∀ r ∈ rs, (acc.1.node r).isLive = false) : rs.foldl pruneVisit acc = acc := by
  induction rs with
  | nil => rfl
  | cons r rs ih =>
    rw [List.foldl_cons, pruneVisit, h r (List.mem_cons_self ..)]
    exact ih fun x hx => h x (List.mem_cons_of_mem _ hx)

/-- Pruning a live node above a dead subtree changes that node alone. -/
theorem pruneSubtree_frontier {a : Arena K} {n : Nat} (hn : n < a.size)
    (hlive : (a.node n).isLive = true)
    (hdead : ∀ r, r < a.size → n ∈ a.lineage r → r ≠ n → (a.node r).isLive = false) :
    a.pruneSubtree n = (a.setStatus n .pruned, 1) := by
  have hnodup := walk_nodup a hn
  have hmem : ∀ r ∈ a.walk n, r < a.size ∧ n ∈ a.lineage r := fun r hr => (mem_walk hn).mp hr
  rw [pruneSubtree]
  rw [walk_eq_preorder a hn, preorder_eq a hn] at hnodup hmem ⊢
  rw [List.foldl_cons, pruneVisit, if_pos hlive]
  apply foldl_pruneVisit_dead
  intro r hr
  have hne : r ≠ n := fun he => (List.nodup_cons.mp hnodup).1 (he ▸ hr)
  obtain ⟨hrs, hrl⟩ := hmem r (List.mem_cons_of_mem _ hr)
  change ((a.setStatus n .pruned).node r).isLive = false
  rw [setStatus_node, if_neg hne]
  exact hdead r hrs hrl hne

/-- Pruning moves no node. -/
theorem sameLinks_pruneSubtree (a : Arena K) (n : Nat) : SameLinks a (a.pruneSubtree n).1 := by
  have hfold : ∀ (rs : List Nat) (acc : Arena K × Nat),
      SameLinks acc.1 (rs.foldl pruneVisit acc).1 := by
    intro rs
    induction rs with
    | nil => intro acc; exact .refl _
    | cons r rs ih =>
      intro acc
      rw [List.foldl_cons]
      refine SameLinks.trans ?_ (ih _)
      rw [pruneVisit]
      split
      · exact sameLinks_setStatus _ _ _
      · exact .refl _
  exact hfold (a.walk n) (a, 0)

variable [PyFloat K]

/-- The accepted terminals in depth-first order. -/
def terminals (a : Arena K) : List Nat :=
  (a.walk 0).filter fun r => (a.node r).status = .terminal

/-- `tree.best_terminal()`. -/
def bestTerminal (a : Arena K) : Option Nat :=
  maxByKey PyFloat.gt (a.terminals.map fun r => (r, (a.node r).score))

/-- The live children of a node, in order. -/
def liveChildren (a : Arena K) (r : Nat) : List Nat :=
  (a.node r).children.filter fun c => (a.node c).isLive

/-- The greedy descent of `best_path` from a node, for at most `fuel` nodes. -/
def greedyFrom (a : Arena K) : Nat → Nat → List Nat
  | 0, _ => []
  | fuel + 1, r => r :: match maxByKey PyFloat.tripleGt ((a.liveChildren r).map fun c =>
      (c, ((a.node c).meanValue, (a.node c).score, (a.node c).visits))) with
    | none => []
    | some c => greedyFrom a fuel c

/-- `tree.best_path()`. -/
def bestPath (a : Arena K) : List Nat :=
  match a.bestTerminal with
  | some t => a.pathFromRoot t
  | none => a.greedyFrom a.size 0

omit [PyFloat K] in
theorem mem_liveChildren {a : Arena K} {r c : Nat} :
    c ∈ a.liveChildren r ↔ c ∈ (a.node r).children ∧ (a.node c).isLive = true := by
  rw [liveChildren, List.mem_filter]

omit [PyFloat K] in
theorem mem_terminals {a : Arena K} {r : Nat} :
    r ∈ a.terminals ↔ r < a.size ∧ (a.node r).status = .terminal := by
  rw [terminals, List.mem_filter, mem_walk_root, decide_eq_true_eq]

/-- A best path stays in the tree. -/
theorem lt_of_mem_bestPath {a : Arena K} {r : Nat} (h : r ∈ a.bestPath) : r < a.size := by
  have hgreedy : ∀ fuel n, n < a.size → r ∈ a.greedyFrom fuel n → r < a.size := by
    intro fuel
    induction fuel with
    | zero => exact fun _ _ hr => absurd hr List.not_mem_nil
    | succ fuel ih =>
      intro n hn hr
      rw [greedyFrom] at hr
      rcases List.mem_cons.mp hr with rfl | hr
      · exact hn
      · split at hr
        · exact absurd hr List.not_mem_nil
        · rename_i c hmax
          have hc : c ∈ a.liveChildren n := by
            have hm := maxByKey_mem hmax
            simpa only [List.map_map, Function.comp_def, List.map_id'] using hm
          exact ih c (mem_children.mp (mem_liveChildren.mp hc).1).1 hr
  rw [bestPath] at h
  split at h
  · rename_i t hmax
    have ht : t ∈ a.terminals := by
      have hm := maxByKey_mem hmax
      simpa only [List.map_map, Function.comp_def, List.map_id'] using hm
    have hsize := (mem_terminals.mp ht).1
    exact lt_of_le_of_lt (le_of_mem_lineage hsize (List.mem_reverse.mp h)) hsize
  · exact hgreedy _ 0 a.linked.nonempty h

end Arena

/-- The tree of one run: its nodes and the index from identifiers to nodes. -/
structure ThoughtTree (K : Type) where
  arena : Arena K
  index : Dict Str Nat

namespace ThoughtTree

/-- The tree with its nodes updated in place. -/
def withArena (t : ThoughtTree K) (a : Arena K) : ThoughtTree K := { t with arena := a }

variable [PyFloat K]

/-- `ThoughtTree(root_content)`; the identifier of the `n`-th node is `freshId n`. -/
def new (freshId : Nat → Str) (content : Str) : ThoughtTree K where
  arena := .single content
  index := [(freshId 0, 0)]

/-- `len(tree)`. -/
def len (t : ThoughtTree K) : Nat := t.index.length

/-- The `KeyError` of `add_child`; its `str` is the `repr` of the message. -/
def notInTree (id : Str) : Exc :=
  ⟨lit "KeyError", lit "\"parent '" ++ id ++ lit "' does not belong to this tree\""⟩

/-- `tree.add_child(parent, content)`: the new node and the extended tree. -/
def addChild (freshId : Nat → Str) (t : ThoughtTree K) (p : Nat) (content : Str) :
    Except Exc (Nat × ThoughtTree K) :=
  if t.index.contains (freshId p) then
    let child := t.arena.size
    .ok (child, ⟨t.arena.attachChild p content, t.index.set (freshId child) child⟩)
  else .error (notInTree (freshId p))

end ThoughtTree

end CognitiveTree.Search
