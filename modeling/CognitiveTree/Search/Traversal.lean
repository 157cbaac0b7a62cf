import CognitiveTree.Search.Lineage
import Mathlib.Data.List.Nodup

/-!
# Depth-first traversal

`walkFrom` is the source's loop over an explicit stack (the top of the stack is the
head of the list). `preorder` is the recursive order it produces: a node, then the
subtrees of its children from left to right.
-/

namespace CognitiveTree.Search

variable {K : Type}

/-- The stack loop of `ThoughtNode.walk`, popping at most `fuel` nodes. -/
def walkFrom (node : Nat → ThoughtNode K) : Nat → List Nat → List Nat
  | 0, _ => []
  | _ + 1, [] => []
  | fuel + 1, r :: stack => r :: walkFrom node fuel ((node r).children ++ stack)

/-- The recursive depth-first order, to a bounded depth. -/
def preorderTo (node : Nat → ThoughtNode K) : Nat → Nat → List Nat
  | 0, _ => []
  | fuel + 1, r => r :: (node r).children.flatMap (preorderTo node fuel)

namespace Arena

/-- `node.walk()`. -/
def walk (a : Arena K) (r : Nat) : List Nat := walkFrom a.node a.size [r]

/-- The subtree below a node in depth-first order. -/
def preorder (a : Arena K) (r : Nat) : List Nat := preorderTo a.node a.size r

/-- Any depth beyond the youngest possible descendant gives the full subtree. -/
theorem preorderTo_eq (a : Arena K) {fuel fuel' r : Nat} (hr : r < a.size)
    (hf : a.size - r ≤ fuel) (hf' : a.size - r ≤ fuel') :
    preorderTo a.node fuel r = preorderTo a.node fuel' r := by
  induction fuel generalizing fuel' r with
  | zero => omega
  | succ fuel ih =>
    obtain ⟨fuel', rfl⟩ : ∃ n, fuel' = n + 1 := ⟨fuel' - 1, by omega⟩
    rw [preorderTo, preorderTo]
    congr 1
    apply List.flatMap_congr
    intro c hc
    have hlt := lt_of_mem_children hc
    have hcs := (mem_children.mp hc).1
    exact ih hcs (by omega) (by omega)

theorem preorder_eq (a : Arena K) {r : Nat} (hr : r < a.size) :
    a.preorder r = r :: (a.node r).children.flatMap a.preorder := by
  obtain ⟨n, hn⟩ : ∃ n, a.size = n + 1 := ⟨a.size - 1, by omega⟩
  have h : preorderTo a.node a.size r = preorderTo a.node (n + 1) r :=
    preorderTo_eq a hr (by omega) (by omega)
  rw [preorder, h, preorderTo]
  congr 1
  apply List.flatMap_congr
  intro c hc
  have hlt := lt_of_mem_children hc
  have hcs := (mem_children.mp hc).1
  exact preorderTo_eq a hcs (by omega) (by omega)

/-- Induction from the youngest nodes towards the root. -/
theorem leaf_induction (a : Arena K) {motive : Nat → Prop}
    (node : ∀ r, r < a.size → (∀ c, c ∈ (a.node r).children → motive c) → motive r)
    (r : Nat) (hr : r < a.size) : motive r := by
  obtain ⟨k, hk⟩ : ∃ k, k = a.size - r := ⟨_, rfl⟩
  induction k using Nat.strongRecOn generalizing r with
  | ind k ih =>
    refine node r hr fun c hc => ?_
    have hlt := lt_of_mem_children hc
    have hcs := (mem_children.mp hc).1
    exact ih (a.size - c) (by omega) c hcs rfl

/-- The depth-first order visits exactly the nodes whose parent chain passes here. -/
theorem mem_preorder {a : Arena K} {n : Nat} (hn : n < a.size) {r : Nat} :
    r ∈ a.preorder n ↔ r < a.size ∧ n ∈ a.lineage r := by
  revert r
  refine a.leaf_induction (motive := fun n => ∀ {r}, r ∈ a.preorder n ↔
    r < a.size ∧ n ∈ a.lineage r) ?_ n hn
  intro n hn ih r
  rw [preorder_eq a hn, List.mem_cons, List.mem_flatMap]
  constructor
  · rintro (rfl | ⟨c, hc, hr⟩)
    · exact ⟨hn, mem_lineage_self a r⟩
    · obtain ⟨hrs, hcr⟩ := (ih c hc).mp hr
      obtain ⟨hcs, hcp⟩ := mem_children.mp hc
      have hnc := (mem_lineage_child hcs hcp).mpr (Or.inr (mem_lineage_self a n))
      exact ⟨hrs, lineage_trans hrs hnc hcr⟩
  · rintro ⟨hrs, hnr⟩
    by_cases he : n = r
    · exact Or.inl he.symm
    · obtain ⟨c, hc, hcr⟩ := exists_child_on_lineage hrs hnr he
      exact Or.inr ⟨c, hc, (ih c hc).mpr ⟨hrs, hcr⟩⟩

/-- No node is visited twice. -/
theorem preorder_nodup (a : Arena K) {n : Nat} (hn : n < a.size) : (a.preorder n).Nodup := by
  refine a.leaf_induction (motive := fun n => (a.preorder n).Nodup) ?_ n hn
  intro n hn ih
  rw [preorder_eq a hn, List.nodup_cons]
  constructor
  · intro hm
    obtain ⟨c, hc, hr⟩ := List.mem_flatMap.mp hm
    have hcn := (mem_preorder (mem_children.mp hc).1).mp hr
    have := le_of_mem_lineage hn hcn.2
    have := lt_of_mem_children hc
    omega
  · rw [List.nodup_flatMap]
    refine ⟨ih, (children_nodup a n).pairwise_of_forall_ne ?_⟩
    intro c hc d hd hne r hrc hrd
    have hcr := (mem_preorder (mem_children.mp hc).1).mp hrc
    have hdr := (mem_preorder (mem_children.mp hd).1).mp hrd
    exact hne (child_on_lineage_unique hcr.1 hc hd hcr.2 hdr.2)

theorem length_preorder_le (a : Arena K) {n : Nat} (hn : n < a.size) :
    (a.preorder n).length ≤ a.size := by
  have hsub : a.preorder n ⊆ List.range a.size := fun r hr =>
    List.mem_range.mpr ((mem_preorder hn).mp hr).1
  have h := (preorder_nodup a hn).length_le_of_subset hsub
  rwa [List.length_range] at h

/-- The stack loop emits the subtrees on its stack one after another. -/
theorem walkFrom_eq (a : Arena K) {fuel : Nat} {stack : List Nat}
    (hs : ∀ r ∈ stack, r < a.size) (hf : (stack.flatMap a.preorder).length ≤ fuel) :
    walkFrom a.node fuel stack = stack.flatMap a.preorder := by
  induction fuel generalizing stack with
  | zero =>
    rw [walkFrom, List.eq_nil_of_length_eq_zero (Nat.le_zero.mp hf)]
  | succ fuel ih =>
    cases stack with
    | nil => rfl
    | cons r stack =>
      have hr := hs r (List.mem_cons_self ..)
      rw [walkFrom, List.flatMap_cons, preorder_eq a hr, List.cons_append,
        ← List.flatMap_append]
      congr 1
      apply ih
      · intro x hx
        rcases List.mem_append.mp hx with hx | hx
        · exact (mem_children.mp hx).1
        · exact hs x (List.mem_cons_of_mem _ hx)
      · rw [List.flatMap_cons, preorder_eq a hr, List.cons_append, List.length_cons,
          ← List.flatMap_append] at hf
        omega

/-- The iterative walk is the recursive depth-first order. -/
theorem walk_eq_preorder (a : Arena K) {r : Nat} (hr : r < a.size) :
    a.walk r = a.preorder r := by
  have h : walkFrom a.node a.size [r] = [r].flatMap a.preorder :=
    walkFrom_eq a (by simpa using hr) (by simpa using length_preorder_le a hr)
  rw [List.flatMap_cons, List.flatMap_nil, List.append_nil] at h
  exact h

theorem mem_walk {a : Arena K} {n : Nat} (hn : n < a.size) {r : Nat} :
    r ∈ a.walk n ↔ r < a.size ∧ n ∈ a.lineage r := by
  rw [walk_eq_preorder a hn, mem_preorder hn]

theorem walk_nodup (a : Arena K) {n : Nat} (hn : n < a.size) : (a.walk n).Nodup := by
  rw [walk_eq_preorder a hn]
  exact preorder_nodup a hn

/-- Walking from the root visits every allocated node. -/
theorem mem_walk_root {a : Arena K} {r : Nat} : r ∈ a.walk 0 ↔ r < a.size := by
  rw [mem_walk a.linked.nonempty]
  exact ⟨fun h => h.1, fun h => ⟨h, root_mem_lineage a h⟩⟩

/-- The walk from the root has one entry for each node. -/
theorem length_walk_root (a : Arena K) : (a.walk 0).length = a.size := by
  have hperm : (a.walk 0).Perm (List.range a.size) :=
    (List.perm_ext_iff_of_nodup (walk_nodup a a.linked.nonempty) List.nodup_range).mpr fun r =>
      mem_walk_root.trans List.mem_range.symm
  rw [hperm.length_eq, List.length_range]

/-- The children of a node appear in its subtree from left to right. -/
theorem children_sublist_preorder (a : Arena K) {n : Nat} (hn : n < a.size) :
    (a.node n).children.Sublist (a.preorder n) := by
  rw [preorder_eq a hn]
  apply List.Sublist.cons
  have hall : ∀ cs : List Nat, (∀ c ∈ cs, c < a.size) → cs.Sublist (cs.flatMap a.preorder) := by
    intro cs hcs
    induction cs with
    | nil => simp
    | cons c cs ih =>
      rw [List.flatMap_cons, preorder_eq a (hcs c (List.mem_cons_self ..)), List.cons_append]
      apply List.Sublist.cons_cons
      exact (ih fun d hd => hcs d (List.mem_cons_of_mem _ hd)).trans (List.sublist_append_right ..)
  exact hall _ fun c hc => (mem_children.mp hc).1

/-- A subtree is visited within the whole tree in its own order. -/
theorem preorder_sublist_root (a : Arena K) {n : Nat} (hn : n < a.size) :
    (a.preorder n).Sublist (a.preorder 0) := by
  refine a.root_induction (motive := fun n => (a.preorder n).Sublist (a.preorder 0)) ?_ ?_ n hn
  · exact List.Sublist.refl _
  · intro r p hr hp ih
    have hlt := a.linked.parent_lt_self hr hp
    refine List.Sublist.trans ?_ ih
    rw [preorder_eq a (show p < a.size by omega)]
    apply List.Sublist.cons
    obtain ⟨before, after, he⟩ := List.append_of_mem (mem_children.mpr ⟨hr, hp⟩)
    rw [he, List.flatMap_append, List.flatMap_cons]
    exact (List.sublist_append_left ..).trans (List.sublist_append_right ..)

/-- Nodes that are all siblings are met in their order among the children. -/
theorem walk_filter_children (a : Arena K) {n : Nat} (hn : n < a.size) {p : Nat → Bool}
    (h : ∀ r, r < a.size → p r = true → r ∈ (a.node n).children) :
    (a.walk 0).filter p = (a.node n).children.filter p := by
  have h0 := a.linked.nonempty
  have hsub : (a.node n).children.Sublist (a.walk 0) := by
    rw [walk_eq_preorder a h0]
    exact (children_sublist_preorder a hn).trans (preorder_sublist_root a hn)
  refine ((hsub.filter p).eq_of_length_le ?_).symm
  refine ((walk_nodup a h0).filter p).length_le_of_subset fun r hr => ?_
  obtain ⟨hr, hpr⟩ := List.mem_filter.mp hr
  exact List.mem_filter.mpr ⟨h r (mem_walk_root.mp hr) hpr, hpr⟩

/-- The traversal depends on the links alone. -/
theorem SameLinks.walk {a b : Arena K} (h : SameLinks a b) (r : Nat) : b.walk r = a.walk r := by
  have hfrom : ∀ fuel stack, walkFrom b.node fuel stack = walkFrom a.node fuel stack := by
    intro fuel
    induction fuel with
    | zero => intro stack; rfl
    | succ fuel ih =>
      intro stack
      cases stack with
      | nil => rfl
      | cons r stack => rw [walkFrom, walkFrom, h.children_eq, ih]
  rw [Arena.walk, Arena.walk, h.size_eq, hfrom]

end Arena

end CognitiveTree.Search
