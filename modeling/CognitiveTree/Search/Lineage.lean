import CognitiveTree.Search.Node
import Mathlib.Data.List.Chain

/-!
# Parent chains

`path_from_root` climbs the parent links and reverses the chain. The climb takes
its fuel from the reference itself: a parent is always older than its child, so
the fuel is never what stops it.
-/

namespace CognitiveTree.Search

variable {K : Type}

/-- Follow parent links for at most `fuel` nodes. -/
def climb (node : Nat → ThoughtNode K) : Nat → Nat → List Nat
  | 0, _ => []
  | fuel + 1, r => r :: match (node r).parent with
    | none => []
    | some p => climb node fuel p

namespace Arena

/-- The node followed by its ancestors up to the root. -/
def lineage (a : Arena K) (r : Nat) : List Nat := climb a.node (r + 1) r

/-- `node.path_from_root()`. -/
def pathFromRoot (a : Arena K) (r : Nat) : List Nat := (a.lineage r).reverse

/-- The contents along the path from the root. -/
def pathContents (a : Arena K) (r : Nat) : List Str :=
  (a.pathFromRoot r).map fun x => (a.node x).content

/-- Enough fuel for the remaining chain is as good as any larger amount. -/
theorem climb_eq_lineage (a : Arena K) {fuel r : Nat} (hr : r < a.size) (hf : r < fuel) :
    climb a.node fuel r = a.lineage r := by
  induction r using Nat.strongRecOn generalizing fuel with
  | ind r ih =>
    obtain ⟨fuel, rfl⟩ : ∃ n, fuel = n + 1 := ⟨fuel - 1, by omega⟩
    unfold lineage
    rw [climb, climb]
    cases hp : (a.node r).parent with
    | none => rfl
    | some p =>
      have hlt := a.linked.parent_lt_self hr hp
      dsimp only
      rw [ih p hlt (by omega) (by omega), ih p hlt (by omega) (show p < r by omega)]

/-- The root has no ancestors. -/
theorem lineage_root (a : Arena K) : a.lineage 0 = [0] := by
  rw [lineage, climb, a.linked.root_parent]

/-- The lineage of a child begins with it and goes on with its parent's. -/
theorem lineage_child (a : Arena K) {r p : Nat} (hr : r < a.size)
    (hp : (a.node r).parent = some p) : a.lineage r = r :: a.lineage p := by
  have hlt := a.linked.parent_lt_self hr hp
  rw [lineage, climb, hp]
  dsimp only
  rw [climb_eq_lineage a (by omega) hlt]

/-- A node is in its own lineage. -/
theorem mem_lineage_self (a : Arena K) (r : Nat) : r ∈ a.lineage r := by
  rw [lineage, climb]
  exact List.mem_cons_self ..

/-- In the lineage of a child are the child and the lineage of its parent. -/
theorem mem_lineage_child {a : Arena K} {r p x : Nat} (hr : r < a.size)
    (hp : (a.node r).parent = some p) : x ∈ a.lineage r ↔ x = r ∨ x ∈ a.lineage p := by
  rw [lineage_child a hr hp, List.mem_cons]

/-- Ancestors are allocated and not younger. -/
theorem le_of_mem_lineage {a : Arena K} {r x : Nat} (hr : r < a.size)
    (hx : x ∈ a.lineage r) : x ≤ r := by
  revert x
  refine a.root_induction (motive := fun r => ∀ {x}, x ∈ a.lineage r → x ≤ r) ?_ ?_ r hr
  · intro x hx
    rw [lineage_root] at hx
    exact (List.mem_singleton.mp hx).le
  · intro r p hr hp ih x hx
    have hlt := a.linked.parent_lt_self hr hp
    rcases (mem_lineage_child hr hp).mp hx with rfl | hx
    · exact le_rfl
    · have := ih hx
      omega

/-- The root is in every lineage. -/
theorem root_mem_lineage (a : Arena K) {r : Nat} (hr : r < a.size) : 0 ∈ a.lineage r := by
  refine a.root_induction (motive := fun r => 0 ∈ a.lineage r) ?_ ?_ r hr
  · exact mem_lineage_self a 0
  · intro r p hr hp ih
    exact (mem_lineage_child hr hp).mpr (Or.inr ih)

/-- An ancestor of an ancestor is one. -/
theorem lineage_trans {a : Arena K} {r x y : Nat} (hr : r < a.size)
    (hx : x ∈ a.lineage y) (hy : y ∈ a.lineage r) : x ∈ a.lineage r := by
  revert hy
  refine a.root_induction (motive := fun r => y ∈ a.lineage r → x ∈ a.lineage r) ?_ ?_ r hr
  · intro hy
    rw [lineage_root] at hy
    exact List.mem_singleton.mp hy ▸ hx
  · intro r p hr hp ih hy
    rcases (mem_lineage_child hr hp).mp hy with rfl | hy
    · exact hx
    · exact (mem_lineage_child hr hp).mpr (Or.inr (ih hy))

/-- No node is its own ancestor. -/
theorem lineage_nodup (a : Arena K) {r : Nat} (hr : r < a.size) : (a.lineage r).Nodup := by
  refine a.root_induction (motive := fun r => (a.lineage r).Nodup) ?_ ?_ r hr
  · simp only [lineage_root, List.nodup_cons, List.not_mem_nil, not_false_eq_true,
      List.nodup_nil, and_true]
  · intro r p hr hp ih
    have hlt := a.linked.parent_lt_self hr hp
    rw [lineage_child a hr hp, List.nodup_cons]
    refine ⟨fun hm => ?_, ih⟩
    have := le_of_mem_lineage (by omega) hm
    omega

/-- The path from a proper ancestor starts with one of its children. -/
theorem exists_child_on_lineage {a : Arena K} {r n : Nat} (hr : r < a.size)
    (hn : n ∈ a.lineage r) (hne : n ≠ r) :
    ∃ c, c ∈ (a.node n).children ∧ c ∈ a.lineage r := by
  revert hn hne
  refine a.root_induction (motive := fun r => n ∈ a.lineage r → n ≠ r →
    ∃ c, c ∈ (a.node n).children ∧ c ∈ a.lineage r) ?_ ?_ r hr
  · intro hn hne
    rw [lineage_root] at hn
    exact absurd (List.mem_singleton.mp hn) hne
  · intro r p hr hp ih hn hne
    rcases (mem_lineage_child hr hp).mp hn with rfl | hn
    · exact absurd rfl hne
    · by_cases hnp : n = p
      · subst hnp
        exact ⟨r, mem_children.mpr ⟨hr, hp⟩, mem_lineage_self a r⟩
      · obtain ⟨c, hc, hcl⟩ := ih hn hnp
        exact ⟨c, hc, (mem_lineage_child hr hp).mpr (Or.inr hcl)⟩

/-- Two children of one node on one path are the same child. -/
theorem child_on_lineage_unique {a : Arena K} {r n c d : Nat} (hr : r < a.size)
    (hc : c ∈ (a.node n).children) (hd : d ∈ (a.node n).children)
    (hcl : c ∈ a.lineage r) (hdl : d ∈ a.lineage r) : c = d := by
  -- below the younger sibling the path leaves the parent's chain
  have below : ∀ {x y}, x ∈ (a.node n).children → y ∈ (a.node n).children →
      x ∈ a.lineage y → x = y := by
    intro x y hx hy hxy
    obtain ⟨hys, hyp⟩ := mem_children.mp hy
    rcases (mem_lineage_child hys hyp).mp hxy with rfl | hxn
    · rfl
    · have hlt := lt_of_mem_children hx
      have hny := a.linked.parent_lt_self hys hyp
      have := le_of_mem_lineage (by omega) hxn
      omega
  revert hcl hdl
  refine a.root_induction (motive := fun r => c ∈ a.lineage r → d ∈ a.lineage r → c = d)
    ?_ ?_ r hr
  · intro hcl hdl
    rw [lineage_root] at hcl hdl
    exact (List.mem_singleton.mp hcl).trans (List.mem_singleton.mp hdl).symm
  · intro r p hr hp ih hcl hdl
    rcases (mem_lineage_child hr hp).mp hcl with rfl | hcp
    · exact (below hd hc hdl).symm
    · rcases (mem_lineage_child hr hp).mp hdl with rfl | hdp
      · exact below hc hd hcl
      · exact ih hcp hdp

/-- The path to the root is the root. -/
theorem pathFromRoot_root (a : Arena K) : a.pathFromRoot 0 = [0] := by
  rw [pathFromRoot, lineage_root]
  rfl

/-- The path to a child goes over its parent. -/
theorem pathFromRoot_child (a : Arena K) {r p : Nat} (hr : r < a.size)
    (hp : (a.node r).parent = some p) : a.pathFromRoot r = a.pathFromRoot p ++ [r] := by
  rw [pathFromRoot, lineage_child a hr hp, List.reverse_cons]
  rfl

/-- A path ends at its node. -/
theorem pathFromRoot_getLast (a : Arena K) (r : Nat) : (a.pathFromRoot r).getLast? = some r := by
  rw [pathFromRoot, List.getLast?_reverse, lineage, climb]
  rfl

/-- It starts at the root. -/
theorem pathFromRoot_head (a : Arena K) {r : Nat} (hr : r < a.size) :
    (a.pathFromRoot r).head? = some 0 := by
  refine a.root_induction (motive := fun r => (a.pathFromRoot r).head? = some 0) ?_ ?_ r hr
  · rw [pathFromRoot_root]
    rfl
  · intro r p hr hp ih
    rw [pathFromRoot_child a hr hp, List.head?_append, ih]
    rfl

/-- And every entry is a child of the one before. -/
theorem pathFromRoot_chain (a : Arena K) {r : Nat} (hr : r < a.size) :
    (a.pathFromRoot r).IsChain fun p c => c ∈ (a.node p).children := by
  refine a.root_induction (motive := fun r =>
    (a.pathFromRoot r).IsChain fun p c => c ∈ (a.node p).children) ?_ ?_ r hr
  · rw [pathFromRoot_root]
    exact .singleton 0
  · intro r p hr hp ih
    rw [pathFromRoot_child a hr hp, List.isChain_append]
    refine ⟨ih, .singleton r, fun x hx y hy => ?_⟩
    rw [pathFromRoot_getLast] at hx
    cases hx
    cases hy
    exact mem_children.mpr ⟨hr, hp⟩

/-- The root is reached by the task alone. -/
theorem pathContents_root (a : Arena K) : a.pathContents 0 = [(a.node 0).content] := by
  rw [pathContents, pathFromRoot_root]
  rfl

/-- A child is reached by its parent's contents and its own. -/
theorem pathContents_child (a : Arena K) {r p : Nat} (hr : r < a.size)
    (hp : (a.node r).parent = some p) :
    a.pathContents r = a.pathContents p ++ [(a.node r).content] := by
  rw [pathContents, pathFromRoot_child a hr hp, List.map_append]
  rfl

/-- A root path has one entry for each level. -/
theorem length_pathContents (a : Arena K) {r : Nat} (hr : r < a.size) :
    (a.pathContents r).length = (a.node r).depth + 1 := by
  refine a.root_induction (motive := fun r => (a.pathContents r).length = (a.node r).depth + 1)
    ?_ ?_ r hr
  · rw [pathContents_root, a.linked.root_depth]
    rfl
  · intro r p hr hp ih
    rw [pathContents_child a hr hp, List.length_append, ih, a.linked.depth_eq r p hr hp]
    rfl

/-- When siblings have different contents, nodes have different root paths. -/
theorem pathContents_injective {a : Arena K}
    (siblings : ∀ p c d, c ∈ (a.node p).children → d ∈ (a.node p).children →
      (a.node c).content = (a.node d).content → c = d)
    {r q : Nat} (hr : r < a.size) (hq : q < a.size) (h : a.pathContents r = a.pathContents q) :
    r = q := by
  revert q
  refine a.root_induction (motive := fun r => ∀ {q}, q < a.size →
    a.pathContents r = a.pathContents q → r = q) ?_ ?_ r hr
  · intro q hq h
    by_contra hne
    obtain ⟨p, hp, hpq, hps⟩ := exists_parent (Ne.symm hne) hq
    have hlen := congrArg List.length h
    rw [pathContents_root, pathContents_child a hq hp, List.length_append,
      length_pathContents a hps] at hlen
    simp at hlen
  · intro r p hr hp ih q hq h
    have hps : p < a.size := (a.linked.parent_lt_self hr hp).trans hr
    rw [pathContents_child a hr hp] at h
    by_cases hq0 : q = 0
    · have hlen := congrArg List.length h
      rw [hq0, pathContents_root, List.length_append, length_pathContents a hps] at hlen
      simp at hlen
    · obtain ⟨p', hp', -, hps'⟩ := exists_parent hq0 hq
      rw [pathContents_child a hq hp'] at h
      obtain ⟨hinit, hlast⟩ := List.append_inj' h rfl
      have hpp := ih hps' hinit
      subst hpp
      exact siblings p r q (mem_children.mpr ⟨hr, hp⟩) (mem_children.mpr ⟨hq, hp'⟩)
        (by simpa using hlast)

/-- Parent chains depend on the links alone. -/
theorem SameLinks.lineage {a b : Arena K} (h : SameLinks a b) (r : Nat) :
    b.lineage r = a.lineage r := by
  have hclimb : ∀ fuel r, climb b.node fuel r = climb a.node fuel r := by
    intro fuel
    induction fuel with
    | zero => intro r; rfl
    | succ fuel ih =>
      intro r
      rw [climb, climb, h.parent_eq]
      cases (a.node r).parent with
      | none => rfl
      | some p => simp only [ih]
  exact hclimb (r + 1) r

/-- The same links have the same contents on every path. -/
theorem SameLinks.pathContents {a b : Arena K} (h : SameLinks a b) (r : Nat) :
    b.pathContents r = a.pathContents r := by
  rw [Arena.pathContents, Arena.pathContents, pathFromRoot, pathFromRoot, h.lineage]
  simp only [h.content_eq]

section Attach

variable [PyFloat K] {a : Arena K} {p : Nat} (content : Str)

/-- Attaching a child leaves every existing chain as it was. -/
theorem lineage_attach_old (hp : p < a.size) {r : Nat} (hr : r < a.size) :
    (a.attachChild p content).lineage r = a.lineage r := by
  refine a.root_induction (motive := fun r =>
    (a.attachChild p content).lineage r = a.lineage r) ?_ ?_ r hr
  · rw [lineage_root, lineage_root]
  · intro r q hr hq ih
    rw [lineage_child a hr hq, ← ih]
    refine lineage_child _ (by rw [attachChild_size content hp]; omega) ?_
    rw [attachChild_old content hp (by omega)]
    exact hq

/-- Attaching a child changes no other path. -/
theorem pathContents_attach_old (hp : p < a.size) {r : Nat} (hr : r < a.size) :
    (a.attachChild p content).pathContents r = a.pathContents r := by
  rw [pathContents, pathContents, pathFromRoot, pathFromRoot, lineage_attach_old content hp hr]
  apply List.map_congr_left
  intro x hx
  have hxs := le_of_mem_lineage hr (List.mem_reverse.mp hx)
  rw [attachChild_old content hp (by omega)]

end Attach

end Arena

end CognitiveTree.Search
