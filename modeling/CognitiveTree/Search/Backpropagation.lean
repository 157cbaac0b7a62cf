import CognitiveTree.Search.Shape
import Mathlib.Algebra.BigOperators.Group.List.Basic

/-!
# What backpropagation adds

The double loop records each value of the batch once on every node of its parent
chain, so a node gains one visit for each value from below it, and the sum of these
values.
-/

namespace CognitiveTree.Search

open Arena

variable {K : Type} [PyFloat K]

/-- Recording along a duplicate-free path touches each of its nodes once. -/
theorem recordPath_node (a : Arena K) {path : List Nat} (hnodup : path.Nodup) (value : K)
    (x : Nat) : (recordPath a path value).node x =
      if x ∈ path then (a.node x).recordVisit value else a.node x := by
  induction path generalizing a with
  | nil => rfl
  | cons y path ih =>
    obtain ⟨hy, hnodup⟩ := List.nodup_cons.mp hnodup
    change (recordPath (a.recordVisit y value) path value).node x = _
    rw [ih (a.recordVisit y value) hnodup, recordVisit_node]
    by_cases hxy : x = y
    · subst hxy
      simp [hy]
    · simp [hxy]

/-- The chain that one value of the batch is recorded on. -/
theorem recordPath_lineage_node (a : Arena K) {c : Nat} (hc : c < a.size) (value : K) (x : Nat) :
    (recordPath a (a.pathFromRoot c) value).node x =
      if x ∈ a.lineage c then (a.node x).recordVisit value else a.node x := by
  have hnodup : (a.pathFromRoot c).Nodup := List.nodup_reverse.mpr (a.lineage_nodup hc)
  rw [recordPath_node a hnodup]
  simp only [pathFromRoot, List.mem_reverse]

/-- The values of a batch that come from below a node, or from it. -/
def valuesBelow (a : Arena K) (valued : List (Nat × K)) (x : Nat) : List (Nat × K) :=
  valued.filter fun cv => x ∈ a.lineage cv.1

omit [PyFloat K] in
/-- The parent chains decide which values count, and they depend on the links alone. -/
theorem valuesBelow_congr {a b : Arena K} (h : SameLinks a b) (valued : List (Nat × K)) (x : Nat) :
    valuesBelow b valued x = valuesBelow a valued x := by
  simp only [valuesBelow, h.lineage]

theorem backpropagate_visits (a : Arena K) (valued : List (Nat × K))
    (halloc : ∀ cv ∈ valued, cv.1 < a.size) (x : Nat) :
    ((backpropagateArena a valued).node x).visits =
      (a.node x).visits + (valuesBelow a valued x).length := by
  induction valued generalizing a with
  | nil => rfl
  | cons cv rest ih =>
    have hcv := halloc cv (List.mem_cons_self ..)
    have hcore := sameCore_recordPath a (a.pathFromRoot cv.1) cv.2
    have hrest : ∀ dv ∈ rest, dv.1 < (recordPath a (a.pathFromRoot cv.1) cv.2).size :=
      fun dv hdv => hcore.size_eq ▸ halloc dv (List.mem_cons_of_mem _ hdv)
    change ((backpropagateArena (recordPath a (a.pathFromRoot cv.1) cv.2) rest).node x).visits = _
    rw [ih _ hrest, valuesBelow_congr hcore.toSameLinks, recordPath_lineage_node a hcv]
    by_cases hx : x ∈ a.lineage cv.1
    · simp only [ThoughtNode.recordVisit, valuesBelow, List.filter_cons, hx,
        decide_true, if_true, List.length_cons]
      omega
    · simp [valuesBelow, hx]

theorem backpropagate_valueSum [AddCommMonoid K] [ExactSum K] (a : Arena K)
    (valued : List (Nat × K)) (halloc : ∀ cv ∈ valued, cv.1 < a.size) (x : Nat) :
    ((backpropagateArena a valued).node x).valueSum =
      (a.node x).valueSum + ((valuesBelow a valued x).map Prod.snd).sum := by
  induction valued generalizing a with
  | nil => exact (add_zero _).symm
  | cons cv rest ih =>
    have hcv := halloc cv (List.mem_cons_self ..)
    have hcore := sameCore_recordPath a (a.pathFromRoot cv.1) cv.2
    have hrest : ∀ dv ∈ rest, dv.1 < (recordPath a (a.pathFromRoot cv.1) cv.2).size :=
      fun dv hdv => hcore.size_eq ▸ halloc dv (List.mem_cons_of_mem _ hdv)
    change ((backpropagateArena (recordPath a (a.pathFromRoot cv.1) cv.2) rest).node x).valueSum = _
    rw [ih _ hrest, valuesBelow_congr hcore.toSameLinks, recordPath_lineage_node a hcv]
    by_cases hx : x ∈ a.lineage cv.1
    · simp only [ThoughtNode.recordVisit, valuesBelow, List.filter_cons, hx,
        decide_true, if_true, List.map_cons, List.sum_cons, ExactSum.add_eq, add_assoc]
    · simp [valuesBelow, hx]

/-- A node on no chain of the batch keeps its record. -/
theorem backpropagate_other (a : Arena K) (valued : List (Nat × K))
    (halloc : ∀ cv ∈ valued, cv.1 < a.size) {x : Nat}
    (hx : ∀ cv ∈ valued, x ∉ a.lineage cv.1) :
    (backpropagateArena a valued).node x = a.node x := by
  induction valued generalizing a with
  | nil => rfl
  | cons cv rest ih =>
    have hcv := halloc cv (List.mem_cons_self ..)
    have hcore := sameCore_recordPath a (a.pathFromRoot cv.1) cv.2
    change (backpropagateArena (recordPath a (a.pathFromRoot cv.1) cv.2) rest).node x = _
    rw [ih _ (fun dv hdv => hcore.size_eq ▸ halloc dv (List.mem_cons_of_mem _ hdv)) fun dv hdv => by
      rw [hcore.toSameLinks.lineage]
      exact hx dv (List.mem_cons_of_mem _ hdv)]
    rw [recordPath_lineage_node a hcv, if_neg (hx cv (List.mem_cons_self ..))]

end CognitiveTree.Search
