import Mathlib.Data.List.Forall2

/-!
# Finite trees

A finite tree is a label with the list of its subtrees. The recursive definitions that a loop
over an explicit stack is compared with: the depth-first order and the value computed from the
leaves up.
-/

namespace CognitiveTree

variable {α β : Type}

/-- Every element of the first list is related to one of the second. -/
theorem exists_of_forall₂_left {R : α → β → Prop} {xs : List α} {ys : List β}
    (h : List.Forall₂ R xs ys) {x : α} (hx : x ∈ xs) : ∃ y ∈ ys, R x y := by
  induction h with
  | nil => cases hx
  | cons hxy _ ih =>
    rcases List.mem_cons.mp hx with rfl | hx
    · exact ⟨_, List.mem_cons_self .., hxy⟩
    · obtain ⟨y, hy, hR⟩ := ih hx
      exact ⟨y, List.mem_cons_of_mem _ hy, hR⟩

/-- Whatever is related on the right has a partner on the left. -/
theorem exists_of_forall₂_right {R : α → β → Prop} {xs : List α} {ys : List β}
    (h : List.Forall₂ R xs ys) {y : β} (hy : y ∈ ys) : ∃ x ∈ xs, R x y :=
  exists_of_forall₂_left h.flip hy

/-- A finite tree with ordered children. -/
inductive Rose (α : Type) where
  | node (label : α) (children : List (Rose α))

namespace Rose

/-- The label at the root. -/
def label : Rose α → α
  | .node l _ => l

mutual

/-- The labels in depth-first order. -/
def preorder : Rose α → List α
  | .node l ts => l :: preorders ts

def preorders : List (Rose α) → List α
  | [] => []
  | t :: ts => preorder t ++ preorders ts

end

mutual

/-- The value of a tree, from those of its children in order. -/
def fold (f : α → List β → β) : Rose α → β
  | .node l ts => f l (folds f ts)

def folds (f : α → List β → β) : List (Rose α) → List β
  | [] => []
  | t :: ts => fold f t :: folds f ts

end

/-- The tree with other labels. -/
def map (f : α → β) : Rose α → Rose β := fold fun l ts => .node (f l) ts

/-- The number of nodes. -/
def size (t : Rose α) : Nat := t.preorder.length

/-- The preorders of several trees follow one another. -/
theorem preorders_eq (ts : List (Rose α)) : preorders ts = ts.flatMap preorder := by
  induction ts with
  | nil => rfl
  | cons t ts ih => rw [preorders, ih, List.flatMap_cons]

/-- A tree begins with its root. -/
@[simp] theorem preorder_node (l : α) (ts : List (Rose α)) :
    (node l ts).preorder = l :: ts.flatMap preorder := by
  rw [preorder, preorders_eq]

/-- Several trees are folded one by one. -/
theorem folds_eq (f : α → List β → β) (ts : List (Rose α)) : folds f ts = ts.map (fold f) := by
  induction ts with
  | nil => rfl
  | cons t ts ih => rw [folds, ih, List.map_cons]

/-- A tree is folded from its subtrees. -/
@[simp] theorem fold_node (f : α → List β → β) (l : α) (ts : List (Rose α)) :
    (node l ts).fold f = f l (ts.map (fold f)) := by
  rw [fold, folds_eq]

/-- A tree is mapped at its root and in its subtrees. -/
@[simp] theorem map_node (f : α → β) (l : α) (ts : List (Rose α)) :
    (node l ts).map f = node (f l) (ts.map (map f)) := by
  rw [map, fold_node]

/-- A tree has its root and the nodes below. -/
@[simp] theorem size_node (l : α) (ts : List (Rose α)) :
    (node l ts).size = 1 + (ts.flatMap preorder).length := by
  rw [size, preorder_node, List.length_cons, Nat.add_comm]

/-- No tree is empty. -/
theorem size_pos (t : Rose α) : 0 < t.size := by
  cases t
  rw [size_node]
  omega

/-- Induction from the leaves up. -/
theorem induct {motive : Rose α → Prop}
    (node : ∀ l ts, (∀ t ∈ ts, motive t) → motive (node l ts)) (t : Rose α) : motive t := by
  refine @Rose.rec _ motive (fun ts => ∀ t ∈ ts, motive t)
    (fun l ts ih => node l ts ih) (fun t h => absurd h List.not_mem_nil) ?_ t
  intro t ts ht hts u hu
  rcases List.mem_cons.mp hu with rfl | hu
  · exact ht
  · exact hts u hu

/-- Mapping keeps the order. -/
@[simp] theorem preorder_map (f : α → β) (t : Rose α) : (t.map f).preorder = t.preorder.map f := by
  induction t using Rose.induct with
  | node l ts ih =>
    rw [map_node, preorder_node, preorder_node, List.map_cons, List.flatMap_map, List.map_flatMap]
    congr 1
    exact List.flatMap_congr ih

/-- Mapping keeps the size. -/
@[simp] theorem size_map (f : α → β) (t : Rose α) : (t.map f).size = t.size := by
  rw [size, preorder_map, List.length_map, size]

end Rose

end CognitiveTree
