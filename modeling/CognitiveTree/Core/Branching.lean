import Mathlib.Data.List.Nodup
import Mathlib.Data.List.Infix

/-!
# Finitely branching trees of words

A function from words to their possible next letters spans a tree: below a word hang
its extensions. `grow` lists the words of such a tree down to a given depth.
-/

namespace CognitiveTree

variable {α : Type}

/-- The extensions of `w` by fewer than `depth` letters, each allowed by `next`. -/
def grow (next : List α → List α) : Nat → List α → List (List α)
  | 0, _ => []
  | depth + 1, w => w :: (next w).flatMap fun x => grow next depth (w ++ [x])

/-- Every letter of `xs` is a possible next one after `w` and the letters before it. -/
def Follow (next : List α → List α) : List α → List α → Prop
  | _, [] => True
  | w, x :: xs => x ∈ next w ∧ Follow next (w ++ [x]) xs

section Membership

variable {next : List α → List α}

theorem follow_concat {w xs : List α} {y : α} :
    Follow next w (xs ++ [y]) ↔ Follow next w xs ∧ y ∈ next (w ++ xs) := by
  induction xs generalizing w with
  | nil => simp [Follow]
  | cons x xs ih => simp [Follow, ih, and_assoc]

theorem mem_grow {depth : Nat} {w u : List α} :
    u ∈ grow next depth w ↔ ∃ xs, u = w ++ xs ∧ xs.length < depth ∧ Follow next w xs := by
  induction depth generalizing w with
  | zero => simp [grow]
  | succ depth ih =>
    rw [grow, List.mem_cons, List.mem_flatMap]
    constructor
    · rintro (rfl | ⟨x, hx, hu⟩)
      · exact ⟨[], by simp, by simp, trivial⟩
      · obtain ⟨xs, rfl, hlen, hfollow⟩ := ih.mp hu
        exact ⟨x :: xs, by simp, by simpa using hlen, hx, hfollow⟩
    · rintro ⟨xs, rfl, hlen, hfollow⟩
      cases xs with
      | nil => exact Or.inl (List.append_nil w)
      | cons x xs =>
        refine Or.inr ⟨x, hfollow.1, ih.mpr ⟨xs, by simp, by simpa using hlen, hfollow.2⟩⟩

theorem root_mem_grow {depth : Nat} (h : 0 < depth) (w : List α) : w ∈ grow next depth w :=
  mem_grow.mpr ⟨[], by simp, h, trivial⟩

theorem concat_mem_grow {depth : Nat} {w u : List α} {y : α} (hu : u ∈ grow next depth w)
    (hy : y ∈ next u) (hlen : u.length + 1 < w.length + depth) : u ++ [y] ∈ grow next depth w := by
  obtain ⟨xs, rfl, -, hfollow⟩ := mem_grow.mp hu
  refine mem_grow.mpr ⟨xs ++ [y], by simp, ?_, follow_concat.mpr ⟨hfollow, hy⟩⟩
  rw [List.length_append] at hlen
  rw [List.length_append, List.length_singleton]
  omega

/-- Induction along the branches of a tree. -/
theorem grow_induction {depth : Nat} {w : List α} {P : List α → Prop} (root : P w)
    (concat : ∀ u y, u ∈ grow next depth w → P u → y ∈ next u →
      u.length + 1 < w.length + depth → P (u ++ [y]))
    {u : List α} (hu : u ∈ grow next depth w) : P u := by
  obtain ⟨xs, rfl, hlen, hfollow⟩ := mem_grow.mp hu
  clear hu
  induction xs using List.reverseRecOn with
  | nil => rwa [List.append_nil]
  | append_singleton xs y ih =>
    rw [List.length_append, List.length_singleton] at hlen
    obtain ⟨hxs, hy⟩ := follow_concat.mp hfollow
    rw [← List.append_assoc]
    refine concat _ y (mem_grow.mpr ⟨xs, rfl, by omega, hxs⟩) (ih (by omega) hxs) hy ?_
    rw [List.length_append]
    omega

end Membership

/-- Without repeated letters no word is listed twice. -/
theorem grow_nodup {next : List α → List α} (hnext : ∀ w, (next w).Nodup) (depth : Nat)
    (w : List α) : (grow next depth w).Nodup := by
  induction depth generalizing w with
  | zero => exact .nil
  | succ depth ih =>
    have hextends : ∀ {x u}, u ∈ grow next depth (w ++ [x]) → w ++ [x] <+: u := by
      intro x u hu
      obtain ⟨xs, rfl, -⟩ := mem_grow.mp hu
      exact List.prefix_append _ _
    rw [grow, List.nodup_cons, List.mem_flatMap, List.nodup_flatMap]
    refine ⟨?_, fun x _ => ih _, (hnext w).imp fun {x y} hne u hx hy => hne ?_⟩
    · rintro ⟨x, -, hw⟩
      have hlen := (hextends hw).length_le
      rw [List.length_append, List.length_singleton] at hlen
      omega
    · have he : w ++ [x] = w ++ [y] :=
        (List.prefix_of_prefix_length_le (hextends hx) (hextends hy) (by simp)).eq_of_length (by simp)
      simpa using he

end CognitiveTree
