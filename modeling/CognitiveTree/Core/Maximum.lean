import Mathlib.Data.List.Basic

/-!
# The built-in `max`

`max` scans from the left and replaces the running best only by a strictly
greater later element, so it keeps the first of several maximal elements. No
law of the comparison is assumed by the definition: incomparable keys are
simply never greater.
-/

namespace CognitiveTree

variable {α κ : Type}

/-- The scan of `max` with running best `best` over the remaining elements. -/
def maxFrom (gt : α → α → Bool) : α → List α → α
  | best, [] => best
  | best, x :: xs => maxFrom gt (if gt x best then x else best) xs

/-- `max(elements, key=...)`: keys are computed once per element; an empty
sequence has no maximum. -/
def maxByKey (gt : κ → κ → Bool) : List (α × κ) → Option α
  | [] => none
  | x :: xs => some (maxFrom (fun a b => gt a.2 b.2) x xs).1

/-- The maximum is one of the scanned elements. -/
theorem maxFrom_mem (gt : α → α → Bool) (best : α) (xs : List α) :
    maxFrom gt best xs ∈ best :: xs := by
  induction xs generalizing best with
  | nil => exact List.mem_cons_self ..
  | cons x xs ih =>
    have h := ih (if gt x best then x else best)
    rw [maxFrom]
    by_cases hx : gt x best = true
    · rw [if_pos hx] at h ⊢
      exact List.mem_cons_of_mem _ h
    · rw [if_neg hx] at h ⊢
      rcases List.mem_cons.mp h with he | hm
      · exact List.mem_cons.mpr (Or.inl he)
      · exact List.mem_cons_of_mem _ (List.mem_cons_of_mem _ hm)

theorem maxByKey_mem {gt : κ → κ → Bool} {xs : List (α × κ)} {a : α}
    (h : maxByKey gt xs = some a) : a ∈ xs.map Prod.fst := by
  cases xs with
  | nil => cases h
  | cons x xs =>
    cases h
    exact List.mem_map_of_mem (maxFrom_mem _ x xs)

theorem maxByKey_isSome {gt : κ → κ → Bool} {xs : List (α × κ)} (h : xs ≠ []) :
    ∃ a, maxByKey gt xs = some a := by
  cases xs with
  | nil => exact absurd rfl h
  | cons x xs => exact ⟨_, rfl⟩

/-- A running best that nothing later exceeds is the maximum. -/
theorem maxFrom_eq_best {gt : α → α → Bool} {best : α} {xs : List α}
    (h : ∀ x ∈ xs, gt x best = false) : maxFrom gt best xs = best := by
  induction xs with
  | nil => rfl
  | cons x xs ih =>
    rw [maxFrom, h x (List.mem_cons_self ..)]
    exact ih fun y hy => h y (List.mem_cons_of_mem _ hy)

/-- Among different elements the first one is the maximum exactly when none of the others
is strictly greater. -/
theorem maxByKey_eq_head_iff {gt : κ → κ → Bool} {a : α} {k : κ} {xs : List (α × κ)}
    (h : a ∉ xs.map Prod.fst) :
    maxByKey gt ((a, k) :: xs) = some a ↔ ∀ x ∈ xs, gt x.2 k = false := by
  have hscan : (maxFrom (fun x y : α × κ => gt x.2 y.2) (a, k) xs).1 = a ↔
      ∀ x ∈ xs, gt x.2 k = false := by
    constructor
    · intro he
      induction xs with
      | nil => simp
      | cons y ys ih =>
        rw [List.map_cons, List.mem_cons, not_or] at h
        rw [maxFrom] at he
        by_cases hy : gt y.2 k = true
        · -- a best that was replaced never comes back
          rw [if_pos hy] at he
          have hm : a ∈ (y :: ys).map Prod.fst := by
            rw [← he]
            exact List.mem_map_of_mem (maxFrom_mem _ y ys)
          rw [List.map_cons, List.mem_cons] at hm
          exact absurd hm (not_or.mpr h)
        · rw [if_neg hy] at he
          intro x hx
          rcases List.mem_cons.mp hx with rfl | hx
          · simpa using hy
          · exact ih h.2 he x hx
    · intro hall
      rw [maxFrom_eq_best hall]
  rw [← hscan]
  exact Option.some_inj

/-- On a set of elements where the comparison is a strict weak order, nothing
scanned exceeds the maximum. -/
theorem maxFrom_maximal {gt : α → α → Bool} {S : α → Prop}
    (asymm : ∀ a b, S a → S b → gt a b = true → gt b a = false)
    (trans : ∀ a b c, S a → S b → S c → gt a b = false → gt b c = false → gt a c = false)
    {best : α} {xs : List α} (hS : ∀ x ∈ best :: xs, S x) :
    ∀ x ∈ best :: xs, gt x (maxFrom gt best xs) = false := by
  have irrefl : ∀ a, S a → gt a a = false := by
    intro a ha
    cases h : gt a a with
    | false => rfl
    | true => exact h ▸ asymm a a ha ha h
  induction xs generalizing best with
  | nil =>
    intro x hx
    rw [List.mem_singleton.mp hx]
    exact irrefl best (hS best (List.mem_cons_self ..))
  | cons y ys ih =>
    have hbest := hS best (List.mem_cons_self ..)
    have hy := hS y (List.mem_cons_of_mem _ (List.mem_cons_self ..))
    have hys : ∀ x ∈ ys, S x := fun x hx =>
      hS x (List.mem_cons_of_mem _ (List.mem_cons_of_mem _ hx))
    -- the element that survives the comparison dominates the one it replaces
    have survive : ∀ kept lost, S kept → S lost → gt lost kept = false →
        ∀ x ∈ lost :: kept :: ys, gt x (maxFrom gt kept ys) = false := by
      intro kept lost hk hl hlt x hx
      have hih := @ih kept (by
        intro z hz
        rcases List.mem_cons.mp hz with rfl | hz
        · exact hk
        · exact hys z hz)
      rcases List.mem_cons.mp hx with rfl | hx
      · have hm : S (maxFrom gt kept ys) := by
          rcases List.mem_cons.mp (maxFrom_mem gt kept ys) with he | hm
          · rw [he]
            exact hk
          · exact hys _ hm
        exact trans _ kept _ hl hk hm hlt (hih kept (List.mem_cons_self ..))
      · exact hih x hx
    intro x hx
    rw [maxFrom]
    by_cases hgt : gt y best = true
    · rw [if_pos hgt]
      apply survive y best hy hbest (asymm y best hy hbest hgt) x
      simpa only [List.mem_cons] using hx
    · rw [if_neg hgt]
      apply survive best y hbest hy (by simpa using hgt) x
      simp only [List.mem_cons] at hx ⊢
      tauto

/-- No scanned key exceeds the key of the maximum. -/
theorem maxByKey_maximal {gt : κ → κ → Bool} {S : κ → Prop}
    (asymm : ∀ a b, S a → S b → gt a b = true → gt b a = false)
    (trans : ∀ a b c, S a → S b → S c → gt a b = false → gt b c = false → gt a c = false)
    {xs : List (α × κ)} (hS : ∀ x ∈ xs, S x.2) {a : α} (h : maxByKey gt xs = some a) :
    ∃ k, (a, k) ∈ xs ∧ ∀ x ∈ xs, gt x.2 k = false := by
  cases xs with
  | nil => cases h
  | cons x xs =>
    have hmem := maxFrom_mem (fun x y : α × κ => gt x.2 y.2) x xs
    have hmax := @maxFrom_maximal (α × κ) (fun x y => gt x.2 y.2) (fun x => S x.2)
      (fun x y => asymm x.2 y.2) (fun x y z => trans x.2 y.2 z.2) x xs hS
    cases h
    exact ⟨_, hmem, hmax⟩

end CognitiveTree
