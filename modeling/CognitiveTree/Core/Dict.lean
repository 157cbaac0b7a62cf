import Mathlib.Algebra.BigOperators.Group.List.Basic
import Mathlib.Data.List.Nodup

/-!
# Insertion-ordered dictionaries

A dictionary is its list of items. Assigning to a present key keeps the key's
place; assigning to a new key appends.
-/

namespace CognitiveTree

/-- A dictionary as its items in insertion order. -/
abbrev Dict (κ ν : Type) := List (κ × ν)

namespace Dict

variable {κ ν : Type} [DecidableEq κ]

/-- `d[k] = v`. -/
def set (d : Dict κ ν) (k : κ) (v : ν) : Dict κ ν :=
  match d with
  | [] => [(k, v)]
  | item :: rest => if item.1 = k then (k, v) :: rest else item :: set rest k v

/-- `d.get(k)`. -/
def get? (d : Dict κ ν) (k : κ) : Option ν :=
  match d with
  | [] => none
  | item :: rest => if item.1 = k then some item.2 else get? rest k

/-- `k in d`. -/
def contains (d : Dict κ ν) (k : κ) : Bool := (get? d k).isSome

theorem get?_set (d : Dict κ ν) (k k' : κ) (v : ν) :
    get? (set d k v) k' = if k' = k then some v else get? d k' := by
  induction d with
  | nil =>
    by_cases h : k' = k
    · simp [set, get?, h]
    · simp [set, get?, h, Ne.symm h]
  | cons item rest ih =>
    by_cases hi : item.1 = k
    · by_cases h : k' = k
      · simp [set, get?, hi, h]
      · have hne : ¬ k = k' := fun he => h he.symm
        simp [set, get?, hi, h, hne]
    · by_cases h : item.1 = k'
      · have hne : ¬ k' = k := fun he => hi (h.trans he)
        simp [set, get?, h, hne]
      · simp [set, get?, hi, h, ih]

/-- A new key is appended. -/
theorem set_eq_append {d : Dict κ ν} {k : κ} (v : ν) (h : get? d k = none) :
    set d k v = d ++ [(k, v)] := by
  induction d with
  | nil => rfl
  | cons item rest ih =>
    by_cases hi : item.1 = k
    · simp [get?, hi] at h
    · rw [set, if_neg hi, ih (by simpa [get?, hi] using h), List.cons_append]

/-- A key outside the listed keys is absent. -/
theorem get?_eq_none {d : Dict κ ν} {k : κ} (h : k ∉ d.map Prod.fst) : get? d k = none := by
  induction d with
  | nil => rfl
  | cons item rest ih =>
    rw [List.map_cons, List.mem_cons, not_or] at h
    rw [get?, if_neg (Ne.symm h.1)]
    exact ih h.2

/-- The sum of the values of a dictionary. -/
def total [AddCommMonoid ν] (d : Dict κ ν) : ν := (d.map Prod.snd).sum

omit [DecidableEq κ] in
@[simp] theorem total_nil [AddCommMonoid ν] : total ([] : Dict κ ν) = 0 := rfl

omit [DecidableEq κ] in
@[simp] theorem total_cons [AddCommMonoid ν] (item : κ × ν) (d : Dict κ ν) :
    total (item :: d) = item.2 + total d := rfl

/-- An assignment exchanges one summand. -/
theorem total_set [AddCommMonoid ν] (d : Dict κ ν) (k : κ) (v : ν) :
    total (set d k v) + (get? d k).getD 0 = total d + v := by
  induction d with
  | nil => simp [set, get?]
  | cons item rest ih =>
    by_cases h : item.1 = k
    · simp only [set, get?, h, if_true, total_cons, Option.getD_some]
      rw [add_assoc, add_comm (total rest), add_comm v]
    · simp only [set, get?, h, if_false, total_cons]
      rw [add_assoc, ih, add_assoc]

end Dict

end CognitiveTree
