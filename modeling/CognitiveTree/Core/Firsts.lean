import Mathlib.Data.List.Nodup

/-!
# First occurrences

The elements of a list whose key none before them has. They only grow with the list.
-/

namespace CognitiveTree

variable {α β : Type} [DecidableEq β] (key : α → β)

/-- The elements whose key is new, behind the keys that were seen. -/
def firsts : List α → List β → List α
  | [], _ => []
  | a :: l, seen => if key a ∈ seen then firsts l seen else a :: firsts l (key a :: seen)

omit [DecidableEq β] in
/-- One element for each key of a list, the first that has it, in the order of the list. -/
structure FirstOfEach (entries l : List α) : Prop where
  sublist : entries.Sublist l
  once : (entries.map key).Nodup
  covers : ∀ a ∈ l, key a ∈ entries.map key
  first : ∀ before a behind, l = before ++ a :: behind → key a ∉ before.map key → a ∈ entries

/-- The firsts stand in the order of the list. -/
theorem firsts_sublist (l : List α) (seen : List β) : (firsts key l seen).Sublist l := by
  induction l generalizing seen with
  | nil => exact List.Sublist.refl []
  | cons a l ih =>
    rw [firsts]
    split
    · exact (ih seen).cons a
    · exact (ih _).cons_cons a

/-- No first has a key that was seen. -/
theorem key_notMem_of_mem_firsts {l : List α} {seen : List β} :
    ∀ a ∈ firsts key l seen, key a ∉ seen := by
  induction l generalizing seen with
  | nil => simp [firsts]
  | cons a l ih =>
    rw [firsts]
    split
    · exact ih
    · rename_i hnew
      rw [List.forall_mem_cons]
      refine ⟨hnew, fun b hb hseen => ?_⟩
      exact ih b hb (List.mem_cons_of_mem _ hseen)

/-- No two firsts have the same key. -/
theorem firsts_once (l : List α) (seen : List β) : ((firsts key l seen).map key).Nodup := by
  induction l generalizing seen with
  | nil => exact List.nodup_nil
  | cons a l ih =>
    rw [firsts]
    split
    · exact ih seen
    · rw [List.map_cons, List.nodup_cons]
      refine ⟨fun hmem => ?_, ih _⟩
      obtain ⟨b, hb, hkey⟩ := List.mem_map.mp hmem
      apply key_notMem_of_mem_firsts key b hb
      rw [hkey]
      exact List.mem_cons_self ..

/-- Every new key has a first. -/
theorem firsts_covers {l : List α} {seen : List β} {a : α} (ha : a ∈ l) (hnew : key a ∉ seen) :
    key a ∈ (firsts key l seen).map key := by
  induction l generalizing seen with
  | nil => cases ha
  | cons b l ih =>
    rw [firsts]
    rcases List.mem_cons.mp ha with rfl | ha
    · rw [if_neg hnew]
      exact List.mem_cons_self ..
    · split
      · exact ih ha hnew
      · by_cases hkey : key a = key b
        · rw [hkey]
          exact List.mem_cons_self ..
        · apply List.mem_cons_of_mem
          exact ih ha (by simp [hkey, hnew])

/-- The first element with a new key is kept. -/
theorem firsts_first {before : List α} {a : α} {behind : List α} {seen : List β}
    (hnew : key a ∉ seen) (hfirst : key a ∉ before.map key) :
    a ∈ firsts key (before ++ a :: behind) seen := by
  induction before generalizing seen with
  | nil =>
    rw [List.nil_append, firsts, if_neg hnew]
    exact List.mem_cons_self ..
  | cons b before ih =>
    rw [List.map_cons, List.mem_cons, not_or] at hfirst
    rw [List.cons_append, firsts]
    split
    · exact ih hnew hfirst.2
    · apply List.mem_cons_of_mem
      exact ih (by simp [hfirst.1, hnew]) hfirst.2

/-- The firsts are the first of each key. -/
theorem firstOfEach_firsts (l : List α) : FirstOfEach key (firsts key l []) l where
  sublist := firsts_sublist key l []
  once := firsts_once key l []
  covers _ ha := firsts_covers key ha List.not_mem_nil
  first before a behind hl hfirst := by
    rw [hl]
    exact firsts_first key List.not_mem_nil hfirst

/-- What was first stays first in a longer list. -/
theorem firsts_prefix_append (l l' : List α) (seen : List β) :
    firsts key l seen <+: firsts key (l ++ l') seen := by
  induction l generalizing seen with
  | nil => exact List.nil_prefix
  | cons a l ih =>
    rw [List.cons_append, firsts, firsts]
    split
    · exact ih seen
    · exact List.cons_prefix_cons.mpr ⟨rfl, ih _⟩

end CognitiveTree
