import Mathlib.Data.List.Basic

/-!
# Recency-ordered stores

The items of an ordered dictionary from the least to the most recently used one. Keys are compared
by a Boolean equality; an assignment to a present key keeps the key object that is stored.
-/

namespace CognitiveTree.Lru

variable {κ ν : Type} [BEq κ]

/-- `entries.get(k)`. -/
def get? (entries : List (κ × ν)) (k : κ) : Option ν :=
  (entries.find? fun entry => entry.1 == k).map Prod.snd

/-- `entries.move_to_end(k)` of a present key. -/
def moveToEnd (entries : List (κ × ν)) (k : κ) : List (κ × ν) :=
  entries.eraseP (fun entry => entry.1 == k) ++ (entries.find? fun entry => entry.1 == k).toList

/-- `entries[k] = v`. -/
def assign (entries : List (κ × ν)) (k : κ) (v : ν) : List (κ × ν) :=
  match entries with
  | [] => [(k, v)]
  | entry :: rest => if entry.1 == k then (entry.1, v) :: rest else entry :: assign rest k v

/-- `while len(entries) > limit: entries.popitem(last=False)`. -/
def trim (limit : Nat) : List (κ × ν) → List (κ × ν)
  | [] => []
  | entry :: rest => if limit < (entry :: rest).length then trim limit rest else entry :: rest

/-- What is found was stored under an equal key. -/
theorem exists_of_get? {entries : List (κ × ν)} {k : κ} {v : ν} (h : get? entries k = some v) :
    ∃ entry ∈ entries, (entry.1 == k) = true ∧ entry.2 = v := by
  obtain ⟨entry, hfind, rfl⟩ := Option.map_eq_some_iff.mp h
  exact ⟨entry, List.mem_of_find?_eq_some hfind, List.find?_some (p := fun e : κ × ν => e.1 == k) hfind, rfl⟩

/-- Moving an entry adds none. -/
theorem mem_of_mem_moveToEnd {entries : List (κ × ν)} {k : κ} {entry : κ × ν}
    (h : entry ∈ moveToEnd entries k) : entry ∈ entries := by
  rcases List.mem_append.mp h with h | h
  · exact List.mem_of_mem_eraseP h
  · exact List.mem_of_find?_eq_some (Option.mem_toList.mp h)

theorem length_moveToEnd (entries : List (κ × ν)) (k : κ) :
    (moveToEnd entries k).length = entries.length := by
  rw [moveToEnd, List.length_append]
  cases h : entries.find? fun entry => entry.1 == k with
  | none =>
    rw [List.eraseP_of_forall_not (List.find?_eq_none.mp h)]
    rfl
  | some entry =>
    have hmem := List.mem_of_find?_eq_some h
    have hkey : (entry.1 == k) = true := List.find?_some (p := fun e : κ × ν => e.1 == k) h
    have hlen := List.length_eraseP_of_mem (p := fun e : κ × ν => e.1 == k) hmem hkey
    have hpos := List.length_pos_of_mem hmem
    rw [hlen, Option.toList_some, List.length_singleton]
    omega

/-- An assignment adds at most the new value under an equal key. -/
theorem mem_of_mem_assign {entries : List (κ × ν)} {k : κ} {v : ν} {entry : κ × ν}
    (h : entry ∈ assign entries k v) :
    entry ∈ entries ∨ entry.2 = v ∧ (entry.1 = k ∨ (entry.1 == k) = true) := by
  induction entries with
  | nil =>
    rw [assign, List.mem_singleton] at h
    exact Or.inr ⟨congrArg Prod.snd h, Or.inl (congrArg Prod.fst h)⟩
  | cons first rest ih =>
    rw [assign] at h
    split at h
    · rename_i hk
      rcases List.mem_cons.mp h with rfl | h
      · exact Or.inr ⟨rfl, Or.inr hk⟩
      · exact Or.inl (List.mem_cons_of_mem _ h)
    · rcases List.mem_cons.mp h with rfl | h
      · exact Or.inl (List.mem_cons_self ..)
      · exact (ih h).imp_left (List.mem_cons_of_mem _)

omit [BEq κ] in
/-- Evictions add nothing. -/
theorem mem_of_mem_trim {limit : Nat} {entries : List (κ × ν)} {entry : κ × ν}
    (h : entry ∈ trim limit entries) : entry ∈ entries := by
  induction entries with
  | nil => exact h
  | cons first rest ih =>
    rw [trim] at h
    split at h
    · exact List.mem_cons_of_mem _ (ih h)
    · exact h

omit [BEq κ] in
theorem length_trim_le (limit : Nat) (entries : List (κ × ν)) : (trim limit entries).length ≤ limit := by
  induction entries with
  | nil => exact Nat.zero_le _
  | cons first rest ih =>
    rw [trim]
    split
    · exact ih
    · rename_i h
      exact Nat.not_lt.mp h

end CognitiveTree.Lru
