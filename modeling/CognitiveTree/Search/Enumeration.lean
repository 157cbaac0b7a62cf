import CognitiveTree.Search.Controller

/-!
# Enumerations by value

A member of an enumeration is written as its value and read back by it.
-/

namespace CognitiveTree.Search

section Lookup

variable {α : Type} {members : List α} {value : α → Str}

/-- `Enum(value)`: the member with this value. -/
def memberOf (members : List α) (value : α → Str) (v : Str) : Option α :=
  members.find? fun member => value member = v

/-- With distinct values every member is found by its own. -/
theorem memberOf_value (hdistinct : (members.map value).Nodup) {member : α}
    (hmember : member ∈ members) : memberOf members value (value member) = some member := by
  induction members with
  | nil => cases hmember
  | cons first rest ih =>
    rw [List.map_cons, List.nodup_cons] at hdistinct
    rcases List.mem_cons.mp hmember with rfl | hrest
    · simp [memberOf]
    · have hne : value first ≠ value member := fun he =>
        hdistinct.1 (he ▸ List.mem_map_of_mem hrest)
      simp only [memberOf, List.find?_cons, hne, decide_false]
      exact ih hdistinct.2 hrest

end Lookup

namespace SearchPhase

/-- `SearchPhase`, in the order of its definition. -/
def members : List SearchPhase :=
  [.idle, .selection, .expansion, .evaluation, .backpropagation, .backtracking, .succeeded,
    .exhausted, .failed, .timedOut, .budgetExhausted, .cancelled]

/-- `SearchPhase(value)`. -/
def ofValue (v : Str) : Option SearchPhase := memberOf members value v

@[simp] theorem ofValue_value (p : SearchPhase) : ofValue p.value = some p :=
  memberOf_value (by decide +kernel) (by cases p <;> decide)

theorem value_injective : Function.Injective value := by
  intro p q h
  have hp := ofValue_value p
  rw [h, ofValue_value] at hp
  exact (Option.some.inj hp).symm

end SearchPhase

end CognitiveTree.Search
