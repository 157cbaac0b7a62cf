import CognitiveTree.Core.Raising
import CognitiveTree.Persistence.Loading

/-!
# Fields of a document

What reading one field may raise, and when. A conversion overflows at a number out of range: `int` of
an infinity or `float` of an integer beyond the floats. Everything else that goes wrong is caught by
the reader. The fields of a node are read in a fixed order, and the first one that fails decides.
-/

namespace CognitiveTree.Persistence

open Search Observability Feedback Llm

/-- The exception is an `OverflowError`. -/
def IsOverflow (e : Exc) : Prop := e.typeName = lit "OverflowError"

/-- One of the `except` clauses is for the exception. -/
def IsCaught (e : Exc) : Prop :=
  e.typeName = lit "KeyError" ∨ e.typeName = lit "TypeError" ∨ e.typeName = lit "ValueError"

/-- The exception is an `ArchiveFormatError`. -/
def IsFormatError (e : Exc) : Prop := e.typeName = lit "ArchiveFormatError"

/-- What the conversion of a field may raise. -/
def IsExpected (e : Exc) : Prop := IsCaught e ∨ IsOverflow e

/-- What the reader translates is not an overflow. -/
theorem IsCaught.not_overflow {e : Exc} (h : IsCaught e) : ¬ IsOverflow e := by
  unfold IsOverflow
  rcases h with h | h | h <;> rw [h] <;> decide

/-- A `TypeError` is translated. -/
@[simp] theorem isCaught_typeError (message : Str) : IsCaught (typeError message) := .inr (.inl rfl)

/-- A `ValueError` is translated. -/
@[simp] theorem isCaught_valueError (message : Str) : IsCaught (valueError message) :=
  .inr (.inr rfl)

/-- An `OverflowError` is an overflow. -/
@[simp] theorem isOverflow_overflowError (message : Str) : IsOverflow (overflowError message) := rfl

/-- A `TypeError` is no overflow. -/
@[simp] theorem not_isOverflow_typeError (message : Str) : ¬ IsOverflow (typeError message) :=
  (isCaught_typeError message).not_overflow

/-- A `ValueError` is no overflow. -/
@[simp] theorem not_isOverflow_valueError (message : Str) : ¬ IsOverflow (valueError message) :=
  (isCaught_valueError message).not_overflow

/-- A `TypeError` is one of the faults a document can cause. -/
@[simp] theorem isExpected_typeError (message : Str) : IsExpected (typeError message) :=
  .inl (isCaught_typeError message)

/-- A `ValueError` is one of the faults a document can cause. -/
@[simp] theorem isExpected_valueError (message : Str) : IsExpected (valueError message) :=
  .inl (isCaught_valueError message)

/-- An `OverflowError` is one of the faults a document can cause. -/
@[simp] theorem isExpected_overflowError (message : Str) : IsExpected (overflowError message) :=
  .inr rfl

/-- What is caught is no overflow. -/
theorem not_raises_overflow {α : Type} {x : Except Exc α} (h : RaisesOnly IsCaught x) :
    ¬ Raises IsOverflow x := by
  rintro ⟨e, he, hover⟩
  exact (h e he).not_overflow hover

/-- What a caught exception becomes. -/
theorem translated_caught {e : Exc} (h : IsCaught e) : IsFormatError (translated e) := by
  unfold translated
  rcases h with h | h | h
  · rw [if_pos (.inl h)]
    rfl
  · rw [if_pos (.inr h)]
    rfl
  · rw [if_neg (by rw [h]; decide), if_pos h]
    rfl

/-- An overflow leaves the reader as it is. -/
theorem translated_overflow {e : Exc} (h : IsOverflow e) : translated e = e := by
  unfold IsOverflow at h
  rw [translated, h, if_neg (by decide), if_neg (by decide)]

/-- The exception behind a signal. -/
def SignalIs (p : Exc → Prop) : Signal → Prop
  | .raised e => p e
  | .diverged => False

section Signals

variable {α : Type} {x : Except Exc α} {p : Exc → Prop}

/-- A fault inside a loop is the fault of the loop. -/
@[simp] theorem raises_raising : Raises (SignalIs p) (raising x) ↔ Raises p x := by
  cases x with
  | ok a => simp [raising]
  | error e => simp [raising, SignalIs]

/-- Inside a loop a value stays the value. -/
theorem raising_eq_ok {a : α} : raising x = .ok a ↔ x = .ok a := by
  cases x with
  | ok b => simp [raising]
  | error e => simp [raising]

/-- Inside a loop a step returns when it does outside. -/
theorem returns_raising : Returns (raising x) ↔ Returns x :=
  exists_congr fun _ => raising_eq_ok

/-- Inside a loop a step raises nothing new. -/
theorem raisesOnly_raising (h : RaisesOnly p x) :
    RaisesOnly (SignalIs p) (raising x) := by
  cases x with
  | ok a => exact raisesOnly_ok a
  | error e => exact raisesOnly_error.mpr (h e rfl)

end Signals

variable {K : Type}

/-- What `dict` of a list of pairs raises. -/
class LawfulDocument (K : Type) [PyDocument K] : Prop where
  ofPairs : ∀ xs : List (PyVal K), RaisesOnly IsCaught (PyDocument.ofPairs xs)

/-- How a field of a document is read. -/
inductive Reading where
  | value
  | integer
  | number
  | status
  | phase
  | outcome

/-- The value of a field can be read. -/
def Reading.Accepts [PyNumber K] [PyDocument K] : Reading → PyVal K → Prop
  | .value, _ => True
  | .integer, v => Returns v.toInt
  | .number, v => Returns v.toFloat
  | .status, v => Returns (statusOf v)
  | .phase, v => Returns (phaseOf v)
  | .outcome, v => Returns (outcomeOf v)

/-- The value of a field is a number that the conversion has no room for. -/
def Reading.OutOfRange [PyNumber K] : Reading → PyVal K → Prop
  | .integer, .float x => PyNumber.truncate x = .infinite
  | .number, .int i => (PyNumber.ofInt i : Option K) = none
  | .number, .bool b => (PyNumber.ofInt (if b then 1 else 0) : Option K) = none
  | _, _ => False

section Conversions

variable [PyNumber K]

/-- `int()` overflows on exactly the infinite floats. -/
theorem raises_toInt {v : PyVal K} :
    Raises IsOverflow v.toInt ↔ Reading.OutOfRange .integer v := by
  cases v with
  | float x =>
    simp only [PyVal.toInt, Reading.OutOfRange]
    cases PyNumber.truncate x <;> simp
  | str s =>
    simp only [PyVal.toInt, Reading.OutOfRange]
    cases PyNumber.parseInt K s <;> simp
  | _ => simp [PyVal.toInt, Reading.OutOfRange]

/-- `int()` raises nothing unexpected. -/
theorem raisesOnly_toInt (v : PyVal K) : RaisesOnly IsExpected v.toInt := by
  cases v with
  | float x =>
    simp only [PyVal.toInt]
    cases PyNumber.truncate x <;> simp
  | str s =>
    simp only [PyVal.toInt]
    cases PyNumber.parseInt K s <;> simp
  | _ => simp [PyVal.toInt]

/-- `float()` overflows on exactly the integers beyond the range of a float. -/
theorem raises_toFloat {v : PyVal K} :
    Raises IsOverflow v.toFloat ↔ Reading.OutOfRange .number v := by
  cases v with
  | int i =>
    simp only [PyVal.toFloat, Reading.OutOfRange]
    cases (PyNumber.ofInt i : Option K) <;> simp
  | bool b =>
    simp only [PyVal.toFloat, Reading.OutOfRange]
    cases (PyNumber.ofInt (if b then 1 else 0) : Option K) <;> simp
  | str s =>
    simp only [PyVal.toFloat, Reading.OutOfRange]
    cases (PyNumber.parseFloat s : Option K) <;> simp
  | _ => simp [PyVal.toFloat, Reading.OutOfRange]

/-- `float()` raises nothing unexpected. -/
theorem raisesOnly_toFloat (v : PyVal K) : RaisesOnly IsExpected v.toFloat := by
  cases v with
  | int i =>
    simp only [PyVal.toFloat]
    cases (PyNumber.ofInt i : Option K) <;> simp
  | bool b =>
    simp only [PyVal.toFloat]
    cases (PyNumber.ofInt (if b then 1 else 0) : Option K) <;> simp
  | str s =>
    simp only [PyVal.toFloat]
    cases (PyNumber.parseFloat s : Option K) <;> simp
  | _ => simp [PyVal.toFloat]

end Conversions

section Fields

/-- Only a dictionary that has the key can be subscripted with it. -/
theorem subscriptKey_eq_ok {v w : PyVal K} {key : Str} : subscriptKey v key = .ok w ↔
    ∃ items, v = .dict items ∧ Dict.get? items key = some w := by
  cases v with
  | dict items =>
    simp only [subscriptKey, PyVal.dict.injEq, exists_eq_left']
    cases Dict.get? items key <;> simp
  | _ => simp [subscriptKey]

/-- A dictionary is subscripted by looking the key up. -/
theorem subscriptKey_dict {items : List (Str × PyVal K)} {key : Str} {w : PyVal K} :
    subscriptKey (.dict items) key = .ok w ↔ Dict.get? items key = some w := by
  simp [subscriptKey_eq_ok]

/-- A missing key and a value without keys are both translated. -/
theorem raisesOnly_subscriptKey (v : PyVal K) (key : Str) :
    RaisesOnly IsCaught (subscriptKey v key) := by
  cases v with
  | dict items =>
    simp only [subscriptKey]
    cases Dict.get? items key with
    | some w => simp
    | none => exact raisesOnly_error.mpr (.inl rfl)
  | _ => simp [subscriptKey]

/-- What cannot be iterated is translated. -/
theorem raisesOnly_iterated (v : PyVal K) : RaisesOnly IsCaught (iterated v) := by
  cases v <;> simp [iterated]

/-- What cannot be hashed is translated. -/
theorem raisesOnly_hashed (v : PyVal K) : RaisesOnly IsCaught (hashed v) := by
  cases v <;> simp [hashed]

/-- An id is hashed when it is hashable. -/
theorem returns_hashed {v : PyVal K} : Returns (hashed v) ↔ Hashable v := by
  cases v <;> simp [hashed, Hashable]

variable [PyDocument K]

/-- A value that names no member is translated. -/
theorem raisesOnly_enumOf {α : Type} (name : Str) (members : List α) (value : α → Str)
    (v : PyVal K) : RaisesOnly IsCaught (enumOf name members value v) := by
  unfold enumOf
  dsimp only
  split
  · exact raisesOnly_ok _
  · exact raisesOnly_error.mpr (isCaught_valueError _)

/-- An unknown status is translated. -/
theorem raisesOnly_statusOf (v : PyVal K) : RaisesOnly IsCaught (statusOf v) := by
  unfold statusOf
  dsimp only
  split
  · exact raisesOnly_ok _
  · exact raisesOnly_error.mpr (isCaught_valueError _)

/-- Metadata that is not a dictionary is translated. -/
theorem raisesOnly_metadataOf [PyFloat K] [LawfulDocument K] (found : Option (PyVal K)) :
    RaisesOnly IsCaught (metadataOf found) := by
  cases found with
  | none => exact raisesOnly_ok _
  | some v =>
    simp only [metadataOf]
    split
    · cases v with
      | dict items => exact raisesOnly_ok _
      | list xs => exact LawfulDocument.ofPairs xs
      | str s => exact raisesOnly_error.mpr (isCaught_valueError _)
      | _ => exact raisesOnly_error.mpr (isCaught_typeError _)
    · exact raisesOnly_ok _

variable [PyNumber K]

/-- The field is there and can be read. -/
def FieldReads (items : Dict Str (PyVal K)) (field : Str × Reading) : Prop :=
  ∃ v, Dict.get? items field.1 = some v ∧ field.2.Accepts v

omit [PyDocument K] in
/-- The field is there, with a number that is out of range. -/
def FieldOverflows (items : Dict Str (PyVal K)) (field : Str × Reading) : Prop :=
  ∃ v, Dict.get? items field.1 = some v ∧ field.2.OutOfRange v

/-- What a reading does with a value. -/
structure Reading.Done {α : Type} (r : Reading) (read : PyVal K → Except Exc α) : Prop where
  returns : ∀ v, Returns (read v) ↔ r.Accepts v
  raises : ∀ v, Raises IsOverflow (read v) ↔ r.OutOfRange v
  only : ∀ v, RaisesOnly IsExpected (read v)

/-- A field kept as it is never fails. -/
theorem Reading.done_value : Reading.value.Done (fun v : PyVal K => .ok v) :=
  ⟨by simp [Reading.Accepts], by simp [Reading.OutOfRange], by simp⟩

/-- A counter is read by `int()`. -/
theorem Reading.done_integer : Reading.integer.Done (PyVal.toInt (K := K)) :=
  ⟨fun _ => Iff.rfl, fun _ => raises_toInt, raisesOnly_toInt⟩

/-- A number is read by `float()`. -/
theorem Reading.done_number : Reading.number.Done (PyVal.toFloat (K := K)) :=
  ⟨fun _ => Iff.rfl, fun _ => raises_toFloat, raisesOnly_toFloat⟩

/-- A reading that raises nothing but what is caught. -/
theorem Reading.done_of_caught {α : Type} {r : Reading} {read : PyVal K → Except Exc α}
    (hreturns : ∀ v, Returns (read v) ↔ r.Accepts v) (hrange : ∀ v : PyVal K, ¬ r.OutOfRange v)
    (hcaught : ∀ v, RaisesOnly IsCaught (read v)) : r.Done read :=
  ⟨hreturns, fun v => iff_of_false (not_raises_overflow (hcaught v)) (hrange v),
    fun v => (hcaught v).mono fun _ => Or.inl⟩

/-- A status is read by its value. -/
theorem Reading.done_status : Reading.status.Done (statusOf (K := K)) :=
  Reading.done_of_caught (fun _ => Iff.rfl) (fun _ => id) raisesOnly_statusOf

/-- A phase is read by its value. -/
theorem Reading.done_phase : Reading.phase.Done (phaseOf (K := K)) :=
  Reading.done_of_caught (fun _ => Iff.rfl) (fun _ => id) (raisesOnly_enumOf _ _ _)

/-- An outcome is read by its value. -/
theorem Reading.done_outcome : Reading.outcome.Done (outcomeOf (K := K)) :=
  Reading.done_of_caught (fun _ => Iff.rfl) (fun _ => id) (raisesOnly_enumOf _ _ _)

section Field

variable {α β : Type} {r : Reading} {read : PyVal K → Except Exc α} {items : Dict Str (PyVal K)}
  {key : Str} {f : α → Except Exc β} {C : Prop}

/-- A field that is read first. -/
theorem Reading.Done.returns_field (h : r.Done read) (hf : ∀ a, Returns (f a) ↔ C) :
    Returns (subscriptKey (.dict items) key >>= fun v => read v >>= f) ↔
      FieldReads items (key, r) ∧ C := by
  have hread : Returns (subscriptKey (.dict items) key >>= read) ↔ FieldReads items (key, r) := by
    simp only [returns_bind, subscriptKey_dict, h.returns, FieldReads]
  rw [← returns_bind_of hread hf, bind_assoc]

/-- Reading a field and going on overflows in the field, or behind it once the field was read. -/
theorem Reading.Done.raises_field (h : r.Done read) (hf : ∀ a, Raises IsOverflow (f a) ↔ C) :
    Raises IsOverflow (subscriptKey (.dict items) key >>= fun v => read v >>= f) ↔
      FieldOverflows items (key, r) ∨ FieldReads items (key, r) ∧ C := by
  have hread : Returns (subscriptKey (.dict items) key >>= read) ↔ FieldReads items (key, r) := by
    simp only [returns_bind, subscriptKey_dict, h.returns, FieldReads]
  have hraises : Raises IsOverflow (subscriptKey (.dict items) key >>= read) ↔
      FieldOverflows items (key, r) := by
    simp only [raises_bind, subscriptKey_dict, h.raises, FieldOverflows,
      not_raises_overflow (raisesOnly_subscriptKey _ _), false_or]
  rw [← raises_bind_of hread hraises hf, bind_assoc]

/-- Reading a field and going on raises nothing unexpected when what follows does not. -/
theorem Reading.Done.only_field (h : r.Done read) {v : PyVal K}
    (hf : ∀ a, RaisesOnly IsExpected (f a)) :
    RaisesOnly IsExpected (subscriptKey v key >>= fun v => read v >>= f) :=
  ((raisesOnly_subscriptKey v key).mono fun _ => Or.inl).bind fun w _ =>
    (h.only w).bind fun a _ => hf a

end Field

end Fields

section Nodes

variable [PyFloat K] [PyNumber K] [PyDocument K]

omit [PyFloat K] in
/-- A number out of range comes before any field that is missing or cannot be read. -/
def FieldsOverflow (items : Dict Str (PyVal K)) (fields : List (Str × Reading)) :
    Prop :=
  Reached (FieldReads items) (FieldOverflows items) fields

/-- The fields of a node that are converted, in their order. -/
def nodeFields : List (Str × Reading) :=
  [(lit "content", .value), (lit "depth", .integer), (lit "id", .value), (lit "status", .status),
    (lit "visits", .integer), (lit "value_sum", .number), (lit "score", .number)]

/-- The payload has the data of a node. -/
def NodeReads (payload : PyVal K) : Prop :=
  ∃ items, payload = .dict items ∧ (∀ field ∈ nodeFields, FieldReads items field) ∧
    Returns (metadataOf (Dict.get? items (lit "metadata")))

omit [PyFloat K] in
/-- A number of the node is out of range, and what is read before it can be read. -/
def NodeOverflows (payload : PyVal K) : Prop :=
  ∃ items, payload = .dict items ∧ FieldsOverflow items nodeFields

/-- A node is built when every field it needs is read and its metadata is a dictionary. -/
theorem returns_bareFromPayload_dict (items : List (Str × PyVal K)) :
    Returns (bareFromPayload (.dict items)) ↔ (∀ field ∈ nodeFields, FieldReads items field) ∧
      Returns (metadataOf (Dict.get? items (lit "metadata"))) := by
  simp only [nodeFields, List.forall_mem_cons, List.not_mem_nil, false_implies, implies_true, and_true,
    and_assoc]
  refine Reading.done_value.returns_field fun _ => ?_
  refine Reading.done_integer.returns_field fun _ => ?_
  refine Reading.done_value.returns_field fun _ => ?_
  refine Reading.done_status.returns_field fun _ => ?_
  refine Reading.done_integer.returns_field fun _ => ?_
  refine Reading.done_number.returns_field fun _ => ?_
  refine Reading.done_number.returns_field fun _ => ?_
  exact bind_pure_ok_iff

/-- Building a node overflows in the first of its fields that is not read. -/
theorem raises_bareFromPayload_dict [LawfulDocument K] (items : List (Str × PyVal K)) :
    Raises IsOverflow (bareFromPayload (.dict items)) ↔ FieldsOverflow items nodeFields := by
  simp only [FieldsOverflow, nodeFields, reached_cons, not_reached_nil, and_false, or_false]
  refine Reading.done_value.raises_field fun _ => ?_
  refine Reading.done_integer.raises_field fun _ => ?_
  refine Reading.done_value.raises_field fun _ => ?_
  refine Reading.done_status.raises_field fun _ => ?_
  refine Reading.done_integer.raises_field fun _ => ?_
  refine Reading.done_number.raises_field fun _ => ?_
  refine (Reading.done_number.raises_field (C := False) fun _ => ?_).trans (by simp)
  refine iff_of_false (fun h => ?_) id
  change Raises IsOverflow (metadataOf (Dict.get? items (lit "metadata")) >>= _) at h
  rcases raises_bind.mp h with h | ⟨_, -, h⟩
  · exact not_raises_overflow (raisesOnly_metadataOf _) h
  · exact not_raises_ok _ h

/-- Building a node raises nothing unexpected. -/
theorem raisesOnly_bareFromPayload [LawfulDocument K] (payload : PyVal K) :
    RaisesOnly IsExpected (bareFromPayload payload) := by
  cases payload with
  | dict items =>
    refine Reading.done_value.only_field fun _ => ?_
    refine Reading.done_integer.only_field fun _ => ?_
    refine Reading.done_value.only_field fun _ => ?_
    refine Reading.done_status.only_field fun _ => ?_
    refine Reading.done_integer.only_field fun _ => ?_
    refine Reading.done_number.only_field fun _ => ?_
    refine Reading.done_number.only_field fun _ => ?_
    change RaisesOnly IsExpected (metadataOf (Dict.get? items (lit "metadata")) >>= _)
    exact ((raisesOnly_metadataOf _).mono fun _ => Or.inl).bind fun _ _ => raisesOnly_ok _
  | _ => exact raisesOnly_error.mpr (isExpected_typeError _)

/-- A node is built from exactly the payloads that read as nodes. -/
theorem returns_bareFromPayload {payload : PyVal K} :
    Returns (bareFromPayload payload) ↔ NodeReads payload := by
  cases payload with
  | dict items => simp [returns_bareFromPayload_dict, NodeReads]
  | _ =>
    refine iff_of_false (not_returns_error _) ?_
    rintro ⟨_, h, -⟩
    cases h

/-- Building a node overflows on exactly the payloads that overflow as nodes. -/
theorem raises_bareFromPayload [LawfulDocument K] {payload : PyVal K} :
    Raises IsOverflow (bareFromPayload payload) ↔ NodeOverflows payload := by
  cases payload with
  | dict items => simp [raises_bareFromPayload_dict, NodeOverflows]
  | _ =>
    refine iff_of_false (fun h => not_isOverflow_typeError _ (raises_error.mp h)) ?_
    rintro ⟨_, h, -⟩
    cases h

end Nodes

end CognitiveTree.Persistence
