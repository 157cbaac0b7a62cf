import CognitiveTree.Core.Program
import Mathlib.Data.List.Forall2

/-!
# Programs that raise

How a program without state ends: it returns a value, or it raises an exception of some kind. What
a sequence and a traversal do is said by what their parts do; the first part that raises decides.
-/

namespace CognitiveTree

variable {ε α β : Type} {p q : ε → Prop}

/-- The program returns a value. -/
def Returns (x : Except ε α) : Prop := ∃ a, x = .ok a

/-- The program raises an exception of this kind. -/
def Raises (p : ε → Prop) (x : Except ε α) : Prop := ∃ e, x = .error e ∧ p e

/-- What the program raises is of this kind. -/
def RaisesOnly (p : ε → Prop) (x : Except ε α) : Prop := ∀ e, x = .error e → p e

/-- A value is returned. -/
@[simp] theorem returns_ok (a : α) : Returns (.ok a : Except ε α) := ⟨a, rfl⟩

/-- An error is not returned. -/
@[simp] theorem not_returns_error (e : ε) : ¬ Returns (.error e : Except ε α) := by
  rintro ⟨_, h⟩
  cases h

/-- A value raises nothing. -/
@[simp] theorem not_raises_ok (a : α) : ¬ Raises p (.ok a : Except ε α) := by
  rintro ⟨_, h, -⟩
  cases h

/-- An error raises itself. -/
@[simp] theorem raises_error {e : ε} : Raises p (.error e : Except ε α) ↔ p e := by
  simp [Raises]

/-- A value raises nothing else. -/
@[simp] theorem raisesOnly_ok (a : α) : RaisesOnly p (.ok a : Except ε α) := fun _ h => by cases h

/-- An error raises only itself. -/
@[simp] theorem raisesOnly_error {e : ε} : RaisesOnly p (.error e : Except ε α) ↔ p e := by
  simp [RaisesOnly]

/-- Raising only one kind of error is raising only a wider one. -/
theorem RaisesOnly.mono {x : Except ε α} (h : RaisesOnly p x) (hpq : ∀ e, p e → q e) :
    RaisesOnly q x :=
  fun e he => hpq e (h e he)

/-- A program returns or raises, and not both. -/
theorem returns_or_raises (x : Except ε α) : Returns x ∨ ∃ e, x = .error e := by
  cases x with
  | ok a => exact .inl ⟨a, rfl⟩
  | error e => exact .inr ⟨e, rfl⟩

/-- What raises does not return. -/
theorem Raises.not_returns {x : Except ε α} (h : Raises p x) : ¬ Returns x := by
  rintro ⟨a, rfl⟩
  exact not_raises_ok a h

section Sequence

variable {x : Except ε α} {f : α → Except ε β}

/-- Two steps return when the first does, and the second from its value. -/
theorem returns_bind : Returns (x >>= f) ↔ ∃ a, x = .ok a ∧ Returns (f a) := by
  cases x with
  | ok a =>
    constructor
    · exact fun h => ⟨a, rfl, h⟩
    · rintro ⟨b, hb, h⟩
      cases hb
      exact h
  | error e =>
    refine iff_of_false (not_returns_error e) ?_
    rintro ⟨a, ha, -⟩
    cases ha

/-- Two steps raise in the first, or in the second behind it. -/
theorem raises_bind : Raises p (x >>= f) ↔ Raises p x ∨ ∃ a, x = .ok a ∧ Raises p (f a) := by
  cases x with
  | ok a =>
    constructor
    · exact fun h => .inr ⟨a, rfl, h⟩
    · rintro (h | ⟨b, hb, h⟩)
      · exact absurd h (not_raises_ok a)
      · cases hb
        exact h
  | error e =>
    refine ⟨fun h => .inl (raises_error.mpr (raises_error.mp h)), ?_⟩
    rintro (h | ⟨a, ha, -⟩)
    · exact raises_error.mpr (raises_error.mp h)
    · cases ha

/-- A sequence whose second part returns on the same condition for every value of the first. -/
theorem returns_bind_of {P C : Prop} (hx : Returns x ↔ P) (hf : ∀ a, Returns (f a) ↔ C) :
    Returns (x >>= f) ↔ P ∧ C := by
  rw [returns_bind, ← hx]
  constructor
  · rintro ⟨a, ha, h⟩
    exact ⟨⟨a, ha⟩, (hf a).mp h⟩
  · rintro ⟨⟨a, ha⟩, h⟩
    exact ⟨a, ha, (hf a).mpr h⟩

/-- Two steps raise in the first, or behind it in a second that raises independently of its value.
-/
theorem raises_bind_of {P Q C : Prop} (hx : Returns x ↔ P) (hraises : Raises p x ↔ Q)
    (hf : ∀ a, Raises p (f a) ↔ C) : Raises p (x >>= f) ↔ Q ∨ P ∧ C := by
  rw [raises_bind, ← hx, ← hraises]
  refine or_congr_right ?_
  constructor
  · rintro ⟨a, ha, h⟩
    exact ⟨⟨a, ha⟩, (hf a).mp h⟩
  · rintro ⟨⟨a, ha⟩, h⟩
    exact ⟨a, ha, (hf a).mpr h⟩

/-- Two steps raise only what each of them raises. -/
theorem RaisesOnly.bind (hx : RaisesOnly p x) (hf : ∀ a, x = .ok a → RaisesOnly p (f a)) :
    RaisesOnly p (x >>= f) := by
  cases x with
  | ok a => exact hf a rfl
  | error e => exact raisesOnly_error.mpr (hx e rfl)

end Sequence

section Traversal

variable {f : α → Except ε β} {xs : List α}

/-- A traversal returns the values of its elements in order. -/
theorem mapM_eq_ok_iff {ys : List β} :
    xs.mapM f = .ok ys ↔ List.Forall₂ (fun x y => f x = .ok y) xs ys := by
  induction xs generalizing ys with
  | nil =>
    rw [List.mapM_nil, List.forall₂_nil_left_iff]
    exact ⟨fun h => (Except.ok.inj h).symm, fun h => h ▸ rfl⟩
  | cons x xs ih =>
    rw [List.mapM_cons, List.forall₂_cons_left_iff]
    constructor
    · intro h
      obtain ⟨y, hy, hrest⟩ := exists_of_bind_eq_ok h
      obtain ⟨zs, hzs, hpure⟩ := exists_of_bind_eq_ok hrest
      exact ⟨y, zs, hy, ih.mp hzs, (Except.ok.inj hpure).symm⟩
    · rintro ⟨y, zs, hy, hzs, rfl⟩
      rw [hy, ih.mpr hzs]
      rfl

/-- A loop returns when each step does. -/
theorem returns_mapM : Returns (xs.mapM f) ↔ ∀ x ∈ xs, Returns (f x) := by
  induction xs with
  | nil => simp [pure, Except.pure]
  | cons x xs ih =>
    rw [List.mapM_cons, returns_bind, List.forall_mem_cons, ← ih]
    constructor
    · rintro ⟨y, hy, h⟩
      obtain ⟨ys, hys, -⟩ := returns_bind.mp h
      exact ⟨⟨y, hy⟩, ys, hys⟩
    · rintro ⟨⟨y, hy⟩, ys, hys⟩
      exact ⟨y, hy, returns_bind.mpr ⟨ys, hys, returns_ok _⟩⟩

/-- A property is reached at an element that follows harmless ones only. -/
inductive Reached (harmless property : α → Prop) : List α → Prop
  | here {x : α} {xs : List α} : property x → Reached harmless property (x :: xs)
  | later {x : α} {xs : List α} : harmless x → Reached harmless property xs →
      Reached harmless property (x :: xs)

/-- The first element has the property, or is harmless in front of one that is reached. -/
theorem reached_cons {harmless property : α → Prop} {x : α} : Reached harmless property (x :: xs) ↔
    property x ∨ harmless x ∧ Reached harmless property xs := by
  constructor
  · intro h
    cases h with
    | here h => exact .inl h
    | later h h' => exact .inr ⟨h, h'⟩
  · rintro (h | ⟨h, h'⟩)
    · exact .here h
    · exact .later h h'

/-- Nothing is reached in the empty list. -/
@[simp] theorem not_reached_nil {harmless property : α → Prop} : ¬ Reached harmless property [] :=
  fun h => by cases h

/-- A loop raises at the first element whose step does not return. -/
theorem raises_mapM : Raises p (xs.mapM f) ↔
    Reached (fun x => Returns (f x)) (fun x => Raises p (f x)) xs := by
  induction xs with
  | nil => simp [pure, Except.pure]
  | cons x xs ih =>
    rw [List.mapM_cons, raises_bind, reached_cons, ← ih]
    refine or_congr_right ?_
    constructor
    · rintro ⟨y, hy, h⟩
      refine ⟨⟨y, hy⟩, (raises_bind.mp h).resolve_right ?_⟩
      rintro ⟨ys, -, h⟩
      exact not_raises_ok _ h
    · rintro ⟨⟨y, hy⟩, h⟩
      exact ⟨y, hy, raises_bind.mpr (.inl h)⟩

/-- A loop raises only what its steps raise. -/
theorem RaisesOnly.mapM (h : ∀ x ∈ xs, RaisesOnly p (f x)) : RaisesOnly p (xs.mapM f) := by
  induction xs with
  | nil => exact raisesOnly_ok _
  | cons x xs ih =>
    rw [List.forall_mem_cons] at h
    rw [List.mapM_cons]
    exact h.1.bind fun _ _ => (ih h.2).bind fun _ _ => raisesOnly_ok _

end Traversal

end CognitiveTree
