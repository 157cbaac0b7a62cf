import Mathlib.Logic.Function.Basic
import Mathlib.Logic.Relation

/-!
# Threads over a shared state

A thread is where it stands in its program, with its locals; a step reads and changes this and the
shared state. Three rules say what holds whatever the order of the steps: for all threads when no
step disturbs the assertion of another thread, for one thread among arbitrary ones, and for threads
that do not overlap.
-/

namespace CognitiveTree

variable {ι σ π : Type} [DecidableEq ι]

/-- A shared state, and where each thread stands. -/
structure Threads (ι σ π : Type) where
  shared : σ
  place : ι → π

namespace Threads

variable (step : σ → π → σ → π → Prop)

/-- A thread takes a step. -/
inductive Step : Threads ι σ π → Threads ι σ π → Prop
  | thread {c : Threads ι σ π} (i : ι) {s : σ} {p : π} (h : step c.shared (c.place i) s p) :
      Step c ⟨s, Function.update c.place i p⟩

/-- Any number of steps, in any order. -/
abbrev Steps : Threads ι σ π → Threads ι σ π → Prop := Relation.ReflTransGen (Step step)

variable {step} {c c' : Threads ι σ π}

/-- Each thread keeps its own assertion, and no step disturbs that of another one. -/
structure Annotated (step : σ → π → σ → π → Prop) (G : σ → Prop) (A : σ → π → Prop) : Prop where
  own : ∀ {s s' : σ} {p p' : π}, G s → A s p → step s p s' p' → G s' ∧ A s' p'
  other : ∀ {s s' : σ} {p p' q : π}, G s → A s p → A s q → step s p s' p' → A s' q

theorem Annotated.steps {G : σ → Prop} {A : σ → π → Prop} (h : Annotated step G A)
    (hs : Steps step c c') (hG : G c.shared) (hA : ∀ i, A c.shared (c.place i)) :
    G c'.shared ∧ ∀ i, A c'.shared (c'.place i) := by
  induction hs with
  | refl => exact ⟨hG, hA⟩
  | tail _ hstep ih =>
    obtain ⟨hG, hA⟩ := ih
    obtain ⟨i, hi⟩ := hstep
    obtain ⟨hG', hown⟩ := h.own hG (hA i) hi
    refine ⟨hG', fun j => ?_⟩
    by_cases hj : j = i
    · subst hj
      simpa using hown
    · simpa [Function.update_of_ne hj] using h.other hG (hA i) (hA j) hi

/-- What one thread keeps by its own steps, and all steps leave to it, it has for good. -/
theorem Steps.keeps {i : ι} {G : σ → Prop} {A : σ → π → Prop}
    (hs : Steps step c c') (all : ∀ {s s' : σ} {p p' : π}, G s → step s p s' p' → G s')
    (own : ∀ {s s' : σ} {p p' : π}, G s → A s p → step s p s' p' → A s' p')
    (other : ∀ {s s' : σ} {p p' q : π}, G s → A s q → step s p s' p' → A s' q)
    (hG : G c.shared) (hA : A c.shared (c.place i)) : G c'.shared ∧ A c'.shared (c'.place i) := by
  induction hs with
  | refl => exact ⟨hG, hA⟩
  | tail _ hstep ih =>
    obtain ⟨hG, hA⟩ := ih
    obtain ⟨j, hj⟩ := hstep
    refine ⟨all hG hj, ?_⟩
    by_cases hij : i = j
    · subst hij
      simpa using own hG hA hj
    · simpa [Function.update_of_ne hij] using other hG hA hj

section Serial

variable (step) (rest : π → Prop)

/-- A thread takes a step while all others rest. -/
inductive SerialStep : Threads ι σ π → Threads ι σ π → Prop
  | thread {c : Threads ι σ π} (i : ι) {s : σ} {p : π} (alone : ∀ j, j ≠ i → rest (c.place j))
      (h : step c.shared (c.place i) s p) : SerialStep c ⟨s, Function.update c.place i p⟩

/-- Any number of steps of threads that do not overlap. -/
abbrev SerialSteps : Threads ι σ π → Threads ι σ π → Prop :=
  Relation.ReflTransGen (SerialStep step rest)

variable {step rest}

/-- All threads rest, or all but one. -/
def Exclusive (rest : π → Prop) (G : σ → Prop) (A : σ → π → Prop) (c : Threads ι σ π) : Prop :=
  ((∀ j, rest (c.place j)) ∧ G c.shared) ∨
    ∃ i, ¬ rest (c.place i) ∧ (∀ j, j ≠ i → rest (c.place j)) ∧ A c.shared (c.place i)

/-- What a thread at rest leaves behind, and what it asserts on its way. -/
def Left (rest : π → Prop) (G : σ → Prop) (A : σ → π → Prop) (s : σ) (p : π) : Prop :=
  (rest p → G s) ∧ (¬ rest p → A s p)

theorem SerialSteps.exclusive {G : σ → Prop} {A : σ → π → Prop}
    (hs : SerialSteps step rest c c')
    (starts : ∀ {s s' : σ} {p p' : π}, G s → rest p → step s p s' p' → Left rest G A s' p')
    (own : ∀ {s s' : σ} {p p' : π}, A s p → ¬ rest p → step s p s' p' → Left rest G A s' p')
    (h : Exclusive rest G A c) : Exclusive rest G A c' := by
  induction hs with
  | refl => exact h
  | @tail b _ _ hstep ih =>
    obtain ⟨i, alone, hi⟩ := hstep
    rename_i s' p'
    have hleft : Left rest G A s' p' := by
      rcases ih with ⟨hrest, hG⟩ | ⟨k, hk, hothers, hA⟩
      · exact starts hG (hrest i) hi
      · by_cases hki : k = i
        · subst hki
          exact own hA hk hi
        · exact absurd (alone k hki) hk
    have hothers : ∀ j, j ≠ i → rest (Function.update b.place i p' j) := by
      intro j hj
      rw [Function.update_of_ne hj]
      exact alone j hj
    by_cases hp : rest p'
    · refine .inl ⟨fun j => ?_, hleft.1 hp⟩
      by_cases hj : j = i
      · subst hj
        simpa using hp
      · exact hothers j hj
    · exact .inr ⟨i, by simpa using hp, hothers, by simpa using hleft.2 hp⟩

end Serial

end Threads

end CognitiveTree
