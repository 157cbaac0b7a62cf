import CognitiveTree.Core.Text
import Mathlib.Data.List.Chain

/-!
# The phase machine

The machine carries its own history and the proof that the history is a chain of
legal edges from `IDLE` to the current phase, so a machine value with a gap or an
illegal edge cannot be built.
-/

namespace CognitiveTree.Search

/-- Every control state the search loop can occupy. -/
inductive SearchPhase where
  | idle
  | selection
  | expansion
  | evaluation
  | backpropagation
  | backtracking
  | succeeded
  | exhausted
  | failed
  | timedOut
  | budgetExhausted
  | cancelled
  deriving DecidableEq, Repr

namespace SearchPhase

/-- The enumeration value. -/
def value : SearchPhase → Str
  | .idle => lit "idle"
  | .selection => lit "selection"
  | .expansion => lit "expansion"
  | .evaluation => lit "evaluation"
  | .backpropagation => lit "backpropagation"
  | .backtracking => lit "backtracking"
  | .succeeded => lit "succeeded"
  | .exhausted => lit "exhausted"
  | .failed => lit "failed"
  | .timedOut => lit "timed_out"
  | .budgetExhausted => lit "budget_exhausted"
  | .cancelled => lit "cancelled"

/-- Membership in `TERMINAL_PHASES`. -/
def isTerminal (p : SearchPhase) : Bool :=
  p ∈ [.succeeded, .exhausted, .failed, .timedOut, .budgetExhausted, .cancelled]

/-- The transition table `_TRANSITIONS`. -/
def transitions : SearchPhase → List SearchPhase
  | .idle => [.selection, .failed, .timedOut, .budgetExhausted, .cancelled]
  | .selection =>
    [.expansion, .backtracking, .exhausted, .failed, .timedOut, .budgetExhausted, .cancelled]
  | .expansion => [.evaluation, .backtracking, .failed, .timedOut, .budgetExhausted, .cancelled]
  | .evaluation => [.backpropagation, .failed, .timedOut, .budgetExhausted, .cancelled]
  | .backpropagation =>
    [.selection, .succeeded, .exhausted, .failed, .timedOut, .budgetExhausted, .cancelled]
  | .backtracking => [.selection, .exhausted, .failed, .timedOut, .budgetExhausted, .cancelled]
  | .succeeded => []
  | .exhausted => []
  | .failed => []
  | .timedOut => []
  | .budgetExhausted => []
  | .cancelled => []

/-- Exactly the terminal phases have no outgoing edge. -/
theorem transitions_eq_nil (p : SearchPhase) : p.transitions = [] ↔ p.isTerminal = true := by
  cases p <;> decide

/-- An exception can end the run from every phase that is not terminal. -/
theorem failed_mem_transitions {p : SearchPhase} (h : p.isTerminal = false) :
    .failed ∈ p.transitions := by
  cases p <;> revert h <;> decide

end SearchPhase

/-- Record of a single accepted phase change. -/
structure PhaseTransition (K : Type) where
  source : SearchPhase
  target : SearchPhase
  note : Str
  timestamp : K

/-- A history is a chain of legal edges from `IDLE` to the given phase. -/
inductive Chained {K : Type} : List (PhaseTransition K) → SearchPhase → Prop
  | start : Chained [] .idle
  | extend {hs : List (PhaseTransition K)} {p : SearchPhase} (t : PhaseTransition K) :
      Chained hs p → t.source = p → t.target ∈ p.transitions → Chained (hs ++ [t]) t.target

namespace Chained

variable {K : Type} {hs : List (PhaseTransition K)} {p : SearchPhase}

theorem edges (h : Chained hs p) : ∀ t ∈ hs, t.target ∈ t.source.transitions := by
  induction h with
  | start => intro t ht; cases ht
  | extend t _ hsrc hedge ih =>
    intro u hu
    rcases List.mem_append.mp hu with hu | hu
    · exact ih u hu
    · rw [List.mem_singleton.mp hu, hsrc]
      exact hedge

/-- The last recorded target is the current phase. -/
theorem last (h : Chained hs p) : (hs.getLast?.map (·.target)).getD .idle = p := by
  cases h with
  | start => rfl
  | extend t _ _ _ => simp

/-- An empty history leaves the machine idle. -/
theorem phase_of_nil (h : Chained hs p) (hnil : hs = []) : p = .idle := by
  have hl := h.last
  rw [hnil] at hl
  exact hl.symm

theorem head (h : Chained hs p) : ∀ t, hs.head? = some t → t.source = .idle := by
  induction h with
  | start => intro t ht; cases ht
  | @extend hs p t hprev hsrc hedge ih =>
    intro u hu
    cases hs with
    | nil =>
      cases hu
      rw [hsrc]
      exact hprev.phase_of_nil rfl
    | cons v vs => exact ih u (by simpa using hu)

/-- Each recorded source is the previous target. -/
theorem linked (h : Chained hs p) : hs.IsChain fun a b => b.source = a.target := by
  induction h with
  | start => exact .nil
  | @extend hs p t hprev hsrc hedge ih =>
    rw [List.isChain_append]
    refine ⟨ih, .singleton t, ?_⟩
    intro x hx y hy
    cases hy
    have hl := hprev.last
    rw [Option.mem_def.mp hx] at hl
    exact hsrc.trans hl.symm

/-- Only the last target of a history can be terminal. -/
theorem not_terminal_of_mem_dropLast (h : Chained hs p) :
    ∀ t ∈ hs.dropLast, t.target.isTerminal = false := by
  induction h with
  | start => intro t ht; cases ht
  | @extend hs p t hprev hsrc hedge ih =>
    intro u hu
    rw [List.dropLast_concat] at hu
    rcases List.eq_nil_or_concat hs with rfl | ⟨init, v, rfl⟩
    · cases hu
    · rw [List.concat_eq_append] at hu ih hprev
      rcases List.mem_append.mp hu with hu | hu
      · exact ih u (by rw [List.dropLast_concat]; exact hu)
      · rw [List.mem_singleton.mp hu]
        have hl := hprev.last
        simp only [List.getLast?_append, List.getLast?_singleton, Option.some_or,
          Option.map_some, Option.getD_some] at hl
        cases hterm : v.target.isTerminal with
        | false => rfl
        | true =>
          rw [← hl, (SearchPhase.transitions_eq_nil _).mpr hterm] at hedge
          cases hedge

end Chained

/-- Guards the legal ordering of phases and records every transition. -/
structure SearchStateMachine (K : Type) where
  phase : SearchPhase
  history : List (PhaseTransition K)
  chained : Chained history phase

namespace SearchStateMachine

variable {K : Type}

/-- The machine of a new run. -/
def initial : SearchStateMachine K := ⟨.idle, [], .start⟩

def isTerminal (m : SearchStateMachine K) : Bool := m.phase.isTerminal

/-- Whether `target` is reachable from the current phase. -/
def canTransition (m : SearchStateMachine K) (target : SearchPhase) : Bool :=
  target ∈ m.phase.transitions

/-- The machine after a legal transition. -/
def record (m : SearchStateMachine K) (target : SearchPhase) (note : Str) (timestamp : K)
    (h : m.canTransition target = true) : SearchStateMachine K where
  phase := target
  history := m.history ++ [⟨m.phase, target, note, timestamp⟩]
  chained := .extend ⟨m.phase, target, note, timestamp⟩ m.chained rfl (of_decide_eq_true h)

end SearchStateMachine

/-- `InvalidTransitionError` of an edge the table does not list. -/
def invalidTransition (source target : SearchPhase) : Exc :=
  ⟨lit "InvalidTransitionError",
    lit "illegal transition '" ++ source.value ++ lit "' -> '" ++ target.value ++ lit "'"⟩

end CognitiveTree.Search
