import CognitiveTree.Search.PathPolicy
import CognitiveTree.Search.Trace

/-!
# Every run returns

Whatever the policies answer or raise, a run whose event sink is quiet returns a
result. Its phase history is a chain of legal edges that ends, and only ends, in the
terminal phase naming the outcome.
-/

namespace CognitiveTree.Search

variable {K W : Type} [PyFloat K]

/-- The outcome `FAILED` belongs to the phase `FAILED`. -/
theorem outcomeByPhase_failed {p : SearchPhase} {outcome : SearchOutcome}
    (h : outcomeByPhase p = some outcome) : outcome = .failed ↔ p = .failed := by
  cases p <;> cases h <;> decide

omit [PyFloat K] in
/-- A machine in a terminal phase got there by its last recorded transition. -/
theorem SearchStateMachine.exists_last (m : SearchStateMachine K) (h : m.isTerminal = true) :
    ∃ last, m.history.getLast? = some last ∧ last.target = m.phase := by
  have hlast := m.chained.last
  cases hl : m.history.getLast? with
  | none =>
    rw [hl] at hlast
    rw [isTerminal, ← hlast] at h
    cases h
  | some last =>
    rw [hl] at hlast
    exact ⟨last, rfl, hlast⟩

section Total

variable (ctl : TreeSearchController K W) (rt : Runtime K W) (task : Str) (draws : Nat) (world : W)

/-- With a quiet event sink nothing escapes from a run. -/
theorem run_ok_of_quiet (quiet : ctl.QuietSink) :
    ∃ r s, ctl.run rt task draws world = .ok r s ∧ Reported ctl rt task draws r s := by
  have h := run_spec ctl rt task draws world
  cases hr : ctl.run rt task draws world with
  | ok r s =>
    rw [hr] at h
    exact ⟨r, s, rfl, h⟩
  | error e s =>
    rw [hr] at h
    obtain ⟨-, ⟨st, hreach, -⟩, x, hx⟩ := h
    exact absurd hx (hreach.no_sinkRaised quiet x)

theorem run_returns_with_legal_history (quiet : ctl.QuietSink) :
    ∃ r s, ctl.run rt task draws world = .ok r s ∧
      (∀ source target, Obs.refused source target ∉ s.log) ∧
      (∃ first, r.phaseHistory.head? = some first ∧ first.source = .idle) ∧
      (r.phaseHistory.IsChain fun a b => b.source = a.target) ∧
      (∀ t ∈ r.phaseHistory, t.target ∈ t.source.transitions) ∧
      (∃ last, r.phaseHistory.getLast? = some last ∧ last.target.isTerminal = true ∧
        outcomeByPhase last.target = some r.outcome) ∧
      (∀ t ∈ r.phaseHistory.dropLast, t.target.isTerminal = false) ∧
      (r.error ≠ [] ↔ r.outcome = .failed) ∧
      r.iterations ≤ ctl.config.maxIterations := by
  obtain ⟨r, s, hrun, hr⟩ := run_ok_of_quiet ctl rt task draws world quiet
  have hterm : s.machine.isTerminal = true := hr.reach.inv.phase
  obtain ⟨last, hlast, htarget⟩ := s.machine.exists_last hterm
  have hchained := s.machine.chained
  refine ⟨r, s, hrun, hr.reach.no_refused quiet, ?_⟩
  rw [hr.phaseHistory, hr.iterations]
  refine ⟨?_, hchained.linked, hchained.edges, ⟨last, hlast, htarget ▸ hterm,
    htarget ▸ hr.outcome⟩, hchained.not_terminal_of_mem_dropLast,
    hr.error.trans (outcomeByPhase_failed hr.outcome).symm, hr.reach.iteration_le⟩
  cases hhead : s.machine.history with
  | nil =>
    rw [hhead] at hlast
    cases hlast
  | cons first rest => exact ⟨first, rfl, hchained.head first (by rw [hhead]; rfl)⟩

/-- A small run of a controller whose only candidate keeps being half good. -/
theorem run_returns_with_legal_history_small :
    ∃ r s, (pathController smallConfig (fun _ => [lit "go on"]) (fun _ => halfway) :
        TreeSearchController ℚ Unit).run (Runtime.still fun _ _ => 0) (lit "task") 0 () = .ok r s ∧
      r.iterations ≤ 2 := by
  obtain ⟨r, s, hrun, -, -, -, -, -, -, -, hle⟩ := run_returns_with_legal_history
    (pathController smallConfig (fun _ => [lit "go on"]) (fun _ => halfway) :
      TreeSearchController ℚ Unit) (Runtime.still fun _ _ => 0) (lit "task") 0 ()
    (fun sink hsink => by cases hsink)
  exact ⟨r, s, hrun, hle⟩

end Total

end CognitiveTree.Search
