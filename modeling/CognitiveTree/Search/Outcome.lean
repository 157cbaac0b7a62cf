import CognitiveTree.Search.Laps
import CognitiveTree.Search.Workers

/-!
# A run and its result

The main loop, the fault handler and the exit of `run` follow the transition system
too. `run_spec` is what every statement about results rests on: a run returns the
report of a reachable final state, or raises because of the event sink; it never
diverges.
-/

namespace CognitiveTree.Search

open Arena

variable {K W : Type} [PyFloat K]

/-- How an iteration ends: at the head of the loop, or with the run over. -/
def Continues (G : Stage K → RunState K W → Prop) (again : Bool) (s : RunState K W) : Prop :=
  if again = true then G .boundary s else G .ended s ∧ s.machine.phase ≠ .failed

namespace Follows

variable {ctl : TreeSearchController K W} {rt : Runtime K W}
  {G : Stage K → RunState K W → Prop} (hG : Follows ctl rt G)

include hG

/-- Backing off goes on or fails with the state reachable. -/
theorem backtrack (n : Nat) (seen : List Str) :
    Triple (G (.attaching n [] seen [])) (backtrack ctl rt n) (Continues G) (Fault G) := by
  refine Triple.bind (hG.advance.pre fun s hs => ⟨hs, .deadEnd n seen⟩) fun _ => ?_
  refine Triple.bind (Q := fun _ s => G .retreated s)
    (Triple.modify _ fun s hs => hG.step hs.1 .retreat rfl) fun _ => ?_
  refine Triple.bind (hG.advance.pre fun s hs => ⟨hs, .backtracked⟩) fun _ => ?_
  exact Triple.pure _ fun s hs => hs.1

/-- Concluding goes on or fails with the state reachable. -/
theorem conclude (n : Nat) (solution : Option Nat) :
    Triple (G (.settled n solution)) (conclude ctl rt solution) (Continues G) (Fault G) := by
  cases solution with
  | none =>
    refine Triple.bind (hG.advance.pre fun s hs => ⟨hs, .iterated n⟩) fun _ => ?_
    exact Triple.pure _ fun s hs => hs.1
  | some c =>
    refine Triple.get_bind fun s hs => ?_
    refine Triple.bind ((hG.advance (p := .settled n (some c))).pre ?_) fun _ =>
      Triple.pure _ fun t ht => ⟨ht.1, by rw [ht.2]; decide⟩
    rintro s' rfl
    exact ⟨hs, .accepted n c⟩

/-- Judging a batch goes on or fails with the state reachable. -/
theorem assess (n : Nat) (seen : List Str) (batch : List Nat) (hne : batch ≠ []) :
    Triple (G (.attaching n [] seen batch)) (assess ctl rt n batch) (Continues G) (Fault G) := by
  refine Triple.bind (hG.advance.pre fun s hs => ⟨hs, .candidates n seen batch hne⟩) fun _ => ?_
  refine Triple.bind ((hG.evaluate n batch).pre fun s hs => hs.1) fun r => ?_
  refine Triple.bind (hG.advance.pre fun s hs => ⟨hs, .valued n r.1 r.2⟩) fun _ => ?_
  refine Triple.bind (Q := fun _ s => G (.settled n r.1) s)
    (Triple.modify _ fun s hs => hG.step hs.1 .credit rfl) fun _ => ?_
  exact hG.conclude n r.1

/-- Working on a node goes on or fails with the state reachable. -/
theorem workOn (n : Nat) :
    Triple (G (.opened n false)) (workOn ctl rt n) (Continues G) (Fault G) := by
  refine Triple.bind (hG.advance.pre fun s hs => ⟨hs, .expand n⟩) fun _ => ?_
  refine Triple.bind ((hG.expand n).pre fun s hs => hs.1) fun batch => ?_
  refine Triple.ite (fun hnil => ?_) fun hne => ?_
  · rintro s ⟨seen, hs⟩
    exact hG.backtrack n seen s (hnil ▸ hs)
  · rintro s ⟨seen, hs⟩
    exact hG.assess n seen batch hne s hs

/-- The first stop check. -/
theorem cancelRequested :
    Triple (G .boundary) (cancelRequested rt)
      (fun b s => G (if b = true then .halting .cancelled (lit "run cancelled by its caller")
        else .boundary) s) (Fault G) := by
  unfold Search.cancelRequested
  cases h : rt.cancelled with
  | none => exact Triple.pure _ fun s hs => hs
  | some isSet => exact fun s hs => hG.step hs (.pollCancel h) rfl

/-- The second. -/
theorem deadlinePassed (deadline : Option K)
    (hbudget : deadline ≠ none → ctl.config.maxWallSeconds ≠ none) :
    Triple (G .boundary) (deadlinePassed rt deadline)
      (fun b s => G (if b = true then .halting .timedOut (lit "wall-clock budget of " ++
        (ctl.config.maxWallSeconds.map PyFloat.general).getD [] ++ lit "s exhausted")
        else .boundary) s) (Fault G) := by
  cases deadline with
  | none => exact Triple.pure _ fun s hs => hs
  | some limit => exact fun s hs => hG.step hs (.pollDeadline limit (hbudget (by simp))) rfl

/-- The third. -/
theorem stopReason :
    Triple (G .boundary) (stopReason ctl)
      (fun r s => match r with
        | none => G .boundary s
        | some reason => G (.halting .budgetExhausted reason) s) (Fault G) := by
  unfold Search.stopReason
  cases h : ctl.stopCondition with
  | none => exact Triple.pure _ fun s hs => hs
  | some check =>
    refine Triple.get_bind fun s hs => ?_
    refine Triple.bind (Q := fun _ s' =>
      s' = (s.inWorld (check s.world).2).noted (.check (check s.world).1))
      (Triple.set _ fun _ _ => rfl) fun _ => ?_
    cases ha : (check s.world).1 with
    | error e =>
      rintro _ rfl
      exact Or.inl (ha ▸ hG.step hs (.stopRaised h ha) rfl)
    | ok answer =>
      have hsilent := fun hn => hG.step hs (.continue h ha hn) rfl
      rw [ha] at hsilent
      rintro _ rfl
      cases answer with
      | none => exact hsilent (Or.inl rfl)
      | some reason =>
        by_cases hr : reason = []
        · subst hr
          exact hsilent (Or.inr rfl)
        · have hfilter : (some reason).filter (fun text => text ≠ []) = some reason := by
            simp [hr]
          change match (some reason).filter (fun text => text ≠ []) with
            | none => _
            | some reason => _
          rw [hfilter]
          exact ha ▸ hG.step hs (.stop h ha hr) rfl

/-- All stop checks: the run goes on, or halts for the first limit that holds. -/
theorem checkLimits (deadline : Option K)
    (hbudget : deadline ≠ none → ctl.config.maxWallSeconds ≠ none) :
    Triple (G .boundary) (checkLimits ctl rt deadline)
      (fun r s => G (r.elim .boundary fun limit => .halting limit.1 limit.2) s) (Fault G) := by
  refine Triple.bind (Q := fun _ => G .boundary)
    (Triple.modify _ fun s hs => hG.step hs .mark rfl) fun _ => ?_
  refine Triple.bind hG.cancelRequested fun cancelled => ?_
  cases cancelled with
  | true => exact Triple.pure _ fun _ hs => hs
  | false =>
    refine Triple.bind (hG.deadlinePassed deadline hbudget) fun passed => ?_
    cases passed with
    | true => exact Triple.pure _ fun _ hs => hs
    | false =>
      refine Triple.bind hG.stopReason fun reason => ?_
      cases reason <;> exact Triple.pure _ fun _ hs => hs

end Follows

/-- Only the start of an iteration moves the counter, and only within the budget. -/
theorem Step.iteration {ctl : TreeSearchController K W} {rt : Runtime K W}
    {c c' : Stage K × RunState K W} (hs : Step ctl rt c c') :
    c'.2.iteration = c.2.iteration ∨
      (c'.2.iteration = c.2.iteration + 1 ∧ c.2.iteration < ctl.config.maxIterations) := by
  cases hs with
  | @advance s st st' target node detail edge h quiet =>
    exact Or.inl (RunState.mirrored_fields ctl rt (s.transitioned rt target node detail h)
      target node detail).2.2.2.1
  | @advanceRaised s st st' target node detail e edge h raised =>
    exact Or.inl (RunState.mirrored_fields ctl rt (s.transitioned rt target node detail h)
      target node detail).2.2.2.1
  | begin budget => exact Or.inr ⟨rfl, budget⟩
  | _ => exact Or.inl rfl

section Run

variable {ctl : TreeSearchController K W} {rt : Runtime K W} {task : Str} {draws : Nat}

namespace Reach

/-- Reachable states of one iteration form a family the methods follow. -/
theorem follows (ctl : TreeSearchController K W) (rt : Runtime K W) (task : Str) (draws k : Nat) :
    Follows ctl rt fun st s => Reach ctl rt task draws (st, s) ∧ s.iteration = k where
  inv h := h.1.inv
  step h hs hk := ⟨h.1.step hs, hk.trans h.2⟩

/-- The iteration counter never passes the budget. -/
theorem iteration_le {c : Stage K × RunState K W} (h : Reach ctl rt task draws c) :
    c.2.iteration ≤ ctl.config.maxIterations := by
  refine h.invariant (P := fun c => c.2.iteration ≤ ctl.config.maxIterations)
    (fun world => Nat.zero_le _) fun c c' hc hs => ?_
  rcases hs.iteration with he | ⟨he, hlt⟩ <;> omega

end Reach

/-- Where the guarded part of a run may raise. -/
abbrev RunFault (ctl : TreeSearchController K W) (rt : Runtime K W) (task : Str) (draws : Nat) :
    Signal → RunState K W → Prop :=
  Fault fun st s => Reach ctl rt task draws (st, s)

/-- A fault of an iteration is a fault of the run. -/
theorem runFault_of_fault {k : Nat} {e : Signal} {s : RunState K W}
    (h : Fault (fun st s => Reach ctl rt task draws (st, s) ∧ s.iteration = k) e s) :
    RunFault ctl rt task draws e s := by
  cases e with
  | diverged => exact h
  | raised e => exact h.imp (fun h => h.1) fun h => ⟨h.1.1, h.2⟩

/-- An iteration stays in a family that its first step enters. -/
theorem Follows.iterate {G : Stage K → RunState K W → Prop} (hG : Follows ctl rt G) :
    Triple (fun s => G .selecting { s with
        iteration := s.iteration + 1
        log := .selection s.tree.arena :: s.log })
      (iterate ctl rt) (Continues G) (Fault G) := by
  refine Triple.bind (Q := fun _ s => G .selecting { s with
    log := .selection s.tree.arena :: s.log }) (Triple.modify _ fun s hs => hs) fun _ =>
      Triple.bind (Q := Selected G) ?_ fun r => ?_
  · -- `_select`, from the state that the step into it describes
    refine Triple.get_bind fun s₀ hs₀ => ?_
    refine Triple.bind (Q := fun _ s => G .selecting s ∧
      s.tree.arena.liveCount < s₀.tree.arena.size + 1)
      (Triple.modify _ ?_) fun _ => hG.selectFrom _
    rintro _ rfl
    exact ⟨hs₀, Nat.lt_succ_of_le (Arena.liveCount_le _)⟩
  · cases r with
    | none =>
      refine Triple.bind ((hG.advance (p := .selecting)).pre fun s hs =>
        ⟨hs.1, .frontierEmpty hs.2⟩) fun _ => Triple.pure _ fun s hs => ⟨hs.1, ?_⟩
      rw [hs.2]
      decide
    | some opened =>
      obtain ⟨n, revived⟩ := opened
      exact Triple.bind (hG.reopen n revived) fun _ => hG.workOn n

/-- One iteration moves the counter by one, whether it returns or raises. -/
theorem iterate_counts (k : Nat) :
    Triple (fun s => Reach ctl rt task draws (.boundary, s) ∧ s.iteration = k ∧
        k < ctl.config.maxIterations)
      (iterate ctl rt)
      (Continues fun st s => Reach ctl rt task draws (st, s) ∧ s.iteration = k + 1)
      (Fault fun st s => Reach ctl rt task draws (st, s) ∧ s.iteration = k + 1) := by
  refine (Reach.follows ctl rt task draws (k + 1)).iterate.pre ?_
  rintro s ⟨hs, rfl, hk⟩
  exact ⟨hs.step (.begin hk), rfl⟩

/-- One iteration spends one unit of the budget. -/
theorem iterate_spec (k : Nat) :
    Triple (fun s => Reach ctl rt task draws (.boundary, s) ∧ s.iteration = k ∧
        k < ctl.config.maxIterations)
      (iterate ctl rt)
      (Continues fun st s => Reach ctl rt task draws (st, s) ∧ s.iteration = k + 1)
      (RunFault ctl rt task draws) :=
  (iterate_counts k).conseq (fun _ hs => hs) (fun _ _ h => h) fun _ _ h => runFault_of_fault h

/-- A lap halts for a limit or spends one unit of the budget. -/
theorem lap_spec (deadline : Option K)
    (hseconds : deadline ≠ none → ctl.config.maxWallSeconds ≠ none) (k : Nat) :
    Triple (fun s => Reach ctl rt task draws (.boundary, s) ∧ s.iteration = k ∧
        k < ctl.config.maxIterations)
      (lap ctl rt deadline)
      (fun again s => (again = true → Reach ctl rt task draws (.boundary, s) ∧ s.iteration = k + 1) ∧
        (again = false → Reach ctl rt task draws (.ended, s) ∧ s.machine.phase ≠ .failed))
      (RunFault ctl rt task draws) := by
  have hG := Reach.follows ctl rt task draws k
  have hfault : ∀ e s, Fault (fun st s => Reach ctl rt task draws (st, s) ∧ s.iteration = k) e s →
      RunFault ctl rt task draws e s := fun _ _ h => runFault_of_fault h
  by_cases hbudget : k < ctl.config.maxIterations
  case neg =>
    rintro s ⟨-, -, hk⟩
    exact absurd hk hbudget
  refine Triple.bind ((hG.checkLimits deadline hseconds).conseq (fun _ hs => ⟨hs.1, hs.2.1⟩)
    (fun _ _ hs => hs) hfault) fun limit => ?_
  cases limit with
  | none =>
    refine ((iterate_spec k).pre fun s hs => ⟨hs.1, hs.2, hbudget⟩).post ?_
    rintro (_ | _) s hs
    · exact ⟨by simp, fun _ => ⟨hs.1.1, hs.2⟩⟩
    · exact ⟨fun _ => hs, by simp⟩
  | some limit =>
    obtain ⟨target, note⟩ := limit
    refine Triple.bind (Q := fun _ s => Reach ctl rt task draws (.ended, s) ∧
      s.machine.phase ≠ .failed) ?_ fun _ => Triple.pure _ fun s hs => ⟨by simp, fun _ => hs⟩
    intro s hs
    have hm := (hG.inv hs).phase.2
    refine (hG.advance.conseq (fun s hs => ⟨hs, .halt target note⟩) (fun _ t ht => ?_) hfault) s hs
    refine ⟨ht.1.1, ?_⟩
    rw [ht.2]
    rintro rfl
    simp at hm

/-- Laps that all ask for another lead to the head of the loop. -/
theorem laps_spec (deadline : Option K)
    (hseconds : deadline ≠ none → ctl.config.maxWallSeconds ≠ none) (n k : Nat) :
    Triple (fun s => Reach ctl rt task draws (.boundary, s) ∧ s.iteration = k ∧
        k + n ≤ ctl.config.maxIterations)
      (laps ctl rt deadline n)
      (fun go s => go = true → Reach ctl rt task draws (.boundary, s) ∧ s.iteration = k + n)
      (RunFault ctl rt task draws) := by
  induction n generalizing k with
  | zero => exact Triple.pure _ fun s hs _ => ⟨hs.1, hs.2.1⟩
  | succ n ih =>
    by_cases hbudget : k + (n + 1) ≤ ctl.config.maxIterations
    case neg =>
      rintro s ⟨-, -, hk⟩
      exact absurd hk hbudget
    refine Triple.bind ((lap_spec deadline hseconds k).pre fun s hs => ⟨hs.1, hs.2.1, by omega⟩)
      fun again => ?_
    cases again with
    | false => exact Triple.pure _ fun s _ h => by cases h
    | true =>
      refine ((ih (k + 1)).pre fun s hs => ?_).post fun go s hs hgo => ?_
      · exact ⟨(hs.1 rfl).1, (hs.1 rfl).2, by omega⟩
      · exact ⟨(hs hgo).1, by rw [(hs hgo).2]; omega⟩

/-- The main loop ends with the run over, or at the head of the loop without budget. -/
theorem searchLoop_spec (deadline : Option K)
    (hseconds : deadline ≠ none → ctl.config.maxWallSeconds ≠ none) (remaining k : Nat) :
    Triple (fun s => Reach ctl rt task draws (.boundary, s) ∧ s.iteration = k ∧
        k + remaining = ctl.config.maxIterations)
      (searchLoop ctl rt deadline remaining)
      (fun _ s => (Reach ctl rt task draws (.ended, s) ∧ s.machine.phase ≠ .failed) ∨
        (Reach ctl rt task draws (.boundary, s) ∧ s.iteration = ctl.config.maxIterations))
      (RunFault ctl rt task draws) := by
  induction remaining generalizing k with
  | zero =>
    refine Triple.modify _ ?_
    rintro s ⟨hs, rfl, hk⟩
    exact Or.inr ⟨hs.step .mark, hk⟩
  | succ remaining ih =>
    by_cases hbudget : k + (remaining + 1) = ctl.config.maxIterations
    case neg =>
      rintro s ⟨-, -, hk⟩
      exact absurd hk hbudget
    rw [searchLoop_succ]
    refine Triple.bind ((lap_spec deadline hseconds k).pre fun s hs => ⟨hs.1, hs.2.1, by omega⟩)
      fun again => ?_
    cases again with
    | true => exact (ih (k + 1)).pre fun s hs => ⟨(hs.1 rfl).1, (hs.1 rfl).2, by omega⟩
    | false => exact Triple.pure _ fun s hs => Or.inl (hs.2 rfl)

/-- What escapes from a run comes from its event sink, at the end of the run or before its first
iteration. -/
def Escaped (ctl : TreeSearchController K W) (rt : Runtime K W) (task : Str) (draws : Nat)
    (e : Signal) (s : RunState K W) : Prop :=
  (∃ x, e = .raised x) ∧
    (∃ st, Reach ctl rt task draws (st, s) ∧ (st = .ended ∨ s.iteration = 0)) ∧
    ∃ x, Obs.sinkRaised x ∈ s.log

/-- The state at the exit of `run`, with the error text the handler has set. -/
def Exited (ctl : TreeSearchController K W) (rt : Runtime K W) (task : Str) (draws : Nat)
    (error : Str) (s : RunState K W) : Prop :=
  Reach ctl rt task draws (.ended, s) ∧ (error ≠ [] ↔ s.machine.phase = .failed)

/-- Reachable states are a family the methods follow. -/
theorem Reach.follows_all (ctl : TreeSearchController K W) (rt : Runtime K W) (task : Str)
    (draws : Nat) : Follows ctl rt fun st s => Reach ctl rt task draws (st, s) where
  inv h := h.inv
  step h hs _ := h.step hs

/-- A transition into a terminal phase ends the run, also when the sink raises. -/
theorem advance_over {p : Stage K} {target : SearchPhase} {node : Option Nat} {detail : Str} :
    Triple (fun s => Reach ctl rt task draws (p, s) ∧ Edge ctl s p target node detail .ended)
      (advance ctl rt target node detail)
      (fun _ s => Reach ctl rt task draws (.ended, s) ∧ s.machine.phase = target)
      (Escaped ctl rt task draws) := by
  refine (Reach.follows_all ctl rt task draws).advance_or_sink.conseq (fun _ h => h)
    (fun _ _ h => h) ?_
  rintro _ s ⟨e, rfl, hs, hsink⟩
  exact ⟨⟨e, rfl⟩, ⟨_, hs, Or.inl rfl⟩, e, List.mem_of_head? hsink⟩

/-- The guarded loop is left by a limit, a fault or the end of its budget. -/
theorem guardedLoop_spec (deadline : Option K)
    (hseconds : deadline ≠ none → ctl.config.maxWallSeconds ≠ none) :
    Triple (fun s => Reach ctl rt task draws (.boundary, s) ∧ s.iteration = 0)
      (guardedLoop ctl rt deadline)
      (fun error s => Exited ctl rt task draws error s ∨ (error = [] ∧
        Reach ctl rt task draws (.boundary, s) ∧ s.iteration = ctl.config.maxIterations))
      (Escaped ctl rt task draws) := by
  refine Triple.tryCatch (E := RunFault ctl rt task draws) ?_ fun e => ?_
  · refine Triple.bind ((searchLoop_spec deadline hseconds ctl.config.maxIterations 0).pre fun s hs =>
      ⟨hs.1, hs.2, by omega⟩) fun _ => Triple.pure _ fun s hs => ?_
    exact hs.imp (fun h => ⟨h.1, by simp [h.2]⟩) fun h => ⟨rfl, h⟩
  · cases e with
    | diverged => exact fun s hs => hs.elim
    | raised e =>
      have hfail : Triple (fun s => Reach ctl rt task draws (.faulted e, s))
          (onFault ctl rt (.raised e))
          (fun error s => Exited ctl rt task draws error s ∨ (error = [] ∧
            Reach ctl rt task draws (.boundary, s) ∧ s.iteration = ctl.config.maxIterations))
          (Escaped ctl rt task draws) := by
        refine Triple.bind (advance_over.pre fun s hs => ⟨hs, .failed e⟩) fun _ =>
          Triple.pure _ fun s hs => Or.inl ⟨hs.1, ?_⟩
        simp [hs.2, e.describe_ne_nil]
      rintro s (hs | ⟨hs, hsink⟩)
      · exact hfail s hs
      · -- the run was over when the sink raised: the machine refuses the failure
        have hterm : s.machine.phase.isTerminal = true := hs.inv.phase
        have hrefused : s.machine.canTransition .failed = false := by
          rw [SearchStateMachine.canTransition, (SearchPhase.transitions_eq_nil _).mpr hterm]
          rfl
        have hrun : onFault ctl rt (.raised e) s =
            .error (.raised (invalidTransition s.machine.phase .failed))
              (s.noted (.refused s.machine.phase .failed)) := by
          change EStateM.bind (advance ctl rt .failed none e.describe) _ s = _
          unfold EStateM.bind
          rw [advance_refused ctl rt none e.describe hrefused]
        rw [hrun]
        obtain ⟨x, hx⟩ := hsink
        exact ⟨⟨_, rfl⟩, ⟨.ended, hs.step (.refuse _ _ hx), Or.inl rfl⟩, x,
          List.mem_cons_of_mem _ (List.mem_of_head? hx)⟩

/-- The exit closes a spent budget. -/
theorem closeBudget_spec (error : Str) :
    Triple (fun s => Exited ctl rt task draws error s ∨ (error = [] ∧
        Reach ctl rt task draws (.boundary, s) ∧ s.iteration = ctl.config.maxIterations))
      (closeBudget ctl rt)
      (fun _ s => Exited ctl rt task draws error s) (Escaped ctl rt task draws) := by
  refine Triple.get_bind fun s hs => ?_
  refine Triple.ite (fun hterm => ?_) fun hopen => ?_
  · refine Triple.pure _ ?_
    rintro s' rfl
    rcases hs with hs | ⟨-, hs, -⟩
    · exact hs
    · have hphase : s'.machine.phase = .selection := hs.inv.phase
      rw [SearchStateMachine.isTerminal, hphase] at hterm
      cases hterm
  · rcases hs with hs | ⟨rfl, hs, hk⟩
    · exact absurd hs.1.inv.phase hopen
    · refine (advance_over (p := .boundary)).conseq ?_ (fun _ t ht => ⟨ht.1, ?_⟩)
        fun _ _ h => h
      · rintro _ rfl
        exact ⟨hs, .spent hk.ge⟩
      · rw [ht.2]
        decide

/-- What `run` returns: the report of a reachable final state. -/
structure Reported (ctl : TreeSearchController K W) (rt : Runtime K W) (task : Str) (draws : Nat)
    (r : SearchResult K) (s : RunState K W) : Prop where
  reach : Reach ctl rt task draws (.ended, s)
  outcome : outcomeByPhase s.machine.phase = some r.outcome
  bestPath : r.bestPath = s.tree.arena.bestPath
  iterations : r.iterations = s.iteration
  nodeCount : r.nodeCount = s.tree.len
  phaseHistory : r.phaseHistory = s.machine.history
  tree : r.tree = s.tree
  metadata : r.metadata = s.metadata
  error : r.error ≠ [] ↔ s.machine.phase = .failed

/-- Every terminal phase names an outcome. -/
theorem outcomeByPhase_of_terminal {p : SearchPhase} (h : p.isTerminal = true) :
    ∃ outcome, outcomeByPhase p = some outcome := by
  cases p <;> first | exact ⟨_, rfl⟩ | cases h

/-- The end of a run reports how the loop was left. -/
theorem finish_spec (error : Str) :
    Triple (fun s => Exited ctl rt task draws error s ∨ (error = [] ∧
        Reach ctl rt task draws (.boundary, s) ∧ s.iteration = ctl.config.maxIterations))
      (finish ctl rt error) (Reported ctl rt task draws) (Escaped ctl rt task draws) := by
  refine Triple.bind (closeBudget_spec error) fun _ => Triple.get_bind ?_
  rintro s ⟨hs, herror⟩
  obtain ⟨outcome, ho⟩ := outcomeByPhase_of_terminal hs.inv.phase
  rw [ho]
  refine Triple.pure _ ?_
  rintro _ rfl
  exact ⟨hs, ho, rfl, rfl, rfl, rfl, rfl, rfl, herror⟩

/-- A run opens at the head of its main loop. -/
theorem openRun_spec : Triple (fun s => ∃ w, s = startState rt task draws w) (openRun ctl rt)
    (fun deadline s => (deadline ≠ none → ctl.config.maxWallSeconds ≠ none) ∧
      Reach ctl rt task draws (.boundary, s) ∧ s.iteration = 0) (Escaped ctl rt task draws) := by
  have hstart : Triple (fun s => ∃ w, s = startState rt task draws w) (startDeadline ctl rt)
      (fun deadline s => (deadline ≠ none → ctl.config.maxWallSeconds ≠ none) ∧
        ∃ w, s = startState rt task draws w) (Escaped ctl rt task draws) := by
    unfold startDeadline
    cases ctl.config.maxWallSeconds with
    | none => exact Triple.pure _ fun s hs => ⟨fun h => h, hs⟩
    | some seconds =>
      refine Triple.get_bind ?_
      rintro s ⟨w, rfl⟩
      exact Triple.bind (Triple.set (Q := fun _ s => ∃ w, s = startState rt task draws w) _
        fun _ _ => ⟨(rt.monotonic w).2, rfl⟩) fun _ =>
          Triple.pure _ fun _ h => ⟨fun _ => by simp, h⟩
  have hfirst : Triple (fun s => ∃ w, s = startState rt task draws w)
      (advance ctl rt .selection none (lit "search started"))
      (fun _ s => Reach ctl rt task draws (.boundary, s) ∧ s.iteration = 0)
      (Escaped ctl rt task draws) := by
    refine ((Reach.follows ctl rt task draws 0).advance_or_sink (p := .starting)).conseq ?_
      (fun _ _ h => h.1) ?_
    · rintro _ ⟨w, rfl⟩
      exact ⟨⟨.start w, rfl⟩, .start⟩
    · rintro _ s ⟨e, rfl, hs, hsink⟩
      exact ⟨⟨e, rfl⟩, ⟨_, hs.1, Or.inr hs.2⟩, e, List.mem_of_head? hsink⟩
  exact Triple.bind hstart fun deadline => Triple.assume fun hseconds =>
    Triple.bind hfirst fun _ => Triple.pure _ fun _ hs => ⟨hseconds, hs⟩

/-- Every run returns the report of a reachable final state or raises because its
event sink did; none runs out of fuel. -/
theorem run_spec (ctl : TreeSearchController K W) (rt : Runtime K W) (task : Str) (draws : Nat)
    (world : W) : match ctl.run rt task draws world with
    | .ok r s => Reported ctl rt task draws r s
    | .error e s => Escaped ctl rt task draws e s := by
  have hrun : Triple (fun s => ∃ w, s = startState rt task draws w)
      (openRun ctl rt >>= fun deadline => guardedLoop ctl rt deadline >>= finish ctl rt)
      (Reported ctl rt task draws) (Escaped ctl rt task draws) :=
    Triple.bind openRun_spec fun deadline => Triple.assume fun hseconds =>
      Triple.bind (guardedLoop_spec deadline hseconds) fun error => finish_spec error
  have h := hrun _ ⟨world, rfl⟩
  have hparts : search ctl rt = openRun ctl rt >>= fun deadline =>
      guardedLoop ctl rt deadline >>= finish ctl rt := by
    unfold search openRun
    simp only [bind_assoc, pure_bind]
  rw [TreeSearchController.run, hparts]
  cases hr : (openRun ctl rt >>= fun deadline => guardedLoop ctl rt deadline >>= finish ctl rt)
      (startState rt task draws world) with
  | ok r s =>
    rw [hr] at h
    exact h
  | error e s =>
    rw [hr] at h
    exact h

end Run

end CognitiveTree.Search
