import CognitiveTree.Search.PathPolicy
import CognitiveTree.Search.Lifecycle

/-!
# A raising event sink

The sink is called after each transition, inside the block whose handler makes the
transition into `FAILED`. From a phase that is not terminal this is a legal edge. At the
notification of a terminal phase a raising sink costs the run its result: the handler asks
for an edge that the table forbids, or the exception is raised outside of the block.
-/

namespace CognitiveTree.Search

variable {K W α : Type} [PyFloat K]

/-- The sink raised when it was notified of this terminal phase. -/
def RaisedAtEnd (log : List (Obs K)) (phase : SearchPhase) : Prop :=
  phase.isTerminal = true ∧ ∃ newer older e record iteration node tree,
    log = newer ++ .sinkRaised e :: .transition record iteration node tree :: older ∧
    record.target = phase

/-- The action is an exception of the sink, or a refused transition. -/
def Obs.disturbs : Obs K → Bool
  | .sinkRaised _ => true
  | .refused _ _ => true
  | _ => false

/-- The last action neither is an exception of the sink nor a refused transition. -/
def Calm (log : List (Obs K)) : Prop := ∀ o, log.head? = some o → o.disturbs = false

/-- No terminal phase met a raising sink, and no transition was refused. -/
structure Unspoiled (log : List (Obs K)) : Prop where
  raised : ∀ phase, ¬ RaisedAtEnd log phase
  refused : ∀ source target, .refused source target ∉ log

/-- An earlier observation keeps the exception at the end. -/
theorem RaisedAtEnd.cons {log : List (Obs K)} {phase : SearchPhase} (h : RaisedAtEnd log phase)
    (o : Obs K) : RaisedAtEnd (o :: log) phase := by
  obtain ⟨hterm, newer, older, e, record, iteration, node, tree, rfl, htarget⟩ := h
  exact ⟨hterm, o :: newer, older, e, record, iteration, node, tree, rfl, htarget⟩

/-- The newest entry brings the exception, or it has been there before. -/
theorem RaisedAtEnd.cases {log : List (Obs K)} {phase : SearchPhase} {o : Obs K}
    (h : RaisedAtEnd (o :: log) phase) : RaisedAtEnd log phase ∨ phase.isTerminal = true ∧
      (∃ e, o = .sinkRaised e) ∧ ∃ record iteration node tree,
        log.head? = some (.transition record iteration node tree) ∧ record.target = phase := by
  obtain ⟨hterm, newer, older, e, record, iteration, node, tree, hlog, htarget⟩ := h
  rcases newer with _ | ⟨x, newer⟩
  · rw [List.nil_append, List.cons.injEq] at hlog
    obtain ⟨rfl, rfl⟩ := hlog
    exact Or.inr ⟨hterm, ⟨e, rfl⟩, record, iteration, node, tree, rfl, htarget⟩
  · rw [List.cons_append, List.cons.injEq] at hlog
    exact Or.inl ⟨hterm, newer, older, e, record, iteration, node, tree, hlog.2, htarget⟩

/-- An observation that disturbs nothing spoils nothing. -/
theorem Unspoiled.cons {log : List (Obs K)} (h : Unspoiled log) {o : Obs K}
    (ho : o.disturbs = false) : Unspoiled (o :: log) := by
  constructor
  · intro phase hraised
    rcases hraised.cases with hold | ⟨-, ⟨e, rfl⟩, -⟩
    · exact h.raised phase hold
    · cases ho
  · intro source target hmem
    rcases List.mem_cons.mp hmem with rfl | hmem
    · cases ho
    · exact h.refused source target hmem

variable {ctl : TreeSearchController K W} {rt : Runtime K W} {task : Str} {draws : Nat}

variable (ctl) in
/-- What a log tells about the sink, at every control point. -/
structure SinkTrace (c : Stage K × RunState K W) : Prop where
  live : c.1 ≠ .ended → Unspoiled c.2.log
  calm : Calm c.2.log → Unspoiled c.2.log
  source : (∃ source target, .refused source target ∈ c.2.log) → ∃ phase, RaisedAtEnd c.2.log phase
  ended : c.1 = .ended → ∀ e, c.2.log.head? = some (.sinkRaised e) →
    ∃ phase, RaisedAtEnd c.2.log phase
  cause : ∀ phase, RaisedAtEnd c.2.log phase → ∃ sink event tree world e,
    ctl.onEvent = some sink ∧ event.phase = phase ∧ (sink event tree world).1 = .error e

/-- A log without such faults tells nothing more. -/
theorem Unspoiled.sinkTrace {c : Stage K × RunState K W} (h : Unspoiled c.2.log)
    (hended : c.1 = .ended → Calm c.2.log) : SinkTrace ctl c where
  live _ := h
  calm _ := h
  source := fun ⟨source, target, hmem⟩ => absurd hmem (h.refused source target)
  ended hst e he := by
    have hcalm := hended hst _ he
    cases hcalm
  cause phase hraised := absurd hraised (h.raised phase)

/-- A step keeps the trace of the sink. -/
theorem Step.sinkTrace {c c' : Stage K × RunState K W} (hs : Step ctl rt c c')
    (hi : Inv ctl rt c) (hc : SinkTrace ctl c) : SinkTrace ctl c' := by
  -- away from the end every action extends a log without faults
  have hkeep : ∀ {st st' : Stage K} {s s' : RunState K W}, SinkTrace ctl (st, s) → st ≠ .ended →
      st' ≠ .ended → (s'.log = s.log ∨ ∃ o, s'.log = o :: s.log ∧ o.disturbs = false) →
      SinkTrace ctl (st', s') := by
    intro st st' s s' hc hst hst' hlog
    refine Unspoiled.sinkTrace ?_ fun hended => absurd hended hst'
    rcases hlog with hlog | ⟨o, hlog, ho⟩
    · exact hlog ▸ hc.live hst
    · exact hlog ▸ (hc.live hst).cons ho
  cases hs with
  | @advance s st st' target node detail edge h quiet =>
    have hlog := RunState.mirrored_log ctl rt (s.transitioned rt target node detail h) target node
      detail
    rw [quiet] at hlog
    have hst : st ≠ .ended := by
      rintro rfl
      cases edge
    refine Unspoiled.sinkTrace ?_ fun _ => ?_
    · rw [hlog]
      exact (hc.live hst).cons rfl
    · rw [hlog]
      rintro o ho
      cases ho
      rfl
  | @advanceRaised s st st' target node detail e edge h raised =>
    have hlog := RunState.mirrored_log ctl rt (s.transitioned rt target node detail h) target node
      detail
    rw [raised] at hlog
    have hst : st ≠ .ended := by
      rintro rfl
      cases edge
    have hbefore : Unspoiled (s.transitioned rt target node detail h).log := (hc.live hst).cons rfl
    have hagrees := (edge.legal hi.phase).2
    have hraised : ∀ phase, RaisedAtEnd (.sinkRaised e ::
        (s.transitioned rt target node detail h).log) phase → phase = target := by
      intro phase hphase
      rcases hphase.cases with hold | ⟨-, -, record, iteration, n, tree, hhead, htarget⟩
      · exact absurd hold (hbefore.raised phase)
      · cases hhead
        exact htarget.symm
    obtain ⟨sink, event, tree, world, hsink, hx, hphase⟩ :=
      RunState.mirrored_raised ctl rt _ _ _ _ raised
    constructor
    · intro hlive
      rw [hlog]
      constructor
      · intro phase hend
        have hterm := hend.1
        rw [hraised phase hend] at hterm
        have hst' : st' ≠ .ended := by
          rintro rfl
          exact hlive rfl
        rw [Stage.agrees_nonterminal hagrees hst'] at hterm
        cases hterm
      · intro source target' hmem
        rcases List.mem_cons.mp hmem with hmem | hmem
        · cases hmem
        · exact hbefore.refused source target' hmem
    · intro hcalm
      have hhead := hcalm (.sinkRaised e) (by rw [hlog]; rfl)
      cases hhead
    · rintro ⟨source, target', hmem⟩
      rw [hlog] at hmem
      rcases List.mem_cons.mp hmem with hmem | hmem
      · cases hmem
      · exact absurd hmem (hbefore.refused source target')
    · intro hended x hx'
      have hst' : st' = .ended := by
        cases st' <;> first | rfl | cases hended
      subst hst'
      rw [hlog]
      exact ⟨target, hagrees, [], _, e, _, _, _, _, rfl, rfl⟩
    · intro phase hend
      rw [hlog] at hend
      exact ⟨sink, event, tree, world, e, hsink, hphase.trans (hraised phase hend).symm, hx⟩
  | @refuse s e source target sink =>
    obtain ⟨phase, hphase⟩ := hc.ended rfl e sink
    constructor
    · exact fun hlive => absurd rfl hlive
    · intro hcalm
      have hhead := hcalm (.refused source target) rfl
      cases hhead
    · exact fun _ => ⟨phase, hphase.cons _⟩
    · intro _ x hx
      cases hx
    · intro phase' hend
      rcases hend.cases with hold | ⟨-, ⟨x, hx⟩, -⟩
      · exact hc.cause phase' hold
      · cases hx
  | pollCancel | pollDeadline | revise =>
    refine hkeep hc (by simp) ?_ (by first | exact Or.inl rfl | exact Or.inr ⟨_, rfl, rfl⟩)
    split <;> simp
  | _ =>
    exact hkeep hc (by simp) (by simp) (by first | exact Or.inl rfl | exact Or.inr ⟨_, rfl, rfl⟩)

/-- The trace of the sink is right in every reachable state. -/
theorem Reach.sinkTrace {c : Stage K × RunState K W} (h : Reach ctl rt task draws c) :
    SinkTrace ctl c := by
  refine h.strengthen (P := SinkTrace ctl) (fun world => ?_) fun c c' hr hc hs => hs.sinkTrace hr.inv hc
  have hempty : Unspoiled ([] : List (Obs K)) := by
    refine ⟨fun phase hraised => ?_, fun _ _ => List.not_mem_nil⟩
    obtain ⟨-, newer, older, e, record, iteration, node, tree, hlog, -⟩ := hraised
    simp at hlog
  exact hempty.sinkTrace fun hended => by cases hended

section Returned

/-- Nothing is asked of a program. -/
theorem triple_true {P : RunState K W → Prop} (x : Run K W α) :
    Triple P x (fun _ _ => True) fun _ _ => True := by
  intro s _
  cases x s <;> trivial

variable (ctl rt)

/-- A call of `_advance` that returned leaves a calm log. -/
theorem advance_calm (target : SearchPhase) (node : Option Nat) (detail : Str) :
    Triple (fun _ => True) (advance ctl rt target node detail) (fun _ s => Calm s.log)
      fun _ _ => True := by
  intro s _
  cases hcan : s.machine.canTransition target with
  | false =>
    rw [advance_refused ctl rt node detail hcan]
    trivial
  | true =>
    have hlog := RunState.mirrored_log ctl rt (s.transitioned rt target node detail hcan) target node
      detail
    rw [advance_run ctl rt node detail hcan]
    cases hreact : ((s.transitioned rt target node detail hcan).mirrored ctl rt target node
      detail).2 with
    | some e => trivial
    | none =>
      rw [hreact] at hlog
      change Calm ((s.transitioned rt target node detail hcan).mirrored ctl rt target node detail).1.log
      rw [hlog]
      rintro o ho
      cases ho
      rfl

/-- A program that halts the loop halts it calmly. -/
abbrev HaltsCalmly (x : Run K W Bool) : Prop :=
  Triple (fun _ => True) x (fun again s => again = false → Calm s.log) fun _ _ => True

variable {ctl rt} in
/-- What halts calmly does so behind any first step. -/
theorem HaltsCalmly.after {x : Run K W α} {f : α → Run K W Bool} (h : ∀ a, HaltsCalmly (f a)) :
    HaltsCalmly (x >>= f) :=
  Triple.bind (triple_true x) h

variable {ctl rt} in
/-- A transition that was shown without an exception halts calmly. -/
theorem HaltsCalmly.advance (target : SearchPhase) (node : Option Nat) (detail : Str) (again : Bool) :
    HaltsCalmly (advance ctl rt target node detail >>= fun _ => pure again) :=
  Triple.bind (advance_calm ctl rt target node detail) fun _ => Triple.pure _ fun _ h _ => h

/-- Judging a batch halts the loop calmly. -/
theorem haltsCalmly_assess (n : Nat) (batch : List Nat) : HaltsCalmly (assess ctl rt n batch) := by
  refine .after fun _ => .after fun r => .after fun _ => .after fun _ => ?_
  unfold conclude
  cases r.1 with
  | none => exact .advance _ _ _ _
  | some c => exact .after fun s => .advance _ _ _ _

/-- An iteration halts the loop calmly. -/
theorem haltsCalmly_iterate : HaltsCalmly (iterate ctl rt) := by
  refine .after fun _ => .after fun chosen => ?_
  cases chosen with
  | none => exact .advance _ _ _ _
  | some chosen =>
    refine .after fun _ => .after fun _ => .after fun batch => Triple.ite (fun _ => ?_) fun _ => ?_
    · exact HaltsCalmly.after fun _ => .after fun _ => .advance _ _ _ _
    · exact haltsCalmly_assess ctl rt chosen.1 batch

/-- A lap halts the loop calmly. -/
theorem haltsCalmly_lap (deadline : Option K) : HaltsCalmly (lap ctl rt deadline) := by
  refine .after fun limit => ?_
  cases limit with
  | none => exact haltsCalmly_iterate ctl rt
  | some limit => exact .advance _ _ _ _

/-- A main loop that returned leaves a calm log. -/
theorem searchLoop_calm (deadline : Option K) (remaining : Nat) :
    Triple (fun _ => True) (searchLoop ctl rt deadline remaining) (fun _ s => Calm s.log)
      fun _ _ => True := by
  induction remaining with
  | zero =>
    refine Triple.modify _ fun s _ => ?_
    rintro o ho
    cases ho
    rfl
  | succ remaining ih =>
    rw [searchLoop_succ]
    refine Triple.bind (haltsCalmly_lap ctl rt deadline) fun again => ?_
    cases again with
    | true => exact ih.pre fun _ _ => trivial
    | false => exact Triple.pure _ fun _ h => h rfl

variable {ctl rt} in
/-- A run that returned leaves a calm log. -/
theorem calm_of_run {world : W} {r : SearchResult K} {s : RunState K W}
    (h : ctl.run rt task draws world = .ok r s) : Calm s.log := by
  have hguarded : ∀ deadline, Triple (fun _ => True) (guardedLoop ctl rt deadline)
      (fun _ s => Calm s.log) fun _ _ => True := by
    intro deadline
    refine Triple.tryCatch (E := fun _ _ => True) (Triple.bind (searchLoop_calm ctl rt deadline _)
      fun _ => Triple.pure _ fun _ hs => hs) fun e => ?_
    cases e with
    | raised e => exact Triple.bind (advance_calm ctl rt _ _ _) fun _ => Triple.pure _ fun _ hs => hs
    | diverged => exact fun _ _ => trivial
  have hclose : Triple (fun s : RunState K W => Calm s.log) (closeBudget ctl rt)
      (fun _ s => Calm s.log) fun _ _ => True := by
    refine Triple.get_bind fun s hs => Triple.ite (fun _ => ?_) fun _ => ?_
    · refine Triple.pure _ ?_
      rintro _ rfl
      exact hs
    · exact (advance_calm ctl rt _ _ _).pre fun _ _ => trivial
  have hassemble : ∀ error, Triple (fun s : RunState K W => Calm s.log) (assemble error)
      (fun _ s => Calm s.log) fun _ _ => True := by
    refine fun error => Triple.get_bind fun s hs => ?_
    cases outcomeByPhase s.machine.phase with
    | none => exact fun _ _ => trivial
    | some outcome =>
      refine Triple.pure _ ?_
      rintro _ rfl
      exact hs
  have hrun : Triple (fun _ => True) (openRun ctl rt >>= driveRun ctl rt >>= assemble)
      (fun _ s => Calm s.log) fun _ _ => True :=
    Triple.bind (Triple.bind (triple_true (openRun ctl rt)) fun deadline =>
      Triple.bind (hguarded deadline) fun error => Triple.bind hclose
        fun _ => Triple.pure error fun _ hs => hs) hassemble
  have hend := hrun (startState rt task draws world) trivial
  rw [run_eq_parts] at h
  rw [h] at hend
  exact hend

end Returned

section TerminalPhases

variable (ctl rt task draws) (world : W)

/-- No transition was refused, and every terminal phase the run has entered is its result. -/
structure KeepsTerminalPhase : Prop where
  legal : ∀ source target, Obs.refused source target ∉ (finalState (ctl.run rt task draws world)).log
  kept : ∀ phase, RaisedAtEnd (finalState (ctl.run rt task draws world)).log phase →
    ∃ r s, ctl.run rt task draws world = .ok r s ∧ outcomeByPhase phase = some r.outcome

/-- The sink raises at no notification of a terminal phase. -/
def TreeSearchController.QuietAtEnd (ctl : TreeSearchController K W) : Prop :=
  ∀ sink, ctl.onEvent = some sink → ∀ event tree world e, event.phase.isTerminal = true →
    (sink event tree world).1 ≠ .error e

/-- A run survives its event sink if and only if the sink did not raise at the notification of
a terminal phase; a sink that never does so is survived by every run. -/
theorem run_keeps_terminal_phase_iff :
    (KeepsTerminalPhase ctl rt task draws world ↔
      ∀ phase, ¬ RaisedAtEnd (finalState (ctl.run rt task draws world)).log phase) ∧
    (ctl.QuietAtEnd → KeepsTerminalPhase ctl rt task draws world) := by
  obtain ⟨st, hreach⟩ := run_reach ctl rt task draws world
  have htrace := hreach.sinkTrace
  have hiff : KeepsTerminalPhase ctl rt task draws world ↔
      ∀ phase, ¬ RaisedAtEnd (finalState (ctl.run rt task draws world)).log phase := by
    constructor
    · rintro ⟨-, hkept⟩ phase hraised
      obtain ⟨r, s, hrun, -⟩ := hkept phase hraised
      rw [hrun] at hraised htrace
      exact (htrace.calm (calm_of_run hrun)).raised phase hraised
    · intro hnone
      refine ⟨fun source target hmem => ?_, fun phase hraised => absurd hraised (hnone phase)⟩
      obtain ⟨phase, hraised⟩ := htrace.source ⟨source, target, hmem⟩
      exact hnone phase hraised
  refine ⟨hiff, fun quiet => hiff.mpr fun phase hraised => ?_⟩
  obtain ⟨sink, event, tree, w, e, hsink, hphase, hx⟩ := htrace.cause phase hraised
  exact quiet sink hsink event tree w e (hphase ▸ hraised.1) hx

/-- The action is a refused transition. -/
def Obs.isRefusal {K : Type} [PyFloat K] : Obs K → Bool
  | .refused _ _ => true
  | _ => false

/-- A finished candidate without a fault. -/
def flawless : Evaluation ℚ := ⟨1, true, [], inUnit_one⟩

/-- Accepts its first candidate; the sink raises when told of the success. -/
def raisingAtSuccess : TreeSearchController ℚ Unit where
  __ := pathController smallConfig (fun _ => [lit "answer"]) fun _ => flawless
  onEvent := some fun event _ world =>
    (if event.phase = .succeeded then .error ⟨lit "RuntimeError", lit "sink failed"⟩ else .ok (), world)

/-- Its policies never raise, but the handler asks for a transition out of `SUCCEEDED`, and the
result is lost. -/
theorem run_loses_terminal_phase :
    raisingAtSuccess.PathGenerator (fun _ => [lit "answer"]) ∧
    raisingAtSuccess.PathEvaluator (fun _ => flawless) ∧
    ¬ KeepsTerminalPhase raisingAtSuccess (Runtime.still fun _ _ => 0) (lit "task") 0 () := by
  refine ⟨fun _ _ _ _ => rfl, fun _ _ _ _ => rfl, fun h => ?_⟩
  have hrefused : (finalState (raisingAtSuccess.run (Runtime.still fun _ _ => 0) (lit "task") 0
      ())).log.any Obs.isRefusal = true := by decide +kernel
  obtain ⟨o, hmem, ho⟩ := List.any_eq_true.mp hrefused
  cases o <;> cases ho
  exact h.legal _ _ hmem

end TerminalPhases

end CognitiveTree.Search
