import CognitiveTree.Search.Grants

/-!
# Flow between the phases

Every entry into a phase is accounted for by the phase that comes next, or by the fault that ended
the run there. The iteration counter runs ahead of the entries into `EXPANSION` by one while
selection is under way, and for good when selection was the end of the run.
-/

namespace CognitiveTree.Search

variable {K W : Type} [PyFloat K] {ctl : TreeSearchController K W} {rt : Runtime K W}

/-- How many transitions in a log have a property. -/
def countIn (p : PhaseTransition K → Bool) (log : List (Obs K)) : Nat := (transitionsIn log).countP p

namespace PhaseTransition

/-- The transition enters this phase. -/
def enters (p : SearchPhase) (t : PhaseTransition K) : Bool := t.target = p

/-- The transition reports a fault in this phase. -/
def faultsIn (p : SearchPhase) (t : PhaseTransition K) : Bool := t.source = p && t.target = .failed

/-- The transition ends a run whose frontier is empty. -/
def isFrontierEmpty (t : PhaseTransition K) : Bool :=
  t.target = .exhausted && t.note = lit "frontier empty"

end PhaseTransition

omit [PyFloat K] in
/-- At most one transition of a history has a property that only terminal targets have. -/
theorem Chained.countP_terminal {hs : List (PhaseTransition K)} {p : SearchPhase} (h : Chained hs p)
    {q : PhaseTransition K → Bool} (hq : ∀ t, q t = true → t.target.isTerminal = true) :
    hs.countP q = if hs.any q then 1 else 0 := by
  have hinit : hs.dropLast.countP q = 0 := List.countP_eq_zero.mpr fun t ht hqt =>
    absurd (hq t hqt) (by rw [h.not_terminal_of_mem_dropLast t ht]; decide)
  rcases List.eq_nil_or_concat hs with rfl | ⟨init, t, rfl⟩
  · rfl
  · rw [List.concat_eq_append] at hinit ⊢
    rw [List.dropLast_concat] at hinit
    have hany : init.any q = false := by
      rw [List.any_eq_false]
      exact fun u hu hqu => absurd hqu (List.countP_eq_zero.mp hinit u hu)
    rw [List.countP_append, hinit, List.any_append, hany]
    cases hlast : q t <;> simp [hlast]

/-- The entry is a revision request that raised. -/
def Obs.isReviseFault : Obs K → Bool
  | .revise _ (.error _) => true
  | _ => false

/-- How often selection was the end of the run: it found nothing, or a request raised. -/
def strays (log : List (Obs K)) : Nat :=
  log.countP Obs.isReviseFault + countIn PhaseTransition.isFrontierEmpty log

/-- A transition is counted when it has the property. -/
theorem countIn_transitioned (p : PhaseTransition K → Bool) {s : RunState K W} {target : SearchPhase}
    {node : Option Nat} {detail : Str} (h : s.machine.canTransition target = true) :
    countIn p ((s.transitioned rt target node detail h).mirrored ctl rt target node detail).1.log =
      countIn p s.log + if p ⟨s.machine.phase, target, detail, (rt.monotonic s.world).1⟩ then 1 else 0 := by
  rw [countIn, transitionsIn_transitioned h, List.countP_cons]
  rfl

/-- The phases of a transition of the controller, and whether it announces a revision. -/
inductive PhaseStep : SearchPhase → SearchPhase → Nat → Prop
  | start : PhaseStep .idle .selection 0
  | halt (target : SearchPhase) (h : target ∈ [.cancelled, .timedOut, .budgetExhausted]) :
      PhaseStep .selection target 0
  | exhausted : PhaseStep .selection .exhausted 0
  | reopen : PhaseStep .selection .backtracking 1
  | resume : PhaseStep .backtracking .selection 0
  | expand : PhaseStep .selection .expansion 0
  | deadEnd : PhaseStep .expansion .backtracking 0
  | candidates : PhaseStep .expansion .evaluation 0
  | valued : PhaseStep .evaluation .backpropagation 0
  | iterated : PhaseStep .backpropagation .selection 0
  | accepted : PhaseStep .backpropagation .succeeded 0
  | failed (source : SearchPhase) : PhaseStep source .failed 0

/-- Each edge is one of the steps between the phases. -/
theorem Edge.phaseStep {s : RunState K W} {st st' : Stage K} {target node detail}
    (edge : Edge ctl s st target node detail st') (hi : Inv ctl rt (st, s))
    (record : PhaseTransition K) (htarget : record.target = target) (hnote : record.note = detail) :
    PhaseStep s.machine.phase target (if record.isRevision = true then 1 else 0) := by
  have hrevision := edge.isRevision hi record htarget hnote
  generalize (if record.isRevision = true then 1 else 0) = revision at hrevision ⊢
  have hagrees := hi.phase
  generalize s.machine.phase = source at hagrees
  cases edge
  case halt =>
    obtain ⟨rfl, hhalt⟩ := hagrees
    cases hrevision
    exact .halt _ hhalt
  case failed =>
    cases hrevision
    exact .failed source
  all_goals
    cases hagrees
    cases hrevision
    first
      | exact .start | exact .exhausted | exact .reopen | exact .resume | exact .expand
      | exact .deadEnd | exact .candidates | exact .valued | exact .iterated | exact .accepted

/-- Entries into `EXPANSION` and `EVALUATION` against what they lead to. -/
structure Flow (c : Stage K × RunState K W) : Prop where
  expansion : countIn (PhaseTransition.enters .expansion) c.2.log +
      countIn PhaseTransition.isRevision c.2.log =
    countIn (PhaseTransition.enters .evaluation) c.2.log +
      countIn (PhaseTransition.enters .backtracking) c.2.log +
      (if c.2.machine.phase = .expansion then 1 else 0) +
      countIn (PhaseTransition.faultsIn .expansion) c.2.log
  evaluation : countIn (PhaseTransition.enters .evaluation) c.2.log =
    countIn (PhaseTransition.enters .backpropagation) c.2.log +
      (if c.2.machine.phase = .evaluation then 1 else 0) +
      countIn (PhaseTransition.faultsIn .evaluation) c.2.log

/-- An edge keeps the flow of the phases. -/
theorem Edge.flow {s s' : RunState K W} {st st' st'' : Stage K} {target node detail}
    (edge : Edge ctl s st target node detail st') (h : s.machine.canTransition target = true)
    (hi : Inv ctl rt (st, s)) (hc : Flow (st, s))
    (hs' : s' = ((s.transitioned rt target node detail h).mirrored ctl rt target node detail).1) :
    Flow (st'', s') := by
  have hphase : s'.machine.phase = target := by
    rw [hs', (RunState.mirrored_fields ctl rt _ target node detail).2.1]
    rfl
  have hstep := edge.phaseStep hi ⟨s.machine.phase, target, detail, (rt.monotonic s.world).1⟩ rfl rfl
  obtain ⟨hexpansion, hevaluation⟩ := hc
  constructor <;> dsimp only at * <;> rw [hphase, hs'] <;> simp only [countIn_transitioned _ h]
  all_goals
    generalize (if PhaseTransition.isRevision _ = true then 1 else 0) = revision at hstep ⊢
    simp only [PhaseTransition.enters, PhaseTransition.faultsIn]
    generalize s.machine.phase = source at hstep hexpansion hevaluation ⊢
    cases hstep
    case halt hhalt =>
      simp only [List.mem_cons, List.not_mem_nil, or_false] at hhalt
      rcases hhalt with rfl | rfl | rfl <;> simp at hexpansion hevaluation ⊢ <;> omega
    case failed =>
      by_cases hx : source = .expansion <;> by_cases hv : source = .evaluation <;>
        simp [hx, hv] at hexpansion hevaluation ⊢ <;> omega
    all_goals
      simp at hexpansion hevaluation ⊢
      omega

/-- The phases flow in every reachable state. -/
theorem Reach.flow {task : Str} {draws : Nat} {c : Stage K × RunState K W}
    (h : Reach ctl rt task draws c) : Flow c := by
  refine h.strengthen (P := Flow) (fun world => ⟨rfl, rfl⟩) fun c c' hr hc hs => ?_
  cases hs with
  | advance edge legal => exact edge.flow legal hr.inv hc rfl
  | advanceRaised edge legal => exact edge.flow legal hr.inv hc rfl
  | _ => exact ⟨hc.expansion, hc.evaluation⟩

namespace Stage

/-- How far the iteration counter is ahead of the entries into `EXPANSION`. -/
def lead : Stage K → Nat
  | .selecting | .refused _ | .opened _ _ | .reviving _ => 1
  | _ => 0

/-- The run is about to end, or has. -/
def isOver : Stage K → Bool
  | .faulted _ | .ended => true
  | _ => false

/-- The control point is inside selection. -/
def selects : Stage K → Bool
  | .selecting => true
  | _ => false

/-- The expansion of the iteration is still to be done. -/
def pending : Stage K → Bool
  | .selecting | .refused _ | .opened _ _ | .reviving _ | .expanding _ => true
  | _ => false

end Stage

/-- The iteration counter against the entries into `EXPANSION`. -/
structure Paced (c : Stage K × RunState K W) : Prop where
  lag : ∃ lag, c.2.iteration = countIn (PhaseTransition.enters .expansion) c.2.log + lag ∧
    (c.1.isOver = false → lag = c.1.lead ∧ strays c.2.log = 0) ∧
    (c.1.isOver = true → lag = 0 ∧ strays c.2.log = 0 ∨ lag = 1 ∧ (strays c.2.log = 1 ∨
      strays c.2.log = 0 ∧ 0 < countIn PhaseTransition.isRevision c.2.log ∧
        ∃ e, .sinkRaised e ∈ c.2.log))
  reviving : ∀ n, c.1 = .reviving n → 0 < countIn PhaseTransition.isRevision c.2.log

/-- Exactly the transition out of selection says that the frontier is empty. -/
theorem Edge.isFrontierEmpty {s : RunState K W} {st st' : Stage K} {target node detail}
    (edge : Edge ctl s st target node detail st') (hi : Inv ctl rt (st, s))
    (record : PhaseTransition K) (htarget : record.target = target) (hnote : record.note = detail) :
    record.isFrontierEmpty = st.selects := by
  unfold PhaseTransition.isFrontierEmpty
  rw [htarget, hnote]
  cases edge
  case halt =>
    have hm := hi.phase.2
    simp only [List.mem_cons, List.not_mem_nil, or_false] at hm
    rcases hm with rfl | rfl | rfl <;> rfl
  case frontierEmpty => rfl
  case spent =>
    have hne : lit "iteration budget spent" ≠ lit "frontier empty" := by decide
    simp [hne, Stage.selects]
  all_goals rfl

/-- A transition strays when it found the frontier empty. -/
theorem strays_transitioned {s : RunState K W} {target : SearchPhase} {node : Option Nat}
    {detail : Str} (h : s.machine.canTransition target = true) :
    strays ((s.transitioned rt target node detail h).mirrored ctl rt target node detail).1.log =
      strays s.log + if PhaseTransition.isFrontierEmpty
        ⟨s.machine.phase, target, detail, (rt.monotonic s.world).1⟩ then 1 else 0 := by
  have hfault : ((s.transitioned rt target node detail h).mirrored ctl rt target node
      detail).1.log.countP Obs.isReviseFault = s.log.countP Obs.isReviseFault := by
    have hentry : (s.transitioned rt target node detail h).log.countP Obs.isReviseFault =
        s.log.countP Obs.isReviseFault := rfl
    rw [RunState.mirrored_log, ← hentry]
    cases ((s.transitioned rt target node detail h).mirrored ctl rt target node detail).2 <;> rfl
  rw [strays, hfault, countIn_transitioned _ h, strays, Nat.add_assoc]

/-- An edge keeps the pace of the iterations. -/
theorem Edge.paced {s s' : RunState K W} {st st' st'' : Stage K} {target node detail}
    (edge : Edge ctl s st target node detail st') (h : s.machine.canTransition target = true)
    (hi : Inv ctl rt (st, s)) (hc : Paced (st, s))
    (hs' : s' = ((s.transitioned rt target node detail h).mirrored ctl rt target node detail).1)
    (hst'' : st'' = st' ∨ ∃ e, st'' = st'.afterFault e ∧ .sinkRaised e ∈ s'.log) :
    Paced (st'', s') := by
  have hmirrored := RunState.mirrored_fields ctl rt (s.transitioned rt target node detail h) target
    node detail
  have hiteration : s'.iteration = s.iteration := by
    rw [hs', hmirrored.2.2.2.1]
    rfl
  have hexpansion : countIn (PhaseTransition.enters .expansion) s'.log =
      countIn (PhaseTransition.enters .expansion) s.log + if target = .expansion then 1 else 0 := by
    rw [hs', countIn_transitioned _ h]
    simp [PhaseTransition.enters]
  have hrevision : countIn PhaseTransition.isRevision s'.log + st'.unannounced =
      countIn PhaseTransition.isRevision s.log + st.unannounced := by
    rw [hs', countIn_transitioned _ h, ← edge.isRevision hi
      ⟨s.machine.phase, target, detail, (rt.monotonic s.world).1⟩ rfl rfl]
    omega
  have hstrays : strays s'.log = strays s.log + if st.selects then 1 else 0 := by
    rw [hs', strays_transitioned h, edge.isFrontierEmpty hi _ rfl rfl]
  have hsinks : ∀ e, .sinkRaised e ∈ s.log → .sinkRaised e ∈ s'.log := by
    intro e he
    rw [hs', RunState.mirrored_log]
    exact List.mem_append_right _ (List.mem_cons_of_mem _ he)
  obtain ⟨⟨lag, hlag, hinside, hover⟩, hreviving⟩ := hc
  dsimp only at hlag hinside hover hreviving
  cases edge
  case failed e =>
    have hend : st'' = .ended := by
      rcases hst'' with rfl | ⟨e', rfl, -⟩ <;> rfl
    subst hend
    refine ⟨⟨lag, ?_, (fun hc => by cases hc), fun _ => ?_⟩, fun n hn => by cases hn⟩
    · rw [hiteration, hexpansion, hlag]
      rfl
    · simp only [Stage.unannounced, Nat.add_zero] at hrevision
      dsimp only
      rw [hstrays, hrevision]
      exact (hover rfl).imp id fun hboth => ⟨hboth.1, hboth.2.imp id fun hmore =>
        ⟨hmore.1, hmore.2.1, hmore.2.2.imp hsinks⟩⟩
  all_goals
    obtain ⟨rfl, hnone⟩ := hinside rfl
    simp only [Stage.unannounced, Nat.add_zero, Stage.selects, hnone, Stage.lead, if_true, if_false,
      Bool.false_eq_true, reduceCtorEq] at hrevision hstrays hexpansion hlag
  case reopen n =>
    rcases hst'' with rfl | ⟨e, rfl, he⟩
    · exact ⟨⟨1, by dsimp only; omega, fun _ => ⟨rfl, hstrays⟩, fun hc => by cases hc⟩,
        fun m hm => by dsimp only; omega⟩
    · exact ⟨⟨1, by dsimp only; omega, (fun hc => by cases hc), fun _ => Or.inr ⟨rfl, Or.inr ⟨hstrays,
        by dsimp only; omega, e, he⟩⟩⟩, fun m hm => by cases hm⟩
  case prepared n =>
    have hpositive := hreviving n rfl
    rcases hst'' with rfl | ⟨e, rfl, he⟩
    · exact ⟨⟨1, by dsimp only; omega, fun _ => ⟨rfl, hstrays⟩, fun hc => by cases hc⟩,
        fun m hm => by cases hm⟩
    · exact ⟨⟨1, by dsimp only; omega, (fun hc => by cases hc), fun _ => Or.inr ⟨rfl, Or.inr ⟨hstrays,
        by dsimp only; omega, e, he⟩⟩⟩, fun m hm => by cases hm⟩
  case frontierEmpty =>
    have hend : st'' = .ended := by
      rcases hst'' with rfl | ⟨e', rfl, -⟩ <;> rfl
    subst hend
    exact ⟨⟨1, by dsimp only; omega, (fun hc => by cases hc), fun _ => Or.inr ⟨rfl, Or.inl hstrays⟩⟩,
      fun m hm => by cases hm⟩
  case halt =>
    have hne : target ≠ .expansion := by
      rintro rfl
      exact absurd hi.phase.2 (by decide)
    rw [if_neg hne] at hexpansion
    have hend : st'' = .ended := by
      rcases hst'' with rfl | ⟨e', rfl, -⟩ <;> rfl
    subst hend
    exact ⟨⟨0, by dsimp only; omega, (fun hc => by cases hc), fun _ => Or.inl ⟨rfl, hstrays⟩⟩,
      fun m hm => by cases hm⟩
  all_goals
    rcases hst'' with rfl | ⟨e, rfl, he⟩
    · exact ⟨⟨0, by dsimp only; omega, fun _ => ⟨rfl, hstrays⟩, fun _ => Or.inl ⟨rfl, hstrays⟩⟩,
        fun m hm => by cases hm⟩
    · exact ⟨⟨0, by dsimp only; omega, (fun hc => by cases hc), fun _ => Or.inl ⟨rfl, hstrays⟩⟩,
        fun m hm => by cases hm⟩

/-- The iterations keep their pace in every reachable state. -/
theorem Reach.paced {task : Str} {draws : Nat} {c : Stage K × RunState K W}
    (h : Reach ctl rt task draws c) : Paced c := by
  refine h.strengthen (P := Paced) (fun world => ?_) fun c c' hr hc hs => ?_
  · exact ⟨⟨0, rfl, fun _ => ⟨rfl, rfl⟩, fun hc => by cases hc⟩, fun m hm => by cases hm⟩
  -- a step within the normal course that keeps the counts
  have hmove : ∀ {st st' : Stage K} {s s' : RunState K W}, c = (st, s) → c' = (st', s') →
      st.isOver = false → st'.isOver = false → st'.lead = st.lead → s'.iteration = s.iteration →
      transitionsIn s'.log = transitionsIn s.log → strays s'.log = strays s.log →
      (∀ n, st' ≠ .reviving n) → Paced c' := by
    intro st st' s s' hcs hcs' hover hover' hlead hiteration htransitions hstrays hreviving
    subst hcs hcs'
    obtain ⟨⟨lag, hlag, hinside, -⟩, -⟩ := hc
    obtain ⟨rfl, hnone⟩ := hinside hover
    refine ⟨⟨st.lead, ?_, fun _ => ⟨hlead.symm, hstrays.trans hnone⟩, fun hc => ?_⟩, fun n hn =>
      absurd hn (hreviving n)⟩
    · rw [countIn, htransitions]
      exact hiteration.trans hlag
    · exact absurd (hover'.symm.trans hc) (by simp)
  -- an exception outside of selection, and the end
  have hfault : ∀ {st : Stage K} {s s' : RunState K W} {e : Exc}, c = (st, s) →
      c' = (.faulted e, s') → st.isOver = false → st.lead = 0 → s'.iteration = s.iteration →
      transitionsIn s'.log = transitionsIn s.log → strays s'.log = strays s.log → Paced c' := by
    intro st s s' e hcs hcs' hover hlead hiteration htransitions hstrays
    subst hcs hcs'
    obtain ⟨⟨lag, hlag, hinside, -⟩, -⟩ := hc
    obtain ⟨rfl, hnone⟩ := hinside hover
    refine ⟨⟨0, ?_, (fun hc => by cases hc), fun _ => Or.inl ⟨rfl, hstrays.trans hnone⟩⟩,
      fun n hn => by cases hn⟩
    rw [countIn, htransitions, ← hlead]
    exact hiteration.trans hlag
  cases hs with
  | advance edge legal => exact edge.paced legal hr.inv hc rfl (Or.inl rfl)
  | @advanceRaised s st st' target node detail e edge legal raised =>
    refine edge.paced legal hr.inv hc rfl (Or.inr ⟨e, rfl, ?_⟩)
    rw [RunState.mirrored_log, raised]
    exact List.mem_cons_self ..
  | begin =>
    obtain ⟨⟨lag, hlag, hinside, -⟩, -⟩ := hc
    obtain ⟨rfl, hnone⟩ := hinside rfl
    exact ⟨⟨1, congrArg (· + 1) hlag, fun _ => ⟨rfl, hnone⟩, fun hc => by cases hc⟩,
      fun m hm => by cases hm⟩
  | pollCancel | pollDeadline =>
    refine hmove rfl rfl rfl ?_ ?_ rfl rfl rfl fun n => ?_ <;> split <;> first | rfl | exact nofun
  | @revise s n policy reply granted alloc live saturated hpolicy hreply answer =>
    have hstrays : strays (s.consulted reply (.revise n reply.answer)).log = strays s.log := by
      rw [answer]
      rfl
    cases granted with
    | true => exact hmove rfl rfl rfl rfl rfl rfl rfl hstrays fun n hn => by cases hn
    | false => exact hmove rfl rfl rfl rfl rfl rfl rfl hstrays fun n hn => by cases hn
  | @reviseRaised s n policy reply e alloc live saturated hpolicy hreply answer =>
    obtain ⟨⟨lag, hlag, hinside, -⟩, -⟩ := hc
    obtain ⟨rfl, hnone⟩ := hinside rfl
    have hstrays : strays (s.consulted reply (.revise n reply.answer)).log = strays s.log + 1 := by
      change List.countP _ (.revise n reply.answer :: s.log) + _ = _
      rw [answer, List.countP_cons_of_pos rfl, Nat.add_right_comm]
      rfl
    exact ⟨⟨1, hlag, (fun hc => by cases hc), fun _ => Or.inr ⟨rfl, Or.inl (hstrays.trans
      (congrArg (· + 1) hnone))⟩⟩, fun m hm => by cases hm⟩
  | refuse =>
    obtain ⟨⟨lag, hlag, -, hover⟩, -⟩ := hc
    refine ⟨⟨lag, hlag, (fun hc => by cases hc), fun _ => (hover rfl).imp id fun hboth =>
      ⟨hboth.1, hboth.2.imp id fun hmore => ⟨hmore.1, hmore.2.1, ?_⟩⟩⟩, fun m hm => by cases hm⟩
    exact hmore.2.2.imp fun e he => List.mem_cons_of_mem _ he
  | stopRaised | generateRaised | collectRaised | critiqueRaised | shapeRaised =>
    exact hfault rfl rfl rfl rfl rfl rfl rfl
  | _ => exact hmove rfl rfl rfl rfl rfl rfl rfl rfl fun n hn => by cases hn

/-- With a quiet sink only selection can let the iteration counter run ahead, and only once. -/
theorem Reach.iteration_eq {task : Str} {draws : Nat} {s : RunState K W}
    (h : Reach ctl rt task draws (.ended, s)) (quiet : ctl.QuietSink) :
    s.iteration = countIn (PhaseTransition.enters .expansion) s.log + strays s.log ∧
      strays s.log ≤ 1 := by
  obtain ⟨⟨lag, hlag, -, hover⟩, -⟩ := h.paced
  dsimp only at hlag hover
  rcases hover rfl with ⟨rfl, hnone⟩ | ⟨rfl, hone | ⟨-, -, e, he⟩⟩
  · omega
  · omega
  · exact absurd he (h.no_sinkRaised quiet e)

end CognitiveTree.Search
