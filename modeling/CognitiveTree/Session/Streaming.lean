import CognitiveTree.Session.Runs

/-!
# Streams of a session

A stream has two threads: a worker, which runs the search and puts envelopes on a queue, and the
consumer of the generator, which takes them off. They share the queue and the cancel event, and
their steps come in any order.
-/

namespace CognitiveTree.Session

open Search Observability Persistence Ui

variable {K P E : Type} [PyFloat K]

namespace ReasoningSession

variable (env : SessionRuntime K P E) (session : ReasoningSession K P E)

/-- The controller of a stream. -/
def controller : TreeSearchController K (P × E × Queue K) :=
  session.policies.controller session.config (surroundings env session none (some (sink env)))

/-- The runtime of its search; the cancel event is read by a step of its own. -/
def runtime : Runtime K (P × E × Queue K) :=
  (surroundings env session none (some (sink env))).runtime env.random env.schedule

end ReasoningSession

/-- Where the worker thread of a stream is. -/
inductive WorkerStage (K : Type) [PyFloat K] where
  | unstarted
  /-- inside `controller.run`; whether the event was found unset at this head of the main loop -/
  | searching (stage : Stage K) (polled : Bool)
  /-- `run` has returned -/
  | settling
  /-- the metrics envelope is on the queue -/
  | reporting
  /-- at the `finally` clause -/
  | ending
  | done

/-- Leaving the head of the main loop, the next one asks again. -/
def stillPolled (stage : Stage K) (polled : Bool) : Bool :=
  match stage with
  | .boundary => polled
  | _ => false

/-- A worker and the state of its search, whose world holds all that was put on the queue. -/
structure Worker (K P E : Type) [PyFloat K] where
  stage : WorkerStage K
  run : RunState K (P × E × Queue K)

namespace Worker

/-- Everything the worker has put on the queue, oldest first. -/
def produced (w : Worker K P E) : Queue K := w.run.world.2.2

/-- The worker after `envelopes.put(envelope)`. -/
def puts (run : RunState K (P × E × Queue K)) (stage : WorkerStage K) (e : E)
    (envelope : Option (PyVal K)) : Worker K P E :=
  ⟨stage, run.inWorld (run.world.1, e, run.world.2.2 ++ [envelope])⟩

/-- The search has been started and has reached no terminal phase. -/
def active (w : Worker K P E) : Bool :=
  match w.stage with
  | .unstarted => false
  | _ => !w.run.machine.isTerminal

end Worker

/-- What `run` returns from its last state; a failed run's error is the note of its last phase. -/
def finalResult (run : RunState K (P × E × Queue K)) : Option (SearchResult K) :=
  (outcomeByPhase run.machine.phase).map fun outcome => run.report outcome
    (if outcome = .failed then (run.machine.history.getLast?.map (·.note)).getD [] else [])

section Steps

variable [PyNumber K] (env : SessionRuntime K P E) (session : ReasoningSession K P E)
  (archivingRaises : Prop)

/-- What the worker does next while the cancel event reads like this. -/
inductive Worker.Step (cancelled : Bool) : Worker K P E → Worker K P E → Prop
  /-- the cancel event is read -/
  | poll {run : RunState K (P × E × Queue K)} (budget : run.iteration < session.config.maxIterations) :
      Step cancelled ⟨.searching .boundary false, run⟩ (if cancelled then
        ⟨.searching (.halting .cancelled (lit "run cancelled by its caller")) false, run⟩
        else ⟨.searching .boundary true, run⟩)
  /-- the search takes another step; but for a spent budget it leaves the head of the main loop only
  after the event was read there -/
  | search {stage stage' : Stage K} {polled : Bool} {run run' : RunState K (P × E × Queue K)}
      (step : Search.Step (session.controller env) (session.runtime env) (stage, run)
        (stage', run'))
      (ordered : stage = .boundary → polled = true ∨ stage' = .boundary ∨ stage' = .ended) :
      Step cancelled ⟨.searching stage polled, run⟩
        ⟨.searching stage' (stillPolled stage' polled), run'⟩
  | returned {polled : Bool} {run : RunState K (P × E × Queue K)} :
      Step cancelled ⟨.searching .ended polled, run⟩ ⟨.settling, run⟩
  /-- the run is summed up and archived -/
  | settle {run : RunState K (P × E × Queue K)} {result : SearchResult K}
      {usage : Option TokenUsage} {metrics : RunMetrics K} (now : K) (e : E)
      (hresult : finalResult run = some result)
      (hmetrics : RunMetrics.fromResult result usage = .ok metrics) :
      Step cancelled ⟨.settling, run⟩
        (.puts run .reporting e (some (ReasoningSession.metricsMessage metrics now)))
  | metricsRaised {run : RunState K (P × E × Queue K)} {result : SearchResult K}
      {usage : Option TokenUsage} {error : Exc} (hresult : finalResult run = some result)
      (hmetrics : RunMetrics.fromResult result usage = .error error) :
      Step cancelled ⟨.settling, run⟩ ⟨.ending, run⟩
  /-- something other than an `OSError` is raised where the archive is written -/
  | archiveRaised {run : RunState K (P × E × Queue K)} (e : E) (raises : archivingRaises) :
      Step cancelled ⟨.settling, run⟩ ⟨.ending, run.inWorld (run.world.1, e, run.world.2.2)⟩
  | report {run : RunState K (P × E × Queue K)} {result : SearchResult K} (now : K) (e : E)
      (hresult : finalResult run = some result) :
      Step cancelled ⟨.reporting, run⟩
        (.puts run .ending e (some (resultEnvelope env.freshId result now)))
  /-- `envelopes.put(None)` -/
  | mark {run : RunState K (P × E × Queue K)} :
      Step cancelled ⟨.ending, run⟩ (.puts run .done run.world.2.1 none)

/-- What the generator of a stream is doing. -/
inductive Consumer where
  | unstarted
  /-- in `envelopes.get()` -/
  | waiting
  /-- at its `yield` -/
  | suspended
  /-- past the end mark -/
  | finished
  | closed
  deriving DecidableEq

/-- A stream: the first `taken` entries of the queue have been taken off it. -/
structure Stream (K P E : Type) [PyFloat K] where
  consumer : Consumer
  worker : Worker K P E
  cancelled : Bool
  taken : Nat
  yielded : List (PyVal K)

/-- A stream before its first envelope is asked for. -/
def Stream.fresh (world : P × E) : Stream K P E where
  consumer := .unstarted
  worker := ⟨.unstarted, startState (session.runtime env) session.task 0 (world.1, world.2, [])⟩
  cancelled := false
  taken := 0
  yielded := []

/-- The actions of the two threads. -/
inductive StreamAction where
  | start
  | work
  | get
  | getEnd
  | next
  | close
  deriving DecidableEq

/-- The steps of a stream. -/
inductive Stream.Step : StreamAction → Stream K P E → Stream K P E → Prop
  /-- the first `next()` starts the worker; a deadline reads the clock -/
  | start {s : Stream K P E} (e : E) (h : s.consumer = .unstarted) :
      Step .start s { s with
        consumer := .waiting
        worker := ⟨.searching .starting false,
          startState (session.runtime env) session.task 0 (s.worker.run.world.1, e, [])⟩ }
  | work {s : Stream K P E} {w : Worker K P E}
      (step : s.worker.Step env session archivingRaises s.cancelled w) :
      Step .work s { s with worker := w }
  /-- `envelopes.get()` returns an envelope, which is yielded -/
  | get {s : Stream K P E} {envelope : PyVal K} (h : s.consumer = .waiting)
      (entry : s.worker.produced[s.taken]? = some (some envelope)) :
      Step .get s { s with
        consumer := .suspended
        taken := s.taken + 1
        yielded := s.yielded ++ [envelope] }
  /-- it returns the end mark -/
  | getEnd {s : Stream K P E} (h : s.consumer = .waiting)
      (entry : s.worker.produced[s.taken]? = some none) :
      Step .getEnd s { s with consumer := .finished, taken := s.taken + 1 }
  /-- `next()` resumes the generator -/
  | next {s : Stream K P E} (h : s.consumer = .suspended) :
      Step .next s { s with consumer := .waiting }
  /-- closing it at its `yield` sets the cancel event -/
  | close {s : Stream K P E} (h : s.consumer = .suspended) :
      Step .close s { s with consumer := .closed, cancelled := true }
  /-- closing it before its start does nothing -/
  | closeUnstarted {s : Stream K P E} (h : s.consumer = .unstarted) :
      Step .close s { s with consumer := .closed }

end Steps

section Announcements

variable (env : SessionRuntime K P E)

/-- The queue entries of a transition: its phase envelope, and a snapshot where the phase takes
one. -/
inductive Announces (record : PhaseTransition K) : Queue K → Prop
  | phase (event : SearchEvent) (now : K) (hphase : event.phase = record.target)
      (hdetail : event.detail = record.note) (plain : takesSnapshot record.target = false) :
      Announces record [some (phaseEnvelope event now)]
  | snapshot (event : SearchEvent) (now later : K) (arena : Arena K) (envelope : PyVal K)
      (hphase : event.phase = record.target) (hdetail : event.detail = record.note)
      (shot : takesSnapshot record.target = true)
      (taken : snapshotEnvelope env.freshId arena later = .ok envelope) :
      Announces record [some (phaseEnvelope event now), some envelope]

/-- The entries of the transitions of a history, one after the other. -/
def Announced (history : List (PhaseTransition K)) (queue : Queue K) : Prop :=
  ∃ parts, List.Forall₂ (Announces env) history parts ∧ queue = parts.flatten

variable {env}

/-- Nothing was announced of an empty history. -/
theorem Announced.nil : Announced env [] [] := ⟨[], .nil, rfl⟩

/-- A new entry of the history is announced behind the others. -/
theorem Announced.snoc {history : List (PhaseTransition K)} {queue entries : Queue K}
    {record : PhaseTransition K} (h : Announced env history queue)
    (hentries : Announces env record entries) :
    Announced env (history ++ [record]) (queue ++ entries) := by
  obtain ⟨parts, hparts, rfl⟩ := h
  exact ⟨parts ++ [entries], List.rel_append hparts (.cons hentries .nil), by simp⟩

/-- Announcing an entry is not the end mark. -/
theorem Announces.none_notMem {record : PhaseTransition K} {entries : Queue K}
    (h : Announces env record entries) : none ∉ entries := by
  cases h <;> simp

/-- No end mark is among the entries of a history. -/
theorem Announced.none_notMem {history : List (PhaseTransition K)} {queue : Queue K}
    (h : Announced env history queue) : none ∉ queue := by
  obtain ⟨parts, hparts, rfl⟩ := h
  intro hmem
  obtain ⟨entries, hentries, hmem⟩ := List.mem_flatten.mp hmem
  obtain ⟨i, hi, rfl⟩ := List.mem_iff_getElem.mp hentries
  exact (hparts.get (hparts.length_eq ▸ hi) hi).none_notMem hmem

variable {session : ReasoningSession K P E}

/-- The sink of a stream announces a transition. -/
theorem sink_announces (event : SearchEvent) (tree : ThoughtTree K) (p : P) (x : E × Queue K)
    {record : PhaseTransition K} (hphase : event.phase = record.target)
    (hdetail : event.detail = record.note) :
    ∃ entries, (sink env event tree p x).2 = x.2 ++ entries ∧ Announces env record entries := by
  unfold sink
  dsimp only
  cases hshot : takesSnapshot event.phase with
  | false => exact ⟨_, rfl, .phase event _ hphase hdetail (hphase ▸ hshot)⟩
  | true =>
    obtain ⟨envelope, htaken⟩ := snapshotEnvelope_ok env.freshId tree.arena
      (env.time (env.time x.1).2).1
    rw [htaken]
    exact ⟨_, List.append_assoc .., .snapshot event _ _ _ _ hphase hdetail (hphase ▸ hshot) htaken⟩

variable (env) in
/-- A part of a search adds the entries of its transition to the queue, if it makes one. -/
def Grows (s s' : RunState K (P × E × Queue K)) : Prop :=
  (s'.machine = s.machine ∧ s'.world.2.2 = s.world.2.2) ∨
    ∃ record entries, s'.machine.history = s.machine.history ++ [record] ∧
      Announces env record entries ∧ s'.world.2.2 = s.world.2.2 ++ entries

/-- A transition appends its entry and announces it. -/
theorem grows_advance {s : RunState K (P × E × Queue K)} (target : SearchPhase)
    (node : Option Nat) (detail : Str) (h : s.machine.canTransition target = true) :
    Grows env s ((s.transitioned (session.runtime env) target node detail h).mirrored
      (session.controller env) (session.runtime env) target node detail).1 := by
  obtain ⟨entries, hqueue, hentries⟩ := @sink_announces K P E _ env
    ⟨s.iteration, target, node.map env.freshId, detail⟩ s.tree s.world.1
    ((env.monotonic s.world.1 s.world.2.1).2, s.world.2.2)
    ⟨s.machine.phase, target, detail, (env.monotonic s.world.1 s.world.2.1).1⟩ rfl rfl
  exact .inr ⟨_, entries, rfl, hentries, hqueue⟩

/-- The sink of a stream never raises. -/
theorem sink_quiet (s : RunState K (P × E × Queue K)) (target : SearchPhase) (node : Option Nat)
    (detail : Str) :
    (s.mirrored (session.controller env) (session.runtime env) target node detail).2 = none := rfl

/-- A step of the search announces what it appends. -/
theorem grows_of_step {c c' : Stage K × RunState K (P × E × Queue K)}
    (hs : Search.Step (session.controller env) (session.runtime env) c c') : Grows env c.2 c'.2 := by
  have hsame : ∀ {s s' : RunState K (P × E × Queue K)}, s'.machine = s.machine →
      s'.world.2.2 = s.world.2.2 → Grows env s s' := fun hm hw => .inl ⟨hm, hw⟩
  cases hs with
  | advance edge legal => exact grows_advance _ _ _ legal
  | advanceRaised edge legal raised => cases (sink_quiet _ _ _ _).symm.trans raised
  | pollCancel event => cases event
  | stop condition | «continue» condition | stopRaised condition =>
    obtain ⟨f, hf, rfl⟩ := Option.map_eq_some_iff.mp condition
    obtain ⟨g, -, rfl⟩ := Option.map_eq_some_iff.mp hf
    exact hsame rfl rfl
  | revise _ _ _ hpolicy hreply | reviseRaised _ _ _ hpolicy hreply =>
    obtain ⟨f, -, rfl⟩ := Option.map_eq_some_iff.mp hpolicy
    subst hreply
    exact hsame rfl rfl
  | uncritiqued hcritic _ hreply | critiqued hcritic _ hreply | critiqueRaised hcritic hreply =>
    obtain ⟨f, -, rfl⟩ := Option.map_eq_some_iff.mp hcritic
    subst hreply
    exact hsame rfl rfl
  | shape hmodel hreply | shapeRaised hmodel hreply =>
    obtain ⟨f, -, rfl⟩ := Option.map_eq_some_iff.mp hmodel
    subst hreply
    exact hsame rfl rfl
  | generate hreply | generateRaised hreply | evaluate _ _ hreply =>
    subst hreply
    exact hsame rfl rfl
  | _ => exact hsame rfl rfl

/-- What was announced stays announced while the run grows. -/
theorem Announced.grows {s s' : RunState K (P × E × Queue K)}
    (h : Announced env s.machine.history s.world.2.2) (hgrows : Grows env s s') :
    Announced env s'.machine.history s'.world.2.2 := by
  rcases hgrows with ⟨hm, hw⟩ | ⟨record, entries, hm, hentries, hw⟩
  · rw [hm, hw]
    exact h
  · rw [hm, hw]
    exact h.snoc hentries

end Announcements

section Invariants

variable [PyNumber K] {env : SessionRuntime K P E} {session : ReasoningSession K P E}
  {archivingRaises : Prop}

variable (archivingRaises) in
/-- What the worker puts on the queue after the search and before the end mark. -/
inductive Closing (env : SessionRuntime K P E) (run : RunState K (P × E × Queue K)) :
    Queue K → Prop
  | complete {result : SearchResult K} {usage : Option TokenUsage} {metrics : RunMetrics K}
      (now later : K) (hresult : finalResult run = some result)
      (hmetrics : RunMetrics.fromResult result usage = .ok metrics) :
      Closing env run [some (ReasoningSession.metricsMessage metrics now),
        some (resultEnvelope env.freshId result later)]
  | archiveLost (raises : archivingRaises) : Closing env run []
  | metricsLost {result : SearchResult K} {usage : Option TokenUsage} {error : Exc}
      (hresult : finalResult run = some result)
      (hmetrics : RunMetrics.fromResult result usage = .error error) : Closing env run []

/-- The closing envelopes do not contain the end mark. -/
theorem Closing.none_notMem {run : RunState K (P × E × Queue K)} {tail : Queue K}
    (h : Closing archivingRaises env run tail) : none ∉ tail := by
  cases h <;> simp

/-- The result of a run does not depend on what came of its world. -/
theorem Closing.inWorld {run : RunState K (P × E × Queue K)} {tail : Queue K}
    (h : Closing archivingRaises env run tail) (world : P × E × Queue K) :
    Closing archivingRaises env (run.inWorld world) tail := by
  cases h with
  | complete now later hresult hmetrics => exact .complete now later hresult hmetrics
  | archiveLost raises => exact .archiveLost raises
  | metricsLost hresult hmetrics => exact .metricsLost hresult hmetrics

variable (env session archivingRaises) in
/-- What holds of a worker, stage by stage. -/
inductive Worker.Inv : Worker K P E → Prop
  | unstarted {run : RunState K (P × E × Queue K)} (queue : run.world.2.2 = []) :
      Inv ⟨.unstarted, run⟩
  | searching {stage : Stage K} {polled : Bool} {run : RunState K (P × E × Queue K)}
      (inv : Search.Inv (session.controller env) (session.runtime env) (stage, run))
      (queue : Announced env run.machine.history run.world.2.2) : Inv ⟨.searching stage polled, run⟩
  | settling {run : RunState K (P × E × Queue K)} (terminal : run.machine.isTerminal = true)
      (queue : Announced env run.machine.history run.world.2.2) : Inv ⟨.settling, run⟩
  | reporting {run : RunState K (P × E × Queue K)} {body : Queue K} {result : SearchResult K}
      {usage : Option TokenUsage} {metrics : RunMetrics K} {now : K}
      (terminal : run.machine.isTerminal = true)
      (announced : Announced env run.machine.history body)
      (hresult : finalResult run = some result)
      (hmetrics : RunMetrics.fromResult result usage = .ok metrics)
      (queue : run.world.2.2 = body ++ [some (ReasoningSession.metricsMessage metrics now)]) :
      Inv ⟨.reporting, run⟩
  | ending {run : RunState K (P × E × Queue K)} {body tail : Queue K}
      (terminal : run.machine.isTerminal = true)
      (announced : Announced env run.machine.history body)
      (closing : Closing archivingRaises env run tail) (queue : run.world.2.2 = body ++ tail) :
      Inv ⟨.ending, run⟩
  | done {run : RunState K (P × E × Queue K)} {body tail : Queue K}
      (terminal : run.machine.isTerminal = true)
      (announced : Announced env run.machine.history body)
      (closing : Closing archivingRaises env run tail)
      (queue : run.world.2.2 = body ++ tail ++ [none]) : Inv ⟨.done, run⟩

/-- A step of the worker keeps its invariant. -/
theorem Worker.Step.inv {cancelled : Bool} {w w' : Worker K P E}
    (hs : w.Step env session archivingRaises cancelled w') (h : w.Inv env session archivingRaises) :
    w'.Inv env session archivingRaises := by
  cases hs with
  | poll =>
    obtain - | ⟨inv, queue⟩ := h
    cases cancelled
    · exact .searching inv queue
    · exact .searching (inv.stay rfl ⟨inv.phase, by simp⟩ (Or.inl rfl) trivial) queue
  | search step =>
    obtain - | ⟨inv, queue⟩ := h
    exact .searching (step.inv inv) (queue.grows (grows_of_step step))
  | returned =>
    obtain - | ⟨inv, queue⟩ := h
    exact .settling inv.phase queue
  | settle now e hresult hmetrics =>
    obtain - | - | ⟨terminal, queue⟩ := h
    exact .reporting terminal queue hresult hmetrics rfl
  | metricsRaised hresult hmetrics =>
    obtain - | - | ⟨terminal, queue⟩ := h
    exact .ending terminal queue (.metricsLost hresult hmetrics) (List.append_nil _).symm
  | archiveRaised e raises =>
    obtain - | - | ⟨terminal, queue⟩ := h
    exact .ending terminal queue (.archiveLost raises) (List.append_nil _).symm
  | report now e hresult =>
    obtain - | - | - | @⟨_, _, _, _, _, earlier, terminal, announced, hresult', hmetrics, queue⟩ := h
    cases hresult.symm.trans hresult'
    refine .ending terminal announced (.complete earlier now hresult hmetrics) ?_
    simp [RunState.inWorld, queue]
  | mark =>
    obtain - | - | - | - | ⟨terminal, announced, closing, queue⟩ := h
    exact .done terminal announced (closing.inWorld _) (congrArg (· ++ [none]) queue)

omit [PyNumber K] in
/-- A search in a terminal phase stays there. -/
theorem machine_of_terminal {W : Type} {ctl : TreeSearchController K W} {rt : Runtime K W}
    {c c' : Stage K × RunState K W} (hs : Search.Step ctl rt c c') (hi : Search.Inv ctl rt c)
    (hterm : c.2.machine.isTerminal = true) : c'.2.machine = c.2.machine := by
  have hstage : c.1 = .ended := by
    by_contra hstage
    cases (Stage.agrees_nonterminal hi.phase hstage).symm.trans hterm
  cases hs with
  | advance edge | advanceRaised edge =>
    cases hstage
    cases edge
  | _ => rfl

/-- A run that is over stays over. -/
theorem Worker.Step.inactive {cancelled : Bool} {w w' : Worker K P E}
    (hs : w.Step env session archivingRaises cancelled w') (h : w.Inv env session archivingRaises)
    (hover : w.active = false) : w'.active = false := by
  cases hs with
  | poll => cases cancelled <;> exact hover
  | @search _ _ _ run run' step =>
    obtain - | ⟨inv, -⟩ := h
    have hterm : run.machine.isTerminal = true := by simpa [active] using hover
    have hmachine : run'.machine = run.machine := machine_of_terminal step inv hterm
    change (!run'.machine.isTerminal) = false
    rw [hmachine, hterm]
    rfl
  | _ => exact hover

/-- Only a worker that was started and is not done takes steps. -/
theorem Worker.Step.running {cancelled : Bool} {w w' : Worker K P E}
    (hs : w.Step env session archivingRaises cancelled w') :
    w.stage ≠ .unstarted ∧ w.stage ≠ .done := by
  cases hs <;> simp

/-- The queue only grows. -/
theorem Worker.Step.produced_prefix {cancelled : Bool} {w w' : Worker K P E}
    (hs : w.Step env session archivingRaises cancelled w') : w.produced <+: w'.produced := by
  cases hs with
  | poll => cases cancelled <;> exact List.prefix_rfl
  | search step =>
    rcases grows_of_step step with ⟨-, hw⟩ | ⟨_, entries, -, -, hw⟩
    · exact ⟨[], (List.append_nil _).trans hw.symm⟩
    · exact ⟨entries, hw.symm⟩
  | returned | metricsRaised | archiveRaised => exact List.prefix_rfl
  | settle | report | mark => exact List.prefix_append ..

/-- A worker that is done is not active. -/
theorem Worker.Inv.inactive_of_done {w : Worker K P E} (h : w.Inv env session archivingRaises)
    (hstage : w.stage = .done) : w.active = false := by
  cases h with
  | done terminal => simp [active, terminal]
  | _ => cases hstage

/-- Before its end the worker has put no end mark. -/
theorem Worker.Inv.none_notMem {w : Worker K P E} (h : w.Inv env session archivingRaises)
    (hstage : w.stage ≠ .done) : none ∉ w.produced := by
  cases h with
  | unstarted queue => simp [produced, queue]
  | searching _ queue | settling _ queue => exact queue.none_notMem
  | reporting _ announced _ _ queue => simp [produced, queue, announced.none_notMem]
  | ending _ announced closing queue =>
    simp [produced, queue, announced.none_notMem, closing.none_notMem]
  | done => exact absurd rfl hstage

/-- The end mark is the last entry of the queue. -/
theorem Worker.Inv.end_last {w : Worker K P E} (h : w.Inv env session archivingRaises) {n : Nat}
    (entry : w.produced[n]? = some none) :
    w.stage = .done ∧ w.produced = w.produced.take n ++ [none] := by
  have hstage : w.stage = .done := by
    by_contra hstage
    exact h.none_notMem hstage (List.mem_of_getElem? entry)
  refine ⟨hstage, ?_⟩
  cases h with
  | @done run body tail _ announced closing queue =>
    change run.world.2.2[n]? = some none at entry
    change run.world.2.2 = run.world.2.2.take n ++ [none]
    rw [queue] at entry ⊢
    have hbody : none ∉ body ++ tail := by
      simp [announced.none_notMem, closing.none_notMem]
    rcases Nat.lt_trichotomy n (body ++ tail).length with hlt | rfl | hgt
    · rw [List.getElem?_append_left hlt] at entry
      exact absurd (List.mem_of_getElem? entry) hbody
    · rw [List.take_left]
    · rw [List.getElem?_eq_none (by simp only [List.length_append, List.length_singleton] at *; omega)]
        at entry
      cases entry
  | _ => cases hstage

variable (env session archivingRaises) in
/-- What holds of a stream in every interleaving. -/
structure Stream.Inv (s : Stream K P E) : Prop where
  worker : s.worker.Inv env session archivingRaises
  unstarted : s.consumer = .unstarted → s.worker.stage = .unstarted ∧ s.taken = 0
  bound : s.taken ≤ s.worker.produced.length
  yielded : s.consumer ≠ .finished → s.yielded.map some = s.worker.produced.take s.taken
  finished : s.consumer = .finished → s.worker.stage = .done ∧
    s.worker.produced = s.yielded.map some ++ [none]
  cancelled : s.cancelled = true → s.consumer = .closed

/-- A fresh stream has not started its worker. -/
theorem Stream.Inv.fresh (world : P × E) :
    (Stream.fresh env session world).Inv env session archivingRaises where
  worker := .unstarted rfl
  unstarted _ := ⟨rfl, rfl⟩
  bound := Nat.le_refl 0
  yielded _ := rfl
  finished h := by cases h
  cancelled h := by cases h

/-- Every step keeps the invariant. -/
theorem Stream.Step.inv {action : StreamAction} {s s' : Stream K P E}
    (hs : Stream.Step env session archivingRaises action s s')
    (h : s.Inv env session archivingRaises) : s'.Inv env session archivingRaises := by
  cases hs with
  | start e hconsumer =>
    have hyielded := h.yielded (by simp [hconsumer])
    rw [(h.unstarted hconsumer).2, List.take_zero, List.map_eq_nil_iff] at hyielded
    refine ⟨.searching ?_ .nil, by simp, ?_, ?_, by simp, fun hc => ?_⟩
    · exact Reach.inv ⟨(s.worker.run.world.1, e, []), .refl⟩
    · simp [(h.unstarted hconsumer).2]
    · simp [(h.unstarted hconsumer).2, hyielded]
    · cases (h.cancelled hc).symm.trans hconsumer
  | work step =>
    obtain ⟨more, hmore⟩ := Worker.Step.produced_prefix step
    refine ⟨Worker.Step.inv step h.worker, fun hc => ?_, ?_, fun hc => ?_, fun hc => ?_, h.cancelled⟩
    · exact absurd (h.unstarted hc).1 step.running.1
    · simp only [← hmore, List.length_append]
      exact h.bound.trans (Nat.le_add_right _ _)
    · rw [← hmore, List.take_append_of_le_length h.bound]
      exact h.yielded hc
    · exact absurd (h.finished hc).1 step.running.2
  | get hconsumer entry =>
    obtain ⟨hlt, hentry⟩ := List.getElem?_eq_some_iff.mp entry
    refine ⟨h.worker, by simp, hlt, fun _ => ?_, by simp, fun hc => ?_⟩
    · simp only [List.map_append, List.map_cons, List.map_nil, h.yielded (by simp [hconsumer])]
      rw [List.take_succ_eq_append_getElem hlt, hentry]
    · cases (h.cancelled hc).symm.trans hconsumer
  | getEnd hconsumer entry =>
    obtain ⟨hlt, hentry⟩ := List.getElem?_eq_some_iff.mp entry
    obtain ⟨hstage, hlast⟩ := h.worker.end_last entry
    refine ⟨h.worker, by simp, hlt, by simp, fun _ => ⟨hstage, ?_⟩, fun hc => ?_⟩
    · rw [h.yielded (by simp [hconsumer])]
      exact hlast
    · cases (h.cancelled hc).symm.trans hconsumer
  | next hconsumer =>
    refine ⟨h.worker, by simp, h.bound, fun _ => h.yielded (by simp [hconsumer]), by simp, ?_⟩
    intro hc
    cases (h.cancelled hc).symm.trans hconsumer
  | close hconsumer =>
    exact ⟨h.worker, by simp, h.bound, fun _ => h.yielded (by simp [hconsumer]), by simp,
      fun _ => rfl⟩
  | closeUnstarted hconsumer =>
    exact ⟨h.worker, by simp, h.bound, fun _ => h.yielded (by simp [hconsumer]), by simp,
      fun _ => rfl⟩

end Invariants

end CognitiveTree.Session
