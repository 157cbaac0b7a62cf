import CognitiveTree.Search.Exploration
import CognitiveTree.Session.Archiving
import CognitiveTree.Session.Streaming

/-!
# Consumers of a stream

Whatever the interleaving, the consumer of a stream gets what its worker has put, in order. Draining
it brings every transition and then the closing envelopes; closing it earlier ends the run at the
next head of its main loop.
-/

namespace CognitiveTree.Session

open Search Observability Persistence Feedback Ui

section Quota

variable {K W : Type} [PyFloat K] {ctl : TreeSearchController K W} {rt : Runtime K W}

/-- The calls of the generator that are still to come in an iteration. -/
def callsAhead : Stage K → Nat
  | .selecting | .refused _ | .opened _ _ | .reviving _ | .expanding _ => 1
  | _ => 0

/-- A transition adds no call to those ahead. -/
theorem callsAhead_of_edge {s : RunState K W} {st st' : Stage K} {target : SearchPhase}
    {node : Option Nat} {detail : Str} (edge : Edge ctl s st target node detail st') :
    callsAhead st' ≤ callsAhead st := by
  cases edge <;> simp [callsAhead]

/-- An iteration starts at the head of the main loop; it calls the generator once at most. -/
theorem calls_of_step {st st' : Stage K} {s s' : RunState K W}
    (hs : Search.Step ctl rt (st, s) (st', s')) :
    (st = .boundary ∧ st' = .selecting ∧ s'.iteration = s.iteration + 1 ∧
      (generatedIn s'.log).length = (generatedIn s.log).length) ∨
    s'.iteration = s.iteration ∧
      (generatedIn s'.log).length + callsAhead st' ≤ (generatedIn s.log).length + callsAhead st := by
  have hadvance : ∀ {s : RunState K W} {target : SearchPhase} {node : Option Nat} {detail : Str}
      (legal : s.machine.canTransition target = true), (((s.transitioned rt target node detail
        legal).mirrored ctl rt target node detail).1.iteration = s.iteration) := by
    intro s target node detail legal
    exact (RunState.mirrored_fields ctl rt _ target node detail).2.2.2.1
  cases hs with
  | advance edge legal =>
    refine .inr ⟨hadvance legal, ?_⟩
    rw [generatedIn_transitioned legal]
    exact Nat.add_le_add_left (callsAhead_of_edge edge) _
  | @advanceRaised _ _ st' _ _ _ e edge legal =>
    refine .inr ⟨hadvance legal, ?_⟩
    rw [generatedIn_transitioned legal]
    have hle : callsAhead (st'.afterFault e) ≤ 0 := by cases st' <;> simp [Stage.afterFault, callsAhead]
    omega
  | begin budget => exact .inl ⟨rfl, rfl, rfl, rfl⟩
  | pollCancel | pollDeadline =>
    refine .inr ⟨rfl, ?_⟩
    split <;> exact Nat.le_refl _
  | revise =>
    refine .inr ⟨rfl, ?_⟩
    split <;> exact Nat.le_refl _
  | generate | generateRaised => exact .inr ⟨rfl, Nat.le_refl _⟩
  | _ => exact .inr ⟨rfl, by first | exact Nat.le_refl _ | exact Nat.le_succ _⟩

end Quota

variable {K P E : Type} [PyFloat K]

namespace Worker

/-- How often the generator was called. -/
def calls (w : Worker K P E) : Nat := (generatedIn w.run.log).length

/-- Whether the event was found unset for an iteration that has not begun. -/
def committed (w : Worker K P E) : Nat :=
  match w.stage with
  | .searching .boundary true => 1
  | _ => 0

/-- The calls of the generator that may still come when the event is set. -/
def ahead (w : Worker K P E) : Nat :=
  match w.stage with
  | .searching stage _ => callsAhead stage + w.committed
  | _ => 0

/-- The event is read at the head of the main loop only. -/
def Ordered (w : Worker K P E) : Prop := ∀ stage, w.stage = .searching stage true → stage = .boundary

/-- The worker is at a head of the main loop where the event was not read yet. -/
def AtHead (w : Worker K P E) : Prop := w.stage = .searching .boundary false

/-- The search does not come back from the head of the main loop: it enters `CANCELLED`, or
`EXHAUSTED` when its budget is spent. -/
def Winding (w : Worker K P E) : Prop :=
  match w.stage with
  | .searching .boundary polled => polled = false
  | .searching (.halting target _) _ => target = .cancelled
  | .searching .ended _ | .settling | .reporting | .ending | .done =>
    w.run.machine.phase = .cancelled ∨ w.run.machine.phase = .exhausted
  | _ => False

/-- One call at most is ahead of a worker. -/
theorem ahead_le_one (w : Worker K P E) : w.ahead ≤ 1 := by
  rcases w with ⟨stage, run⟩
  cases stage with
  | searching stage polled => cases stage <;> cases polled <;> simp [ahead, committed, callsAhead]
  | _ => exact Nat.zero_le 1

/-- A worker at the head of its loop has no call ahead and nothing committed. -/
theorem AtHead.spent {w : Worker K P E} (h : w.AtHead) :
    w.ahead = 0 ∧ w.committed = 0 ∧ w.Winding := by
  rcases w with ⟨stage, run⟩
  cases h
  exact ⟨rfl, rfl, rfl⟩

variable [PyNumber K] {env : SessionRuntime K P E} {session : ReasoningSession K P E}
  {archivingRaises : Prop} {cancelled : Bool} {w w' : Worker K P E}

/-- A step of the worker keeps it in order. -/
theorem Step.ordered (hs : w.Step env session archivingRaises cancelled w') : w'.Ordered := by
  cases hs with
  | poll =>
    intro stage h
    cases cancelled <;> cases h
    rfl
  | @search stage stage' polled =>
    intro stage h
    injection h with hstage hpolled
    subst hstage
    cases stage' <;> first | rfl | cases hpolled
  | _ => exact fun stage h => by cases h

/-- Under a set event an iteration takes place only if it was committed to, and calls of the
generator are used up. -/
theorem Step.winds (hs : w.Step env session archivingRaises true w') (h : w.Ordered) :
    w'.calls + w'.ahead ≤ w.calls + w.ahead ∧
      w'.run.iteration + w'.committed ≤ w.run.iteration + w.committed := by
  cases hs with
  | poll => exact ⟨Nat.le_refl _, Nat.le_refl _⟩
  | @search stage stage' polled run run' step ordered =>
    rcases calls_of_step step with ⟨rfl, rfl, hiteration, hcalls⟩ | ⟨hiteration, hcalls⟩
    · obtain rfl : polled = true := by simpa using ordered rfl
      simp only [calls, ahead, committed, callsAhead]
      omega
    · have hcommitted : committed ⟨.searching stage' (stillPolled stage' polled), run'⟩ ≤
          committed ⟨.searching stage polled, run⟩ := by
        cases polled with
        | false => cases stage' <;> simp [committed, stillPolled]
        | true =>
          cases h _ rfl
          cases stage' <;> simp [committed, stillPolled]
      simp only [calls, ahead]
      omega
  | _ => exact ⟨Nat.le_refl _, Nat.le_refl _⟩

/-- What was left to the one worker under a set event has been spent by the other. -/
structure Spends (w w' : Worker K P E) : Prop where
  ordered : w'.Ordered
  calls : w'.calls + w'.ahead ≤ w.calls + w.ahead
  iteration : w'.run.iteration + w'.committed ≤ w.run.iteration + w.committed

omit [PyNumber K] in
/-- A worker that does nothing spends nothing. -/
theorem Spends.refl (h : w.Ordered) : w.Spends w := ⟨h, Nat.le_refl _, Nat.le_refl _⟩

/-- A step of a cancelled worker spends what it was left. -/
theorem Spends.step {w₀ : Worker K P E} (h : w₀.Spends w)
    (hs : w.Step env session archivingRaises true w') : w₀.Spends w' :=
  ⟨hs.ordered, (hs.winds h.ordered).1.trans h.calls, (hs.winds h.ordered).2.trans h.iteration⟩

omit [PyNumber K] in
/-- From the head of the main loop a search ends in `EXHAUSTED`. -/
theorem exhausted_of_boundary {c c' : Stage K × RunState K (P × E × Queue K)}
    (hs : Search.Step (session.controller env) (session.runtime env) c c') (hfrom : c.1 = .boundary)
    (hto : c'.1 = .ended) : c'.2.machine.phase = .exhausted := by
  cases hs with
  | advance edge legal =>
    cases hfrom
    cases hto
    cases edge
    rfl
  | advanceRaised edge legal raised => cases (sink_quiet _ _ _ _).symm.trans raised
  | pollCancel event => cases event
  | pollDeadline =>
    dsimp only at hto
    split at hto <;> cases hto
  | refuse | revise => cases hfrom
  | _ => cases hto

omit [PyNumber K] in
/-- A search that halts ends in the phase it halts for. -/
theorem ended_of_halting {c c' : Stage K × RunState K (P × E × Queue K)} {target : SearchPhase}
    {note : Str} (hs : Search.Step (session.controller env) (session.runtime env) c c')
    (hfrom : c.1 = .halting target note) : c'.1 = .ended ∧ c'.2.machine.phase = target := by
  cases hs with
  | advance edge legal =>
    cases hfrom
    cases edge
    exact ⟨rfl, rfl⟩
  | advanceRaised edge legal raised => cases (sink_quiet _ _ _ _).symm.trans raised
  | _ => cases hfrom

omit [PyNumber K] in
/-- Nothing happens to a search that has ended. -/
theorem ended_of_ended {c c' : Stage K × RunState K (P × E × Queue K)}
    (hs : Search.Step (session.controller env) (session.runtime env) c c') (hfrom : c.1 = .ended) :
    c'.1 = .ended ∧ c'.2.machine = c.2.machine := by
  cases hs with
  | advance edge | advanceRaised edge =>
    cases hfrom
    cases edge
  | refuse => exact ⟨rfl, rfl⟩
  | _ => cases hfrom

/-- Under a set event the search stays at the head of its main loop or ends. -/
theorem Step.winding (hs : w.Step env session archivingRaises true w') (h : w.Winding) :
    w'.Winding := by
  cases hs with
  | poll => rfl
  | @search stage stage' polled run run' step ordered =>
    cases stage with
    | boundary =>
      obtain rfl : polled = false := h
      rcases ordered rfl with hpolled | rfl | rfl
      · cases hpolled
      · rfl
      · exact .inr (exhausted_of_boundary step rfl rfl)
    | halting target note =>
      obtain rfl : target = .cancelled := h
      obtain ⟨rfl, hphase⟩ := ended_of_halting step rfl
      exact .inl hphase
    | ended =>
      obtain ⟨rfl, hmachine⟩ := ended_of_ended step rfl
      rw [Winding] at h ⊢
      rw [hmachine]
      exact h
    | _ => cases h
  | _ => exact h

end Worker

section Streams

variable [PyNumber K] (env : SessionRuntime K P E) (session : ReasoningSession K P E)
  (archivingRaises : Prop)

/-- Any number of steps of a stream, in any order. -/
abbrev Stream.Steps : Stream K P E → Stream K P E → Prop :=
  Relation.ReflTransGen fun s t => ∃ action, Stream.Step env session archivingRaises action s t


variable {env session archivingRaises}

/-- After its generator was closed, a stream is its worker, under a set event if it was started. -/
structure Stream.Closed (s : Stream K P E) : Prop where
  consumer : s.consumer = .closed
  cancelled : s.worker.stage = .unstarted ∨ s.cancelled = true

/-- Closing a stream leaves it closed. -/
theorem Stream.Step.closed {s t : Stream K P E}
    (hs : Stream.Step env session archivingRaises .close s t)
    (h : s.Inv env session archivingRaises) : t.Closed := by
  cases hs with
  | close => exact ⟨rfl, .inr rfl⟩
  | closeUnstarted hconsumer => exact ⟨rfl, .inl (h.unstarted hconsumer).1⟩

/-- A closed stream stays closed, and its worker takes a cancelled step. -/
theorem Stream.Closed.step {s t : Stream K P E} (h : s.Closed) {action : StreamAction}
    (hs : Stream.Step env session archivingRaises action s t) :
    t.Closed ∧ s.worker.Step env session archivingRaises true t.worker := by
  cases hs with
  | work step =>
    rcases h.cancelled with hstage | hset
    · exact absurd hstage step.running.1
    · exact ⟨⟨h.consumer, .inr hset⟩, hset ▸ step⟩
  | start _ hconsumer | get hconsumer | getEnd hconsumer | next hconsumer | close hconsumer
  | closeUnstarted hconsumer => exact absurd (h.consumer.symm.trans hconsumer) (by decide)

/-- What holds of the worker under a set event is kept by all steps after the close. -/
theorem Stream.Closed.invariant {Q : Worker K P E → Prop}
    (preserved : ∀ w w', Q w → w.Step env session archivingRaises true w' → Q w')
    {s t : Stream K P E} (h : s.Closed) (hs : Stream.Steps env session archivingRaises s t)
    (hq : Q s.worker) : t.Closed ∧ Q t.worker := by
  induction hs with
  | refl => exact ⟨h, hq⟩
  | tail _ hstep ih =>
    obtain ⟨action, step⟩ := hstep
    obtain ⟨hclosed, hworker⟩ := ih.1.step step
    exact ⟨hclosed, preserved _ _ ih.2 hworker⟩

/-- After the close the generator is called once more at most, within the iteration that is under
way or was committed to, and the search ends at the next head of its main loop. -/
structure Stream.WindsDown (env : SessionRuntime K P E) (session : ReasoningSession K P E)
    (archivingRaises : Prop) (s t : Stream K P E) : Prop where
  calls : t.worker.calls ≤ s.worker.calls + 1
  iteration : t.worker.run.iteration ≤ s.worker.run.iteration + s.worker.committed
  head : t.worker.AtHead → ∀ u, Stream.Steps env session archivingRaises t u →
    u.worker.Winding ∧ u.worker.calls ≤ t.worker.calls ∧
      u.worker.run.iteration ≤ t.worker.run.iteration

/-- A closed stream winds down over all its steps. -/
theorem Stream.Closed.windsDown {s t : Stream K P E} (h : s.Closed) (hordered : s.worker.Ordered)
    (hs : Stream.Steps env session archivingRaises s t) :
    s.WindsDown env session archivingRaises t := by
  obtain ⟨hclosed, htordered, hcalls, hiteration⟩ := h.invariant (Q := s.worker.Spends)
    (fun _ _ hq step => hq.step step) hs (.refl hordered)
  refine ⟨?_, by omega, fun hhead u hu => ?_⟩
  · have hahead := s.worker.ahead_le_one
    omega
  · obtain ⟨hahead, hcommitted, hwinding⟩ := hhead.spent
    obtain ⟨-, hwinding', -, hcalls', hiteration'⟩ := hclosed.invariant
      (Q := fun w => w.Winding ∧ t.worker.Spends w)
      (fun _ _ hq step => ⟨step.winding hq.1, hq.2.step step⟩) hu ⟨hwinding, .refl htordered⟩
    exact ⟨hwinding', by omega, by omega⟩

/-- The consumer has drained the stream: each transition of the run brought its envelopes, and then
the metrics and the result came. -/
def Stream.Drained (env : SessionRuntime K P E) (s : Stream K P E) : Prop :=
  ∃ (body : Queue K) (metrics : RunMetrics K) (usage : Option TokenUsage) (result : SearchResult K)
    (now later : K), Announced env s.worker.run.machine.history body ∧
      finalResult s.worker.run = some result ∧ RunMetrics.fromResult result usage = .ok metrics ∧
      s.yielded.map some = body ++ [some (ReasoningSession.metricsMessage metrics now),
        some (resultEnvelope env.freshId result later)]

/-- The attempts stored in the metadata are numbers. -/
def Countable (run : RunState K (P × E × Queue K)) : Prop :=
  ∀ n < run.tree.arena.size, ∃ i, BoundedRevisionPolicy.attemptsOf (run.metadata n) = .ok i

/-- Summing up the run did not fail. -/
def Worker.Counted (w : Worker K P E) : Prop :=
  w.stage = .reporting ∨ w.stage = .ending ∨ w.stage = .done → Countable w.run

/-- A worker that settles a run it can count keeps its figures. -/
theorem Worker.Step.counted {cancelled : Bool} {w w' : Worker K P E}
    (hs : w.Step env session archivingRaises cancelled w') (h : w.Counted)
    (hsettling : w.stage = .settling → Countable w.run) : w'.Counted := by
  cases hs with
  | poll => cases cancelled <;> simp [Counted]
  | search | returned => simp [Counted]
  | settle | metricsRaised | archiveRaised => exact fun _ => hsettling rfl
  | report => exact fun _ => h (.inl rfl)
  | mark => exact fun _ => h (.inr (.inl rfl))

omit [PyNumber K] in
/-- The last result has the tree and the metadata of the run. -/
theorem finalResult_fields {run : RunState K (P × E × Queue K)} {result : SearchResult K}
    (h : finalResult run = some result) :
    result.tree = run.tree ∧ result.metadata = run.metadata := by
  obtain ⟨outcome, -, rfl⟩ := Option.map_eq_some_iff.mp h
  exact ⟨rfl, rfl⟩

/-- A finished consumer of a run that could be summed up and archived has drained it. -/
theorem Stream.Inv.drained {s : Stream K P E} (h : s.Inv env session False)
    (hcounted : s.worker.Counted) (hfinished : s.consumer = .finished) : s.Drained env := by
  obtain ⟨hstage, hproduced⟩ := h.finished hfinished
  have hcountable := hcounted (.inr (.inr hstage))
  have hworker := h.worker
  obtain ⟨consumer, ⟨stage, run⟩, cancelled, taken, yielded⟩ := s
  cases hworker with
  | @done _ body tail terminal announced closing queue =>
    have hyielded : yielded.map some = body ++ tail := by
      have happend := hproduced.symm.trans queue
      exact List.append_cancel_right happend
    cases closing with
    | complete now later hresult hmetrics =>
      exact ⟨body, _, _, _, now, later, announced, hresult, hmetrics, hyielded⟩
    | archiveLost raises => exact raises.elim
    | @metricsLost result usage error hresult hmetrics =>
      obtain ⟨htree, hmetadata⟩ := finalResult_fields hresult
      have hok : ∃ m, RunMetrics.fromResult result usage = .ok m := by
        rw [fromResult_ok_iff, htree, hmetadata]
        exact hcountable
      obtain ⟨m, hm⟩ := hok
      cases hmetrics.symm.trans hm
  | _ => cases hstage

variable (env session) in
/-- The states of a stream after any steps of its two threads, where saving the archive raises
nothing but an `OSError`, and the attempts that a finished run has stored are numbers. -/
def Stream.Reachable (world : P × E) : Stream K P E → Prop :=
  Relation.ReflTransGen (fun s t => (∃ action, Stream.Step env session False action s t) ∧
    (s.worker.stage = .settling → Countable s.worker.run)) (.fresh env session world)

/-- A step of the stream keeps the figures of its worker. -/
theorem Stream.Step.counted {action : StreamAction} {s t : Stream K P E}
    (hs : Stream.Step env session archivingRaises action s t) (h : s.worker.Counted)
    (hsettling : s.worker.stage = .settling → Countable s.worker.run) : t.worker.Counted := by
  cases hs with
  | start => simp [Worker.Counted]
  | work step => exact Worker.Step.counted step h hsettling
  | _ => exact h

/-- A step of the stream keeps its worker in order. -/
theorem Stream.Step.ordered {action : StreamAction} {s t : Stream K P E}
    (hs : Stream.Step env session archivingRaises action s t) (h : s.worker.Ordered) :
    t.worker.Ordered := by
  cases hs with
  | start => exact fun _ h => by cases h
  | work step => exact Worker.Step.ordered step
  | _ => exact h

/-- What all of these states have in common. -/
theorem Stream.Reachable.inv {world : P × E} {s : Stream K P E}
    (h : Stream.Reachable env session world s) :
    s.Inv env session False ∧ s.worker.Ordered ∧ s.worker.Counted := by
  induction h with
  | refl => exact ⟨.fresh world, fun _ h => (by cases h), by simp [Worker.Counted, Stream.fresh]⟩
  | tail _ hstep ih =>
    obtain ⟨⟨action, step⟩, hsettling⟩ := hstep
    exact ⟨step.inv ih.1, step.ordered ih.2.1, step.counted ih.2.2 hsettling⟩

variable (env session) in
/-- What a stream owes its consumer. -/
structure Stream.Delivers (s : Stream K P E) : Prop where
  /-- nothing is lost, repeated or out of order -/
  order : s.yielded.map some <+: s.worker.produced
  /-- nothing but a close sets the event -/
  unset : s.consumer ≠ .closed → s.cancelled = false
  drained : s.consumer = .finished → s.Drained env
  closed : ∀ t u, Stream.Step env session False .close s t →
    Stream.Steps env session False t u → t.WindsDown env session False u

/-- Streams deliver in every interleaving of their threads, and however the event reads, their
searches return. -/
theorem stream_delivers (world : P × E) {s : Stream K P E}
    (h : Stream.Reachable env session world s) : s.Delivers env session ∧
    ∀ cancelled world', ∃ result world'',
      session.search env (some cancelled) (some (sink env)) world' = .ok result world'' := by
  obtain ⟨hinv, hordered, hcounted⟩ := h.inv
  refine ⟨⟨?_, fun hopen => ?_, hinv.drained hcounted, fun t u hclose hsteps => ?_⟩,
    fun cancelled world' => ?_⟩
  · by_cases hfinished : s.consumer = .finished
    · exact ⟨[none], (hinv.finished hfinished).2.symm⟩
    · rw [hinv.yielded hfinished]
      exact List.take_prefix ..
  · by_contra hset
    exact hopen (hinv.cancelled (by simpa using hset))
  · exact (hclose.closed hinv).windsDown (hclose.ordered hordered) hsteps
  · obtain ⟨result, t, hrun, -⟩ := run_ok_of_quiet (session.policies.controller session.config
      (surroundings env session (some cancelled) (some (sink env))))
      ((surroundings env session (some cancelled) (some (sink env))).runtime env.random env.schedule)
      session.task 0 world' Policies.quietSink
    exact ⟨result, t.world, by rw [ReasoningSession.search, hrun]⟩

end Streams

section Examples

/-- Policies of which the first call raises. -/
def failingPolicies : Policies ℚ Unit where
  generator _ _ _ metadata world := ⟨.error ⟨lit "RuntimeError", lit "no idea"⟩, metadata, world⟩
  evaluator _ _ metadata world := ⟨.ok halfway, metadata, world⟩
  critic := none
  revisionPolicy := none
  rewardModel := none

/-- A session with these policies. -/
def failingSession : ReasoningSession ℚ Unit Unit :=
  { idleSession (lit "task") strip_plain with policies := failingPolicies }

/-- Its run fails, and the consumer takes what it has produced to the end mark. -/
theorem failed_stream_finishes : ∃ s, Stream.Reachable (stillSession none) failingSession ((), ()) s ∧
    s.consumer = .finished ∧ s.yielded.length = 6 := by
  refine ⟨_, .tail (.tail (.tail (.tail (.tail (.tail (.tail (.tail (.tail (.tail (.tail (.tail (.tail
    (.tail (.tail (.tail (.tail (.tail (.tail (.tail (.tail (.tail (.tail (.tail (.tail .refl
    ⟨⟨.start, .start () rfl⟩, fun h => by cases h⟩)
    ⟨⟨.work, .work (.search (.advance .start rfl (sink_quiet _ _ _ _)) (by simp))⟩, fun h => by cases h⟩)
    ⟨⟨.work, .work (.poll (by decide))⟩, fun h => by cases h⟩)
    ⟨⟨.work, .work (.search (.begin (by decide)) (by simp))⟩, fun h => by cases h⟩)
    ⟨⟨.work, .work (.search (.found (n := 0) (by decide) rfl rfl (by decide)) (by simp))⟩,
      fun h => by cases h⟩)
    ⟨⟨.work, .work (.search (.advance (.expand 0) rfl (sink_quiet _ _ _ _)) (by simp))⟩,
      fun h => by cases h⟩)
    ⟨⟨.work, .work (.search (.generateRaised rfl rfl) (by simp))⟩, fun h => by cases h⟩)
    ⟨⟨.work, .work (.search (.advance (.failed _) rfl (sink_quiet _ _ _ _)) (by simp))⟩,
      fun h => by cases h⟩)
    ⟨⟨.work, .work .returned⟩, fun h => by cases h⟩)
    ⟨⟨.work, .work (.settle 0 () rfl (show RunMetrics.fromResult _ none = .ok _ from rfl))⟩,
      fun _ n _ => ⟨0, rfl⟩⟩)
    ⟨⟨.work, .work (.report 0 () rfl)⟩, fun h => by cases h⟩)
    ⟨⟨.work, .work .mark⟩, fun h => by cases h⟩)
    ⟨⟨.get, .get rfl rfl⟩, fun h => by cases h⟩)
    ⟨⟨.next, .next rfl⟩, fun h => by cases h⟩)
    ⟨⟨.get, .get rfl rfl⟩, fun h => by cases h⟩)
    ⟨⟨.next, .next rfl⟩, fun h => by cases h⟩)
    ⟨⟨.get, .get rfl rfl⟩, fun h => by cases h⟩)
    ⟨⟨.next, .next rfl⟩, fun h => by cases h⟩)
    ⟨⟨.get, .get rfl rfl⟩, fun h => by cases h⟩)
    ⟨⟨.next, .next rfl⟩, fun h => by cases h⟩)
    ⟨⟨.get, .get rfl rfl⟩, fun h => by cases h⟩)
    ⟨⟨.next, .next rfl⟩, fun h => by cases h⟩)
    ⟨⟨.get, .get rfl rfl⟩, fun h => by cases h⟩)
    ⟨⟨.next, .next rfl⟩, fun h => by cases h⟩)
    ⟨⟨.getEnd, .getEnd rfl rfl⟩, fun h => by cases h⟩, rfl, rfl⟩

/-- Its six envelopes, and what closes a drained stream. -/
theorem stream_delivers_failed : ∃ s : Stream ℚ Unit Unit, s.consumer = .finished ∧
    s.yielded.length = 6 ∧ s.Drained (stillSession none) ∧
      s.Delivers (stillSession none) failingSession := by
  obtain ⟨s, hreach, hconsumer, hyielded⟩ := failed_stream_finishes
  have hdelivers := (stream_delivers ((), ()) hreach).1
  exact ⟨s, hconsumer, hyielded, hdelivers.drained hconsumer, hdelivers⟩

/-- Policies that leave a list where the attempts of a node are stored, and raise. -/
def scribblingPolicies : Policies ℚ Unit where
  generator _ _ _ _ world :=
    ⟨.error ⟨lit "RuntimeError", lit "no idea"⟩, fun _ => [(revisionAttemptsKey, .list [])], world⟩
  evaluator _ _ metadata world := ⟨.ok halfway, metadata, world⟩
  critic := none
  revisionPolicy := none
  rewardModel := none

/-- A session with these policies. -/
def scribblingSession : ReasoningSession ℚ Unit Unit :=
  { idleSession (lit "task") strip_plain with policies := scribblingPolicies }

/-- Their run fails, the worker dies of its metrics, and the consumer comes to the end mark. -/
theorem scribbled_stream_finishes : ∃ s, Stream.Steps (stillSession none) scribblingSession False
    (.fresh (stillSession none) scribblingSession ((), ())) s ∧ s.consumer = .finished ∧
      s.worker.run.tree.arena.size = 1 ∧
      s.worker.run.metadata = fun _ => [(revisionAttemptsKey, .list [])] := by
  refine ⟨_, .tail (.tail (.tail (.tail (.tail (.tail (.tail (.tail (.tail (.tail (.tail (.tail (.tail
    (.tail (.tail (.tail (.tail (.tail (.tail (.tail .refl
    ⟨.start, .start () rfl⟩)
    ⟨.work, .work (.search (.advance .start rfl (sink_quiet _ _ _ _)) (by simp))⟩)
    ⟨.work, .work (.poll (by decide))⟩)
    ⟨.work, .work (.search (.begin (by decide)) (by simp))⟩)
    ⟨.work, .work (.search (.found (n := 0) (by decide) rfl rfl (by decide)) (by simp))⟩)
    ⟨.work, .work (.search (.advance (.expand 0) rfl (sink_quiet _ _ _ _)) (by simp))⟩)
    ⟨.work, .work (.search (.generateRaised rfl rfl) (by simp))⟩)
    ⟨.work, .work (.search (.advance (.failed _) rfl (sink_quiet _ _ _ _)) (by simp))⟩)
    ⟨.work, .work .returned⟩)
    ⟨.work, .work (.metricsRaised rfl (show RunMetrics.fromResult _ none = .error _ from rfl))⟩)
    ⟨.work, .work .mark⟩)
    ⟨.get, .get rfl rfl⟩)
    ⟨.next, .next rfl⟩)
    ⟨.get, .get rfl rfl⟩)
    ⟨.next, .next rfl⟩)
    ⟨.get, .get rfl rfl⟩)
    ⟨.next, .next rfl⟩)
    ⟨.get, .get rfl rfl⟩)
    ⟨.next, .next rfl⟩)
    ⟨.getEnd, .getEnd rfl rfl⟩, ?_⟩
  exact ⟨rfl, rfl, rfl⟩

/-- So neither metrics nor a result end this stream. -/
theorem scribbled_stream_unfinished : ¬ ∀ s, Stream.Steps (stillSession none) scribblingSession False
    (.fresh (stillSession none) scribblingSession ((), ())) s → s.consumer = .finished →
      s.Drained (stillSession none) := by
  intro h
  obtain ⟨s, hsteps, hfinished, hsize, hmetadata⟩ := scribbled_stream_finishes
  obtain ⟨-, metrics, usage, result, -, -, -, hresult, hmetrics, -⟩ := h s hsteps hfinished
  obtain ⟨htree, hdata⟩ := finalResult_fields hresult
  obtain ⟨i, hi⟩ := (fromResult_ok_iff result usage).mp ⟨metrics, hmetrics⟩ 0
    (by rw [htree, hsize]; exact Nat.one_pos)
  rw [hdata, hmetadata] at hi
  cases hi

end Examples

end CognitiveTree.Session
