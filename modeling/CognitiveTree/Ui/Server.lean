import CognitiveTree.Session.Consuming

/-!
# The streaming server

Each request for a stream is served by a handler thread of its own, which holds one of the server's
slots while it writes. The run it streams has a worker thread that the handler does not wait for
when its client is gone: its slot is free before the run has ended.
-/

namespace CognitiveTree.Ui

open Search Session

variable {K P E : Type} [PyFloat K]

/-- `StreamingUiServer`: its session factory and its cap. -/
structure StreamingUiServer (K P E : Type) [PyFloat K] where
  sessionFactory : P × E → Except Exc (ReasoningSession K P E) × (P × E)
  maxConcurrentRuns : Option Nat
  positive : ∀ n ∈ maxConcurrentRuns, 0 < n

/-- Where the handler thread of a request for a stream is. -/
inductive Handler where
  | accepted
  /-- answered with 503 -/
  | refused
  /-- with a slot, before its stream is opened -/
  | admitted
  /-- in the loop over the envelopes -/
  | streaming
  /-- out of `_stream_session`, before its slot is returned -/
  | leaving
  | closed
  deriving DecidableEq

/-- Between `acquire` and `release`. -/
def Handler.holdsSlot : Handler → Bool
  | .admitted | .streaming | .leaving => true
  | .accepted | .refused | .closed => false

/-- A request with the stream that was opened for it, which outlives its handler. -/
structure Connection (K P E : Type) [PyFloat K] where
  handler : Handler
  stream : Option (ReasoningSession K P E × Stream K P E)

/-- Its run has been started and has reached no terminal phase. -/
def Connection.active (c : Connection K P E) : Bool :=
  match c.stream with
  | none => false
  | some (_, stream) => stream.worker.active

/-- A server at work: the value of its semaphore, what its runs share, and its requests. -/
structure Serving (K P E : Type) [PyFloat K] where
  free : Option Nat
  shared : P × E
  connections : List (Connection K P E)

namespace Serving

/-- The number of runs that have been started and have reached no terminal phase. -/
def activeRuns (s : Serving K P E) : Nat := s.connections.countP Connection.active

/-- `i`'s connection becomes `c`. -/
def update (s : Serving K P E) (i : Nat) (c : Connection K P E) : Serving K P E :=
  { s with connections := s.connections.set i c }

end Serving

/-- `slots.acquire(blocking=False)`; without slots everyone is admitted. -/
def acquire : Option Nat → Option (Option Nat)
  | none => some none
  | some 0 => none
  | some (n + 1) => some (some n)

/-- `slots.release()`. -/
def release (slots : Option Nat) : Option Nat := slots.map (· + 1)

/-- A stream whose policies and surroundings are in this state. -/
def within (stream : Stream K P E) (shared : P × E) : Stream K P E :=
  { stream with worker := { stream.worker with
      run := stream.worker.run.inWorld (shared.1, shared.2, stream.worker.produced) } }

/-- The state in which a stream leaves them. -/
def sharedOf (stream : Stream K P E) : P × E :=
  (stream.worker.run.world.1, stream.worker.run.world.2.1)

/-- What can happen on a server. -/
inductive ServerAction where
  | connect
  | acquire (i : Nat)
  | refuse (i : Nat)
  | opened (i : Nat)
  | failed (i : Nat)
  /-- the handler asks its stream for the next envelope, or writes one -/
  | serve (i : Nat) (action : StreamAction)
  /-- a worker takes a step -/
  | work (i : Nat)
  /-- a write raises, or the stream cannot be started -/
  | abandon (i : Nat)
  | drained (i : Nat)
  | leave (i : Nat)

section Steps

variable [PyNumber K] (server : StreamingUiServer K P E) (env : SessionRuntime K P E)
  (archivingRaises : Prop)

/-- A server before its first request. -/
def Serving.initial (shared : P × E) : Serving K P E := ⟨server.maxConcurrentRuns, shared, []⟩

/-- The steps of a server, one constructor for each action. -/
inductive Serving.Step (s : Serving K P E) : ServerAction → Serving K P E → Prop
  | connect : Step s .connect { s with connections := s.connections ++ [⟨.accepted, none⟩] }
  | acquire {i : Nat} {c : Connection K P E} {free : Option Nat}
      (request : s.connections[i]? = some c) (handler : c.handler = .accepted)
      (slot : acquire s.free = some free) :
      Step s (.acquire i) ({ s with free := free }.update i { c with handler := .admitted })
  | refuse {i : Nat} {c : Connection K P E} (request : s.connections[i]? = some c)
      (handler : c.handler = .accepted) (slot : acquire s.free = none) :
      Step s (.refuse i) (s.update i { c with handler := .refused })
  /-- the session is built and the head of the response is sent; the stream is not started yet -/
  | opened {i : Nat} {c : Connection K P E} {session : ReasoningSession K P E} {shared : P × E}
      (request : s.connections[i]? = some c) (handler : c.handler = .admitted)
      (built : server.sessionFactory s.shared = (.ok session, shared)) :
      Step s (.opened i) ({ s with shared := shared }.update i
        ⟨.streaming, some (session, .fresh env session shared)⟩)
  /-- the factory raises, or the client is gone before the head is sent -/
  | failed {i : Nat} {c : Connection K P E} (request : s.connections[i]? = some c)
      (handler : c.handler = .admitted) :
      Step s (.failed i) ({ s with shared := (server.sessionFactory s.shared).2 }.update i
        { c with handler := .leaving })
  | serve {i : Nat} {c : Connection K P E} {session : ReasoningSession K P E}
      {stream stream' : Stream K P E} {action : StreamAction}
      (request : s.connections[i]? = some c) (handler : c.handler = .streaming)
      (hstream : c.stream = some (session, stream)) (step : Stream.Step env session archivingRaises
        action (within stream s.shared) stream')
      (reads : action ∈ [.start, .get, .getEnd, .next]) :
      Step s (.serve i action) ({ s with shared := sharedOf stream' }.update i
        { c with stream := some (session, stream') })
  | work {i : Nat} {c : Connection K P E} {session : ReasoningSession K P E}
      {stream stream' : Stream K P E} (request : s.connections[i]? = some c)
      (hstream : c.stream = some (session, stream)) (step : Stream.Step env session archivingRaises
        .work (within stream s.shared) stream') :
      Step s (.work i) ({ s with shared := sharedOf stream' }.update i
        { c with stream := some (session, stream') })
  /-- the client is gone, or the envelope has no frame: the stream is closed -/
  | abandon {i : Nat} {c : Connection K P E} {session : ReasoningSession K P E}
      {stream stream' : Stream K P E} (request : s.connections[i]? = some c)
      (handler : c.handler = .streaming) (hstream : c.stream = some (session, stream))
      (step : Stream.Step env session archivingRaises .close (within stream s.shared) stream') :
      Step s (.abandon i) (s.update i ⟨.leaving, some (session, stream')⟩)
  /-- the stream has ended, and its worker was joined -/
  | drained {i : Nat} {c : Connection K P E} {session : ReasoningSession K P E}
      {stream : Stream K P E} (request : s.connections[i]? = some c)
      (handler : c.handler = .streaming) (hstream : c.stream = some (session, stream))
      (finished : stream.consumer = .finished) :
      Step s (.drained i) (s.update i { c with handler := .leaving })
  | leave {i : Nat} {c : Connection K P E} (request : s.connections[i]? = some c)
      (handler : c.handler = .leaving) :
      Step s (.leave i) ({ s with free := release s.free }.update i { c with handler := .closed })

end Steps

section Bound

variable [PyNumber K] {server : StreamingUiServer K P E} {env : SessionRuntime K P E}
  {archivingRaises : Prop}

variable (env archivingRaises) in
/-- What holds of a request: only under its handler is its run active. -/
structure Connection.Inv (c : Connection K P E) : Prop where
  unopened : c.handler = .accepted ∨ c.handler = .refused ∨ c.handler = .admitted → c.stream = none
  stream : ∀ session stream, c.stream = some (session, stream) →
    stream.Inv env session archivingRaises
  active : c.active = true → c.handler = .streaming

variable (server env archivingRaises) in
/-- What holds of a server: each slot is free or held by a handler. -/
structure Serving.Inv (s : Serving K P E) : Prop where
  connections : ∀ c ∈ s.connections, c.Inv env archivingRaises
  slots : ∀ n ∈ server.maxConcurrentRuns, ∃ free, s.free = some free ∧
    free + s.connections.countP (fun c => c.handler.holdsSlot) = n

omit [PyFloat K] [PyNumber K] in
/-- A count after one entry has changed. -/
theorem countP_set_add {α : Type} {l : List α} {i : Nat} {a : α} (entry : l[i]? = some a) (b : α)
    (p : α → Bool) : (l.set i b).countP p + (if p a then 1 else 0) =
      l.countP p + (if p b then 1 else 0) := by
  obtain ⟨hi, rfl⟩ := List.getElem?_eq_some_iff.mp entry
  have hle := @List.boole_getElem_le_countP _ p l i hi
  rw [List.countP_set hi]
  omega

/-- Changing one request keeps the invariant. -/
theorem Serving.Inv.update {s : Serving K P E} (h : s.Inv server env archivingRaises) {i : Nat}
    {c c' : Connection K P E} (request : s.connections[i]? = some c)
    (hc' : c'.Inv env archivingRaises) {free : Option Nat} {shared : P × E}
    (hslots : ∀ value ∈ s.free, ∃ value', free = some value' ∧
      value' + (if c'.handler.holdsSlot then 1 else 0) =
        value + (if c.handler.holdsSlot then 1 else 0)) :
    (Serving.update { s with free := free, shared := shared } i c').Inv server env
      archivingRaises := by
  refine ⟨fun d hd => ?_, fun n hn => ?_⟩
  · rcases List.mem_or_eq_of_mem_set hd with hd | rfl
    · exact h.connections d hd
    · exact hc'
  · obtain ⟨value, hvalue, hsum⟩ := h.slots n hn
    obtain ⟨value', hfree, hvalue'⟩ := hslots value hvalue
    have hcount := countP_set_add request c' fun c => c.handler.holdsSlot
    refine ⟨value', hfree, ?_⟩
    change value' + (s.connections.set i c').countP _ = n
    omega

/-- The invariant of a stream does not depend on what it shares. -/
theorem inv_within {session : ReasoningSession K P E} {stream : Stream K P E}
    (h : stream.Inv env session archivingRaises) (shared : P × E) :
    (within stream shared).Inv env session archivingRaises := by
  refine ⟨?_, h.unstarted, h.bound, h.yielded, h.finished, h.cancelled⟩
  have hworker := h.worker
  rcases stream with ⟨consumer, ⟨stage, run⟩, cancelled, taken, yielded⟩
  cases hworker with
  | unstarted queue => exact .unstarted queue
  | searching inv queue =>
    exact .searching (inv.stay rfl inv.phase (Or.inr ⟨rfl, rfl, rfl⟩) inv.knows) queue
  | settling terminal queue => exact .settling terminal queue
  | reporting terminal announced hresult hmetrics queue =>
    exact .reporting terminal announced hresult hmetrics queue
  | ending terminal announced closing queue =>
    exact .ending terminal announced (closing.inWorld _) queue
  | done terminal announced closing queue =>
    exact .done terminal announced (closing.inWorld _) queue

/-- A step of a stream leaves an inactive run inactive, unless it starts it. -/
theorem inactive_of_step {session : ReasoningSession K P E} {action : StreamAction}
    {stream stream' : Stream K P E} (hs : Stream.Step env session archivingRaises action stream stream')
    (h : stream.Inv env session archivingRaises) (hstart : action ≠ .start)
    (hover : stream.worker.active = false) : stream'.worker.active = false := by
  cases hs with
  | start => exact absurd rfl hstart
  | work step => exact Worker.Step.inactive step h.worker hover
  | _ => exact hover

variable (env archivingRaises) in
/-- The action does not close the stream of an active run. -/
def Outlasts (s : Serving K P E) (action : ServerAction) : Prop :=
  ∀ i, action = .abandon i → ∀ c, s.connections[i]? = some c → c.active = false

theorem Connection.Inv.of_none {handler : Handler}
    {stream : Option (ReasoningSession K P E × Stream K P E)} (h : stream = none) :
    Connection.Inv env archivingRaises ⟨handler, stream⟩ := by
  subst h
  exact ⟨fun _ => rfl, by simp, fun h => by cases h⟩

theorem Connection.Inv.of_session {c : Connection K P E} (h : c.Inv env archivingRaises)
    {session : ReasoningSession K P E} {stream stream' : Stream K P E} {handler : Handler}
    (hstream : c.stream = some (session, stream))
    (hinv : stream'.Inv env session archivingRaises)
    (hhandler : handler = c.handler ∨ handler = .leaving)
    (hactive : stream'.worker.active = true → handler = .streaming) :
    Connection.Inv env archivingRaises ⟨handler, some (session, stream')⟩ := by
  refine ⟨fun hunopened => ?_, fun _ _ h => ?_, hactive⟩
  · rcases hhandler with rfl | rfl
    · rw [h.unopened hunopened] at hstream
      cases hstream
    · rcases hunopened with h | h | h <;> cases h
  · cases h
    exact hinv

/-- A server keeps its invariant in steps that close no stream of an active run. -/
theorem Serving.Step.inv {s s' : Serving K P E} {action : ServerAction}
    (hs : Serving.Step server env archivingRaises s action s')
    (h : s.Inv server env archivingRaises) (houtlasts : Outlasts s action) :
    s'.Inv server env archivingRaises := by
  have hmem : ∀ {i : Nat} {c : Connection K P E}, s.connections[i]? = some c →
      c.Inv env archivingRaises := fun request => h.connections _ (List.mem_of_getElem? request)
  have hsame : ∀ {c c' : Connection K P E}, c'.handler.holdsSlot = c.handler.holdsSlot →
      ∀ value ∈ s.free, ∃ value', s.free = some value' ∧
        value' + (if c'.handler.holdsSlot then 1 else 0) =
          value + (if c.handler.holdsSlot then 1 else 0) :=
    fun he value hvalue => ⟨value, hvalue, by rw [he]⟩
  cases hs with
  | connect =>
    refine ⟨fun d hd => ?_, fun n hn => ?_⟩
    · rcases List.mem_append.mp hd with hd | hd
      · exact h.connections d hd
      · rw [List.mem_singleton.mp hd]
        exact ⟨fun _ => rfl, by simp, fun h => by cases h⟩
    · obtain ⟨value, hvalue, hsum⟩ := h.slots n hn
      exact ⟨value, hvalue, by simpa [Handler.holdsSlot] using hsum⟩
  | acquire request handler slot =>
    have hstream := (hmem request).unopened (.inl handler)
    refine h.update request ?_ fun value hvalue => ?_
    · exact .of_none hstream
    · rw [Option.mem_def.mp hvalue] at slot
      obtain - | rest := value
      · cases slot
      · cases slot
        exact ⟨rest, rfl, by simp [handler, Handler.holdsSlot]⟩
  | refuse request handler slot =>
    have hstream := (hmem request).unopened (.inl handler)
    exact h.update request (.of_none hstream) (hsame (by simp [handler, Handler.holdsSlot]))
  | @opened i c session shared request handler built =>
    refine h.update request ?_ (hsame (by simp [handler, Handler.holdsSlot]))
    refine ⟨by simp, fun _ _ h => ?_, fun h => by cases h⟩
    cases h
    exact .fresh _
  | failed request handler =>
    have hstream := (hmem request).unopened (.inr (.inr handler))
    exact h.update request (.of_none hstream) (hsame (by simp [handler, Handler.holdsSlot]))
  | serve request handler hstream step reads =>
    have hinv := step.inv (inv_within ((hmem request).stream _ _ hstream) s.shared)
    refine h.update request ?_ (hsame rfl)
    exact (hmem request).of_session hstream hinv (.inl rfl) fun _ => handler
  | work request hstream step =>
    have hbefore := inv_within ((hmem request).stream _ _ hstream) s.shared
    refine h.update request ?_ (hsame rfl)
    refine (hmem request).of_session hstream (step.inv hbefore) (.inl rfl) fun hactive => ?_
    refine (hmem request).active ?_
    by_contra hover
    rw [Bool.not_eq_true, Connection.active, hstream] at hover
    rw [inactive_of_step step hbefore (by simp) hover] at hactive
    cases hactive
  | abandon request handler hstream step =>
    have hbefore := inv_within ((hmem request).stream _ _ hstream) s.shared
    have hover := houtlasts _ rfl _ request
    rw [Connection.active, hstream] at hover
    refine h.update request ?_ (hsame (by simp [handler, Handler.holdsSlot]))
    refine (hmem request).of_session hstream (step.inv hbefore) (.inr rfl) fun hactive => ?_
    rw [inactive_of_step step hbefore (by simp) hover] at hactive
    cases hactive
  | @drained i c session stream request handler hstream finished =>
    have hbefore := (hmem request).stream _ _ hstream
    refine h.update request ?_ (hsame (by simp [handler, Handler.holdsSlot]))
    rw [hstream]
    refine (hmem request).of_session hstream hbefore (.inr rfl) fun hactive => ?_
    rw [hbefore.worker.inactive_of_done (hbefore.finished finished).1] at hactive
    cases hactive
  | leave request handler =>
    refine h.update request ?_ fun value hvalue => ?_
    · refine ⟨by simp, (hmem request).stream, fun hactive => ?_⟩
      rw [(hmem request).active hactive] at handler
      cases handler
    · exact ⟨value + 1, by rw [release, Option.mem_def.mp hvalue]; rfl,
        by simp [handler, Handler.holdsSlot]⟩

theorem Serving.Inv.initial (shared : P × E) :
    (Serving.initial server shared).Inv server env archivingRaises :=
  ⟨by simp [Serving.initial], fun n hn => ⟨n, hn, rfl⟩⟩

/-- Active runs are covered by slots. -/
theorem Serving.Inv.activeRuns_le {s : Serving K P E} (h : s.Inv server env archivingRaises)
    {n : Nat} (hn : n ∈ server.maxConcurrentRuns) : s.activeRuns ≤ n := by
  obtain ⟨free, -, hsum⟩ := h.slots n hn
  have hle : s.activeRuns ≤ s.connections.countP fun c => c.handler.holdsSlot := by
    refine List.countP_mono_left fun c hc hactive => ?_
    rw [(h.connections c hc).active hactive]
    rfl
  omega

variable (server env archivingRaises) in
/-- The states of a server after any steps, in any order. -/
def Serving.Reachable (shared : P × E) (s : Serving K P E) : Prop :=
  Relation.ReflTransGen (fun s t => ∃ action, Serving.Step server env archivingRaises s action t)
    (.initial server shared) s

variable (server env archivingRaises) in
/-- The states after steps none of which closes the stream of an active run. -/
def Serving.ReachableOutlasting (shared : P × E) (s : Serving K P E) : Prop :=
  Relation.ReflTransGen (fun s t => ∃ action, Serving.Step server env archivingRaises s action t ∧
    Outlasts s action) (.initial server shared) s

/-- As long as every client whose stream is closed has seen its run through, no more runs are
active than the server has slots. -/
theorem runs_bounded_of_outlasting (shared : P × E) {s : Serving K P E}
    (h : Serving.ReachableOutlasting server env archivingRaises shared s) :
    ∀ n ∈ server.maxConcurrentRuns, s.activeRuns ≤ n := by
  intro n hn
  have hinv : s.Inv server env archivingRaises := by
    induction h with
    | refl => exact .initial shared
    | tail _ hstep ih =>
      obtain ⟨action, step, houtlasts⟩ := hstep
      exact step.inv ih houtlasts
  exact hinv.activeRuns_le hn

end Bound

section Examples

/-- A server with one slot that streams an idle session to everyone. -/
def singleSlot : StreamingUiServer ℚ Unit Unit where
  sessionFactory shared := (.ok (idleSession (lit "task") strip_plain), shared)
  maxConcurrentRuns := some 1
  positive n hn := by
    cases hn
    exact Nat.one_pos

/-- A server with one slot that streams a session whose run fails. -/
def failingSlot : StreamingUiServer ℚ Unit Unit where
  sessionFactory shared := (.ok failingSession, shared)
  maxConcurrentRuns := some 1
  positive n hn := by
    cases hn
    exact Nat.one_pos

/-- A client leaves when its run has failed, and another has its run under way. -/
theorem next_client_served : ∃ s, Serving.ReachableOutlasting failingSlot (stillSession none) False
    ((), ()) s ∧ s.connections.map Connection.handler = [.closed, .streaming] ∧
      s.activeRuns = 1 := by
  have hquiet : ∀ {s : Serving ℚ Unit Unit} {action : ServerAction},
      (∀ i, action ≠ .abandon i) → Outlasts s action := fun h i hi => absurd hi (h i)
  refine ⟨_, .tail (.tail (.tail (.tail (.tail (.tail (.tail (.tail (.tail (.tail (.tail (.tail (.tail
    (.tail (.tail (.tail (.tail (.tail (.tail .refl
    ⟨.connect, .connect, hquiet (by simp)⟩)
    ⟨.acquire 0, .acquire rfl rfl rfl, hquiet (by simp)⟩)
    ⟨.opened 0, .opened rfl rfl rfl, hquiet (by simp)⟩)
    ⟨.serve 0 .start, .serve rfl rfl rfl (.start () rfl) (by decide), hquiet (by simp)⟩)
    ⟨.work 0, .work rfl rfl (.work (.search (.advance .start rfl (sink_quiet _ _ _ _)) (by simp))),
      hquiet (by simp)⟩)
    ⟨.work 0, .work rfl rfl (.work (.poll (by decide))), hquiet (by simp)⟩)
    ⟨.work 0, .work rfl rfl (.work (.search (.begin (by decide)) (by simp))), hquiet (by simp)⟩)
    ⟨.work 0, .work rfl rfl (.work (.search (.found (n := 0) (by decide) rfl rfl (by decide))
      (by simp))), hquiet (by simp)⟩)
    ⟨.work 0, .work rfl rfl (.work (.search (.advance (.expand 0) rfl (sink_quiet _ _ _ _))
      (by simp))), hquiet (by simp)⟩)
    ⟨.work 0, .work rfl rfl (.work (.search (.generateRaised rfl rfl) (by simp))),
      hquiet (by simp)⟩)
    ⟨.work 0, .work rfl rfl (.work (.search (.advance (.failed _) rfl (sink_quiet _ _ _ _))
      (by simp))), hquiet (by simp)⟩)
    ⟨.serve 0 .get, .serve rfl rfl rfl (.get rfl rfl) (by decide), hquiet (by simp)⟩)
    ⟨.abandon 0, .abandon rfl rfl rfl (.close rfl), fun i hi c hc => by
      cases hi
      cases hc
      rfl⟩)
    ⟨.leave 0, .leave rfl rfl, hquiet (by simp)⟩)
    ⟨.connect, .connect, hquiet (by simp)⟩)
    ⟨.acquire 1, .acquire rfl rfl rfl, hquiet (by simp)⟩)
    ⟨.opened 1, .opened rfl rfl rfl, hquiet (by simp)⟩)
    ⟨.serve 1 .start, .serve rfl rfl rfl (.start () rfl) (by decide), hquiet (by simp)⟩)
    ⟨.work 1, .work rfl rfl (.work (.search (.advance .start rfl (sink_quiet _ _ _ _)) (by simp))),
      hquiet (by simp)⟩, ?_, ?_⟩
  · rfl
  · rfl

/-- The slot of the one who left bounds the runs again. -/
theorem runs_bounded_single : ∃ s, Serving.ReachableOutlasting failingSlot (stillSession none) False
    ((), ()) s ∧ s.connections.map Connection.handler = [.closed, .streaming] ∧ s.activeRuns = 1 ∧
      ∀ n ∈ failingSlot.maxConcurrentRuns, s.activeRuns ≤ n := by
  obtain ⟨s, hreach, hhandlers, hactive⟩ := next_client_served
  exact ⟨s, hreach, hhandlers, hactive, runs_bounded_of_outlasting ((), ()) hreach⟩

/-- A client leaves at once, its run goes on, and the next client gets its slot. -/
theorem two_runs_in_one_slot : ∃ s, Serving.Reachable singleSlot (stillSession none) False
    ((), ()) s ∧ s.activeRuns = 2 := by
  refine ⟨_, .tail (.tail (.tail (.tail (.tail (.tail (.tail (.tail (.tail (.tail (.tail (.tail
    (.tail .refl
    ⟨.connect, .connect⟩)
    ⟨.acquire 0, .acquire rfl rfl rfl⟩)
    ⟨.opened 0, .opened rfl rfl rfl⟩)
    ⟨.serve 0 .start, .serve rfl rfl rfl (.start () rfl) (by decide)⟩)
    ⟨.work 0, .work rfl rfl (.work (.search (.advance .start rfl (sink_quiet _ _ _ _)) (by simp)))⟩)
    ⟨.serve 0 .get, .serve rfl rfl rfl (.get rfl rfl) (by decide)⟩)
    ⟨.abandon 0, .abandon rfl rfl rfl (.close rfl)⟩)
    ⟨.leave 0, .leave rfl rfl⟩)
    ⟨.connect, .connect⟩)
    ⟨.acquire 1, .acquire rfl rfl rfl⟩)
    ⟨.opened 1, .opened rfl rfl rfl⟩)
    ⟨.serve 1 .start, .serve rfl rfl rfl (.start () rfl) (by decide)⟩)
    ⟨.work 1, .work rfl rfl (.work (.search (.advance .start rfl (sink_quiet _ _ _ _)) (by simp)))⟩, ?_⟩
  rfl

/-- So the cap does not bound the active runs. -/
theorem slot_reused_under_active_run : ¬ ∀ s, Serving.Reachable singleSlot (stillSession none) False
    ((), ()) s → ∀ n ∈ singleSlot.maxConcurrentRuns, s.activeRuns ≤ n := by
  intro h
  obtain ⟨s, hreach, hactive⟩ := two_runs_in_one_slot
  have hle := h s hreach 1 rfl
  omega

end Examples

end CognitiveTree.Ui
