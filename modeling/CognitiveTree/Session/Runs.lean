import CognitiveTree.Observability.Accounts
import CognitiveTree.Persistence.Archive
import CognitiveTree.Search.Truncation
import CognitiveTree.Ui.Events

/-!
# Reasoning sessions

A session runs its task on a new controller, sums the run up and archives it. A streamed run puts
its envelopes on a queue: those of its sink during the search, two more at its end, and an end mark
whatever happens.
-/

namespace CognitiveTree.Session

open Search Observability Persistence Ui

/-- The names of `OSError` and of the exceptions that derive from it. -/
def osErrors : List Str :=
  [lit "OSError", lit "BlockingIOError", lit "ChildProcessError", lit "ConnectionError",
    lit "BrokenPipeError", lit "ConnectionAbortedError", lit "ConnectionRefusedError",
    lit "ConnectionResetError", lit "FileExistsError", lit "FileNotFoundError",
    lit "InterruptedError", lit "IsADirectoryError", lit "NotADirectoryError",
    lit "PermissionError", lit "ProcessLookupError", lit "TimeoutError", lit "UnsupportedOperation"]

/-- `isinstance(exc, OSError)`. -/
def isOsError (e : Exc) : Bool := osErrors.contains e.typeName

/-- The queue of a stream, oldest first; the end mark is `none`. -/
abbrev Queue (K : Type) := List (Option (PyVal K))

variable {K P E : Type} [PyFloat K]

/-- `_SNAPSHOT_PHASES`. -/
def takesSnapshot (p : SearchPhase) : Bool := p == .backpropagation || p.isTerminal

/-- What a session asks of its surroundings, which see the state of the policies. -/
structure SessionRuntime (K P E : Type) where
  monotonic : P → E → K × E
  random : Option Int → Nat → K
  freshId : Nat → Str
  schedule : Arena K → List Nat → P → List PoolEvent
  /-- `time.time()` -/
  time : E → K × E
  storage : Storage E
  /-- `datetime.now(timezone.utc).strftime("%Y%m%dT%H%M%SZ")` -/
  stamp : E → Str × E
  /-- `uuid.uuid4().hex[:6]` -/
  suffix : E → Str × E

/-- A task, and what its factory wires a controller to. -/
structure ReasoningSession (K P E : Type) [PyFloat K] where
  task : Str
  config : SearchConfig K
  policies : Policies K P
  stopCondition : Option (P → E → Except Exc (Option Str) × E)
  archiveDir : Option PurePath
  usage : Option (P → TokenUsage)
  checked : Str.strip task ≠ []

/-- An event sink: it changes the surroundings and the queue. -/
abbrev Sink (K P E : Type) [PyFloat K] :=
  SearchEvent → ThoughtTree K → P → E × Queue K → E × Queue K

/-- The sink of a stream. -/
def sink (env : SessionRuntime K P E) : Sink K P E := fun event tree _ x =>
  let now := env.time x.1
  let queue := x.2 ++ [some (phaseEnvelope event now.1)]
  if takesSnapshot event.phase then
    let later := env.time now.2
    match snapshotEnvelope env.freshId tree.arena later.1 with
    | .ok envelope => (later.2, queue ++ [some envelope])
    | .error _ => (later.2, queue) -- never: every tree has its snapshot
  else (now.2, queue)

/-- The surroundings of a run with this cancel signal and sink. -/
def surroundings (env : SessionRuntime K P E) (session : ReasoningSession K P E)
    (cancelled : Option (E → Bool × E)) (sink : Option (Sink K P E)) :
    Surroundings K P (E × Queue K) where
  monotonic p x := ((env.monotonic p x.1).1, ((env.monotonic p x.1).2, x.2))
  freshId := env.freshId
  cancelled := cancelled.map fun f _ x => ((f x.1).1, ((f x.1).2, x.2))
  stopCondition := session.stopCondition.map fun f p x => ((f p x.1).1, ((f p x.1).2, x.2))
  onEvent := sink

/-- A program of a session. -/
abbrev Work (K P E α : Type) := Filed (P × E × Queue K) α

section Programs

variable {α : Type}

omit [PyFloat K] in
/-- A program that leaves the policies and the queue alone. -/
def beside (x : Filed E α) : Work K P E α := fun s =>
  match x (s.1.2.1, s.2) with
  | .ok a t => .ok a ((s.1.1, t.1, s.1.2.2), t.2)
  | .error e t => .error e ((s.1.1, t.1, s.1.2.2), t.2)

/-- `x` with every `OSError` it raises turned into `none`. -/
def tolerant (x : Filed E α) : Filed E (Option α) := fun s =>
  match x s with
  | .ok a t => .ok (some a) t
  | .error (.raised e) t => if isOsError e then .ok none t else .error (.raised e) t
  | .error .diverged t => .error .diverged t

omit [PyFloat K] in
/-- `try: x finally: envelopes.put(None)`. -/
def marked (x : Work K P E Unit) : Work K P E Unit := fun s =>
  match x s with
  | .ok _ t => .ok () ((t.1.1, t.1.2.1, t.1.2.2 ++ [none]), t.2)
  | .error e t => .error e ((t.1.1, t.1.2.1, t.1.2.2 ++ [none]), t.2)

omit [PyFloat K] in
/-- `envelopes.put(envelope)` of an envelope that is made at this time. -/
def put (env : SessionRuntime K P E) (envelope : K → PyVal K) : Work K P E Unit := fun s =>
  let now := env.time s.1.2.1
  .ok () ((s.1.1, now.2, s.1.2.2 ++ [some (envelope now.1)]), s.2)

end Programs

namespace ReasoningSession

variable (env : SessionRuntime K P E) (session : ReasoningSession K P E)

/-- `controller.run(task, cancel_event)` on a new controller. -/
def search (cancelled : Option (E → Bool × E)) (sink : Option (Sink K P E)) :
    EStateM Signal (P × E × Queue K) (SearchResult K) := fun world =>
  let outside := surroundings env session cancelled sink
  match (session.policies.controller session.config outside).run
      (outside.runtime env.random env.schedule) session.task 0 world with
  | .ok r s => .ok r s.world
  | .error e s => .error e s.world

/-- `self._usage() if self._usage is not None else None`. -/
def tally (p : P) : Option TokenUsage := session.usage.map fun usage => usage p

/-- The consumption since an earlier tally. -/
def spent (baseline : Option TokenUsage) (p : P) : Option TokenUsage :=
  match session.tally p, baseline with
  | some usage, some earlier => some (usage - earlier)
  | _, _ => none

/-- `f"{stamp}-{outcome}-{suffix}.json"`. -/
def fileName (outcome : SearchOutcome) (e : E) : Str × E :=
  let stamp := env.stamp e
  let suffix := env.suffix stamp.2
  (stamp.1 ++ lit "-" ++ outcome.value ++ lit "-" ++ suffix.1 ++ lit ".json", suffix.2)

/-- `metrics_envelope(metrics.to_dict())`. -/
def metricsMessage (metrics : RunMetrics K) (now : K) : PyVal K :=
  .dict [(lit "type", .str (lit "metrics")), (lit "metrics", metrics.toDict),
    (lit "ts", .float now)]

theorem isEnvelope_metricsMessage (metrics : RunMetrics K) (now : K) :
    IsEnvelope (lit "metrics") (metricsMessage metrics now) := .metrics _ now

variable [PyNumber K] [PyDecimal K]

omit [PyDecimal K] in
/-- `_metrics(result, baseline)`. -/
def metrics (result : SearchResult K) (baseline : Option TokenUsage) :
    Work K P E (RunMetrics K) := fun s =>
  orRaise (RunMetrics.fromResult result (session.spent baseline s.1.1)) s

/-- `_archive(result, metrics)`. -/
def archive (result : SearchResult K) (metrics : RunMetrics K) : Filed E (Option PurePath) :=
  match session.archiveDir with
  | none => pure none
  | some directory => do
    let name ← observed (fileName env result.outcome)
    tolerant (saveRun env.storage result (directory.join name) metrics.toDict)

/-- `_settle(result, metrics)`, which also logs what the metrics say. -/
def settle (result : SearchResult K) (metrics : RunMetrics K) : Work K P E Unit := do
  let _ ← beside (session.archive env result metrics)

/-- `run()`. -/
def run : Work K P E (SearchResult K) := do
  let s ← get
  let result ← inWorld (session.search env none none)
  let metrics ← session.metrics result (session.tally s.1.1)
  session.settle env result metrics
  pure result

/-- `work()`, the body of the worker thread of a stream, under its cancel event. -/
def work (cancelled : E → Bool × E) : Work K P E Unit := marked do
  let s ← get
  let result ← inWorld (session.search env (some cancelled) (some (sink env)))
  let metrics ← session.metrics result (session.tally s.1.1)
  session.settle env result metrics
  put env (metricsMessage metrics)
  put env (resultEnvelope env.freshId result)

end ReasoningSession

end CognitiveTree.Session
