import CognitiveTree.Search.Phase
import CognitiveTree.Search.Tree

/-!
# Configuration, policies and runtime

A policy is any function of the nodes it can reach, of all node metadata and of a
hidden world that every external call may change; it answers or raises, and hands
back the metadata and the world. The arena is read-only to it. The runtime lists
what else the controller asks of its surroundings.
-/

namespace CognitiveTree.Search

/-- Values stored in node metadata; `object` is any value without a JSON form. -/
inductive PyVal (K : Type) where
  | none
  | bool (b : Bool)
  | int (i : Int)
  | float (x : K)
  | str (s : Str)
  | list (xs : List (PyVal K))
  | dict (items : List (Str × PyVal K))
  | object (tag : Nat)

/-- The metadata dictionary of one node. -/
abbrev Metadata (K : Type) := Dict Str (PyVal K)

/-- The fields of `SearchConfig`. -/
structure ConfigFields (K : Type) where
  maxIterations : Nat
  maxDepth : Nat
  branchingFactor : Nat
  explorationWeight : K
  acceptThreshold : K
  pruneThreshold : K
  seed : Option Int
  maxWallSeconds : Option K
  evaluationWorkers : Nat

/-- `MAX_SUPPORTED_DEPTH`. -/
def maxSupportedDepth : Nat := 256

def valueError (message : Str) : Exc := ⟨lit "ValueError", message⟩

variable {K W : Type} [PyFloat K]

/-- `SearchConfig.__post_init__`. -/
def ConfigFields.postInit (c : ConfigFields K) : Except Exc Unit :=
  if c.maxIterations < 1 then
    .error (valueError (lit "max_iterations must be a positive integer"))
  else if c.maxDepth < 1 then
    .error (valueError (lit "max_depth must be a positive integer"))
  else if maxSupportedDepth < c.maxDepth then
    .error (valueError (lit "max_depth must not exceed " ++ Str.ofNat maxSupportedDepth ++
      lit "; deeper trees cannot be serialized to JSON for archiving or streaming"))
  else if c.branchingFactor < 1 then
    .error (valueError (lit "branching_factor must be a positive integer"))
  else if PyFloat.lt c.explorationWeight PyFloat.zero then
    .error (valueError (lit "exploration_weight must be non-negative"))
  else if !(PyFloat.le PyFloat.zero c.pruneThreshold &&
      PyFloat.lt c.pruneThreshold c.acceptThreshold &&
      PyFloat.le c.acceptThreshold PyFloat.one) then
    .error (valueError (lit
      "thresholds must satisfy 0.0 <= prune_threshold < accept_threshold <= 1.0"))
  else if c.maxWallSeconds.any fun seconds => PyFloat.le seconds PyFloat.zero then
    .error (valueError (lit "max_wall_seconds must be positive when provided"))
  else if c.evaluationWorkers < 1 then
    .error (valueError (lit "evaluation_workers must be a positive integer"))
  else .ok ()

/-- A configuration that passed its own check. -/
structure SearchConfig (K : Type) [PyFloat K] extends ConfigFields K where
  checked : toConfigFields.postInit = .ok ()

/-- Constructing a configuration runs its check. -/
def ConfigFields.create (c : ConfigFields K) : Except Exc (SearchConfig K) :=
  match h : c.postInit with
  | .ok () => .ok ⟨c, h⟩
  | .error e => .error e

theorem ConfigFields.of_create {c : ConfigFields K} {config : SearchConfig K}
    (h : c.create = .ok config) : config.toConfigFields = c := by
  unfold create at h
  split at h
  · cases h
    rfl
  · cases h

namespace SearchConfig

/-- What the check of a configuration guarantees about its integers. -/
theorem bounds (c : SearchConfig K) : 1 ≤ c.maxIterations ∧ 1 ≤ c.maxDepth ∧
    c.maxDepth ≤ maxSupportedDepth ∧ 1 ≤ c.branchingFactor ∧ 1 ≤ c.evaluationWorkers := by
  have h := c.checked
  unfold ConfigFields.postInit at h
  split at h
  · cases h
  split at h
  · cases h
  split at h
  · cases h
  split at h
  · cases h
  split at h
  · cases h
  split at h
  · cases h
  split at h
  · cases h
  split at h
  · cases h
  refine ⟨?_, ?_, ?_, ?_, ?_⟩ <;> omega

/-- The threshold of acceptance is one at most. -/
theorem acceptThreshold_le_one (c : SearchConfig K) :
    PyFloat.le c.acceptThreshold PyFloat.one = true := by
  have h := c.checked
  unfold ConfigFields.postInit at h
  split at h
  · cases h
  split at h
  · cases h
  split at h
  · cases h
  split at h
  · cases h
  split at h
  · cases h
  split at h
  · cases h
  · rename_i hthresholds
    simp only [Bool.not_eq_true', Bool.and_eq_false_iff, not_or, Bool.not_eq_false] at hthresholds
    exact hthresholds.2

end SearchConfig

/-- Verdict of an evaluator; the score passed its range check. -/
structure Evaluation (K : Type) [PyFloat K] where
  score : K
  isTerminal : Bool
  rationale : Str
  unit : PyFloat.inUnit score = true

/-- `Evaluation.__post_init__`. -/
def Evaluation.create (score : K) (isTerminal : Bool) (rationale : Str) :
    Except Exc (Evaluation K) :=
  if unit : PyFloat.inUnit score = true then .ok ⟨score, isTerminal, rationale, unit⟩
  else .error (valueError (lit "score must lie within [0.0, 1.0]"))

/-- Taxonomy of diagnosable failures. -/
inductive FailureClass where
  | noExecution
  | timeout
  | syntaxError
  | assertion
  | exception
  deriving DecidableEq, Repr

/-- The enumeration value. -/
def FailureClass.value : FailureClass → Str
  | .noExecution => lit "no_execution"
  | .timeout => lit "timeout"
  | .syntaxError => lit "syntax"
  | .assertion => lit "assertion"
  | .exception => lit "exception"

/-- Structured diagnosis of a failed thought; the severity passed its range check. -/
structure Critique (K : Type) [PyFloat K] where
  failureClass : FailureClass
  summary : Str
  guidance : Str
  severity : K
  unit : PyFloat.inUnit severity = true

/-- `Critique.__post_init__`. -/
def Critique.create (failureClass : FailureClass) (summary guidance : Str) (severity : K) :
    Except Exc (Critique K) :=
  if unit : PyFloat.inUnit severity = true then
    .ok ⟨failureClass, summary, guidance, severity, unit⟩
  else .error (valueError (lit "severity must lie within [0.0, 1.0]"))

/-- `critique.to_dict()`. -/
def Critique.toDict (c : Critique K) : PyVal K :=
  .dict [(lit "failure_class", .str c.failureClass.value), (lit "summary", .str c.summary),
    (lit "guidance", .str c.guidance), (lit "severity", .float (PyFloat.round c.severity 4))]

/-- `CRITIQUE_METADATA_KEY`. -/
def critiqueMetadataKey : Str := lit "critique"

/-- What a policy call leaves behind: an answer or an exception, the metadata of
every node, and the hidden world. -/
structure Reply (K W α : Type) where
  answer : Except Exc α
  metadata : Nat → Metadata K
  world : W

/-- One policy call, given the nodes, their metadata and the world. -/
abbrev Call (K W α : Type) := Arena K → (Nat → Metadata K) → W → Reply K W α

/-- Notification emitted as the controller changes phase. -/
structure SearchEvent where
  iteration : Nat
  phase : SearchPhase
  nodeId : Option Str
  detail : Str

/-- A controller wired to its policies. -/
structure TreeSearchController (K W : Type) [PyFloat K] where
  config : SearchConfig K
  /-- `generator.generate(node, k)` -/
  generator : Nat → Nat → Call K W (List Str)
  /-- `evaluator.evaluate(node)` -/
  evaluator : Nat → Call K W (Evaluation K)
  /-- `on_event(event)`, which may also read the active tree -/
  onEvent : Option (SearchEvent → ThoughtTree K → W → Except Exc Unit × W)
  /-- `critic.critique(node)` -/
  critic : Option (Nat → Call K W (Option (Critique K)))
  /-- `revision_policy.revise(node)` -/
  revisionPolicy : Option (Nat → Call K W Bool)
  /-- `reward_model.shape(node, base_score, critique)` -/
  rewardModel : Option (Nat → K → Option (Critique K) → Call K W K)
  /-- `stop_condition.check()` -/
  stopCondition : Option (W → Except Exc (Option Str) × W)

/-- A worker-pool event: the next queued task starts, a running task finishes, or the
consumer that met a failed result cancels what has not started. -/
inductive PoolEvent where
  | start
  | finish (running : Nat)
  | cancel
  deriving DecidableEq, Repr

/-- What the language runtime supplies to one run. -/
structure Runtime (K W : Type) where
  /-- `time.monotonic()` -/
  monotonic : W → K × W
  /-- the successive `random()` values of `random.Random(seed)` -/
  random : Option Int → Nat → K
  /-- the identifier of the `n`-th node created in the run -/
  freshId : Nat → Str
  /-- `cancel_event.is_set()`, when the caller passed an event -/
  cancelled : Option (W → Bool × W)
  /-- how the workers of one evaluation batch interleave -/
  schedule : Arena K → List Nat → W → List PoolEvent

end CognitiveTree.Search
