import CognitiveTree.Sandbox.Extraction
import CognitiveTree.Search.Metadata

/-!
# Evaluation by execution

The payload of a thought is run together with a validation harness, the record of the run
is stored under its own metadata key, and the verdict grades the record. The executor is
any function of the request and of the hidden world; it may raise.
-/

namespace CognitiveTree.Sandbox

open Search

/-- How an execution attempt concluded. -/
inductive ExecutionStatus where
  | completed
  | timeout
  | sandboxError
  deriving DecidableEq, Repr

/-- The enumeration value. -/
def ExecutionStatus.value : ExecutionStatus → Str
  | .completed => lit "completed"
  | .timeout => lit "timeout"
  | .sandboxError => lit "sandbox_error"

variable {K W : Type} [PyFloat K]

/-- One payload submission; the code passed its check. -/
structure ExecutionRequest (K : Type) [PyFloat K] where
  code : Str
  stdin : Str
  timeoutSeconds : Option K
  payload : Str.strip code ≠ []
  deadline : (timeoutSeconds.any fun seconds => PyFloat.le seconds PyFloat.zero) = false

/-- `ExecutionRequest.__post_init__`. -/
def ExecutionRequest.create (code stdin : Str) (timeoutSeconds : Option K) :
    Except Exc (ExecutionRequest K) :=
  if payload : Str.strip code = [] then
    .error (valueError (lit "code must be a non-empty payload"))
  else if deadline : (timeoutSeconds.any fun seconds => PyFloat.le seconds PyFloat.zero) = true then
    .error (valueError (lit "timeout_seconds override must be positive"))
  else .ok ⟨code, stdin, timeoutSeconds, payload, by simpa using deadline⟩

/-- The record of one execution attempt. -/
structure ExecutionResult (K : Type) where
  status : ExecutionStatus
  exitCode : Option Int
  stdout : Str
  stderr : Str
  durationSeconds : K
  truncated : Bool
  detail : Str

namespace ExecutionResult

/-- The payload ran to completion and exited cleanly. -/
def ok (r : ExecutionResult K) : Bool := r.status = .completed && r.exitCode = some 0

/-- The exit code as a metadata value. -/
def exitValue (r : ExecutionResult K) : PyVal K :=
  match r.exitCode with
  | none => .none
  | some code => .int code

/-- `result.to_dict()`. -/
def toDict (r : ExecutionResult K) : PyVal K :=
  .dict [(lit "status", .str r.status.value), (lit "exit_code", r.exitValue),
    (lit "stdout", .str r.stdout), (lit "stderr", .str r.stderr),
    (lit "duration_seconds", .float (PyFloat.round r.durationSeconds 4)),
    (lit "truncated", .bool r.truncated), (lit "detail", .str r.detail)]

end ExecutionResult

/-- `METADATA_KEY`. -/
def executionKey : Str := lit "execution"

/-- Grades thoughts by running their payload; the scores passed their check. -/
structure CodeExecutionEvaluator (K W : Type) [PyFloat K] where
  executor : ExecutionRequest K → W → Except Exc (ExecutionResult K) × W
  harness : Str
  successScore : K
  failureScore : K
  timeoutScore : K
  missingPayloadScore : K
  terminalOnSuccess : Bool
  scores : (PyFloat.le PyFloat.zero failureScore && PyFloat.le failureScore successScore &&
    PyFloat.le successScore PyFloat.one) = true

namespace CodeExecutionEvaluator

/-- `CodeExecutionEvaluator(...)`. -/
def create (executor : ExecutionRequest K → W → Except Exc (ExecutionResult K) × W)
    (validationHarness : Str) (successScore failureScore timeoutScore missingPayloadScore : K)
    (terminalOnSuccess : Bool) : Except Exc (CodeExecutionEvaluator K W) :=
  if scores : (PyFloat.le PyFloat.zero failureScore && PyFloat.le failureScore successScore &&
      PyFloat.le successScore PyFloat.one) = true then
    .ok ⟨executor, Str.rstrip validationHarness, successScore, failureScore, timeoutScore,
      missingPayloadScore, terminalOnSuccess, scores⟩
  else .error (valueError (lit "scores must satisfy 0 <= failure <= success <= 1"))

/-- The payload followed by the harness, when there is one. -/
def program (ev : CodeExecutionEvaluator K W) (payload : Str) : Str :=
  if ev.harness = [] then payload else payload ++ lit "\n\n" ++ ev.harness ++ lit "\n"

/-- The printed exit code. -/
def exitText : Option Int → Str
  | none => lit "None"
  | some code => Str.ofInt code

/-- `_failure_rationale(exit_code, stderr)`. -/
def failureRationale (exitCode : Option Int) (stderr : Str) : Str :=
  let lastLine := Str.lastMeaningfulLine stderr
  lit "payload failed with exit code " ++ exitText exitCode ++
    if lastLine = [] then [] else lit ": " ++ lastLine

/-- The exception of an infrastructure fault. -/
def sandboxError (r : ExecutionResult K) : Exc :=
  ⟨lit "SandboxError", lit "sandbox infrastructure fault: " ++
    if r.detail = [] then r.stderr.take 200 else r.detail⟩

/-- The verdict on a record. -/
def grade (ev : CodeExecutionEvaluator K W) (r : ExecutionResult K) : Except Exc (Evaluation K) :=
  if r.status = .sandboxError then .error (sandboxError r)
  else if r.status = .timeout then
    Evaluation.create ev.timeoutScore false (if r.detail = [] then lit "payload timed out" else r.detail)
  else if r.ok then
    Evaluation.create ev.successScore ev.terminalOnSuccess
      (lit "payload and validation harness executed cleanly")
  else Evaluation.create ev.failureScore false (failureRationale r.exitCode r.stderr)

/-- `node.metadata["execution"] = result.to_dict()`. -/
def record (metadata : Nat → Metadata K) (node : Nat) (r : ExecutionResult K) : Nat → Metadata K :=
  fun x => if x = node then Dict.set (metadata x) executionKey r.toDict else metadata x

/-- `evaluator.evaluate(node)`. -/
def evaluate (ev : CodeExecutionEvaluator K W) (node : Nat) : Call K W (Evaluation K) :=
  fun arena metadata world =>
    match extractPythonPayload (arena.node node).content with
    | none => ⟨Evaluation.create ev.missingPayloadScore false (lit "no executable payload found"),
        metadata, world⟩
    | some payload => match ExecutionRequest.create (ev.program payload) [] none with
      | .error e => ⟨.error e, metadata, world⟩
      | .ok request => match ev.executor request world with
        | (.error e, world) => ⟨.error e, metadata, world⟩
        | (.ok result, world) => ⟨ev.grade result, record metadata node result, world⟩

/-- The program of an extracted payload is a valid request. -/
theorem exists_request (ev : CodeExecutionEvaluator K W) {text payload : Str}
    (h : extractPythonPayload text = some payload) :
    ∃ request : ExecutionRequest K, ExecutionRequest.create (ev.program payload) [] none =
      .ok request ∧ request.code = ev.program payload := by
  obtain ⟨hne, hstrip⟩ := extractPythonPayload_ne_nil h
  have hprogram : Str.strip (ev.program payload) ≠ [] := by
    intro hnil
    rw [Str.strip_eq_nil_iff] at hnil
    refine hne (hstrip.symm.trans (Str.strip_eq_nil_iff.mpr fun c hc => hnil c ?_))
    unfold program
    split
    · exact hc
    · simp [hc]
  refine ⟨⟨ev.program payload, [], none, hprogram, rfl⟩, ?_, rfl⟩
  rw [ExecutionRequest.create, dif_neg hprogram, dif_neg (by simp)]

/-- What a call of the evaluator does: it grades a thought without payload, or the executor
raises, or its record is stored and graded. -/
inductive Evaluated (ev : CodeExecutionEvaluator K W) (node : Nat) (content : Str)
    (metadata : Nat → Metadata K) (world : W) : Reply K W (Evaluation K) → Prop
  | bare (none : extractPythonPayload content = none) :
      Evaluated ev node content metadata world ⟨Evaluation.create ev.missingPayloadScore false
        (lit "no executable payload found"), metadata, world⟩
  | broken (payload : Str) (request : ExecutionRequest K) (e : Exc) (world' : W)
      (extracted : extractPythonPayload content = some payload)
      (code : request.code = ev.program payload)
      (executed : ev.executor request world = (.error e, world')) :
      Evaluated ev node content metadata world ⟨.error e, metadata, world'⟩
  | ran (payload : Str) (request : ExecutionRequest K) (result : ExecutionResult K) (world' : W)
      (extracted : extractPythonPayload content = some payload)
      (code : request.code = ev.program payload)
      (executed : ev.executor request world = (.ok result, world')) :
      Evaluated ev node content metadata world ⟨ev.grade result, record metadata node result, world'⟩

theorem evaluate_spec (ev : CodeExecutionEvaluator K W) (node : Nat) (arena : Arena K)
    (metadata : Nat → Metadata K) (world : W) :
    Evaluated ev node (arena.node node).content metadata world
      (ev.evaluate node arena metadata world) := by
  unfold evaluate
  cases hpayload : extractPythonPayload (arena.node node).content with
  | none => exact .bare hpayload
  | some payload =>
    obtain ⟨request, hrequest, hcode⟩ := exists_request ev hpayload
    simp only [hrequest]
    cases hexec : ev.executor request world with
    | mk answer world' =>
      cases answer with
      | error e => exact .broken payload request e world' hpayload hcode hexec
      | ok result => exact .ran payload request result world' hpayload hcode hexec

/-- Only the evaluated node's record changes, and only under the execution key. -/
theorem record_entry (metadata : Nat → Metadata K) (node x : Nat) (r : ExecutionResult K)
    (key : Str) : Dict.get? (record metadata node r x) key =
      if x = node ∧ key = executionKey then some r.toDict else Dict.get? (metadata x) key := by
  unfold record
  by_cases hx : x = node
  · rw [if_pos hx, Dict.get?_set]
    simp [hx]
  · simp [hx]

/-- The evaluator leaves every other key alone. -/
theorem evaluate_leaves (ev : CodeExecutionEvaluator K W) (node : Nat) {key : Str}
    (hkey : key ≠ executionKey) : Leaves (ev.evaluate node) key := by
  intro arena metadata world r
  have hspec := ev.evaluate_spec node arena metadata world
  generalize ev.evaluate node arena metadata world = reply at hspec ⊢
  cases hspec with
  | bare => rfl
  | broken => rfl
  | ran payload request result world' =>
    rw [record_entry, if_neg fun h => hkey h.2]

/-- A verdict that ends the search grades a clean exit. -/
theorem ok_of_grade_terminal {ev : CodeExecutionEvaluator K W} {r : ExecutionResult K}
    {v : Evaluation K} (h : ev.grade r = .ok v) (hv : v.isTerminal = true) :
    r.status = .completed ∧ r.exitCode = some 0 := by
  have hcreate : ∀ {score : K} {rationale : Str}, Evaluation.create score false rationale = .ok v →
      v.isTerminal = false := by
    intro score rationale hc
    unfold Evaluation.create at hc
    split at hc
    · cases hc
      rfl
    · cases hc
  unfold grade at h
  split at h
  · cases h
  split at h
  · rw [hcreate h] at hv
    cases hv
  split at h
  · rename_i hok
    simpa [ExecutionResult.ok] using hok
  · rw [hcreate h] at hv
    cases hv

end CodeExecutionEvaluator

end CognitiveTree.Sandbox
