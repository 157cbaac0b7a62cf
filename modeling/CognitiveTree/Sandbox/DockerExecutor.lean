import CognitiveTree.Sandbox.Capture
import CognitiveTree.Sandbox.Evaluation
import CognitiveTree.Sandbox.Payload

/-!
# The Docker executor

A run of the Docker client is classified by its exit code and its error output, and both may come
from the payload. What the client passes on for a payload that ended is reported as completed
unless it looks like a fault of the client itself.
-/

namespace CognitiveTree.Sandbox

open Search

/-- A character of `text.lower()`, as far as letters of the alphabet occur in it: beyond `A` to `Z`
only the dotted capital I and the Kelvin sign have such letters in their lower case. -/
def lowered (c : CodePoint) : Str :=
  if c.val = 0x130 then [105, 0x307] else if c.val = 0x212a then [107] else [Str.lowerChar c]

/-- `_DOCKER_CLI_ERROR`. -/
def dockerCliError : Int := 125

/-- The markers of an error message of the client. -/
def faultMarkers : List Str :=
  [lit "docker:", lit "error during connect", lit "no such image", lit "unable to find image"]

/-- `_is_cli_fault(returncode, stderr)`. -/
def isCliFault (returncode : Int) (stderr : Str) : Bool :=
  let text := stderr.flatMap lowered
  let cliFault := decide (returncode = dockerCliError) && faultMarkers.any (Str.contains text)
  let execFault := decide (returncode ∈ [126, 127]) && Str.contains text (lit "docker")
  cliFault || execFault

/-- What became of a child process: the exit code unless it was killed at the deadline, and the
chunks that its streams returned. -/
structure ChildRun where
  returncode : Option Int
  stdout : List Bytes
  stderr : List Bytes

/-- What `run_bounded` meets: no such program, another exception, or a child that was started. -/
inductive Launch where
  | missing
  | raised (e : Exc)
  | started (child : ChildRun)

variable {K W : Type} [PyFloat K]

/-- The fields of `DockerSandboxConfig` that an execution reads, and the format `.1f`. -/
structure DockerSandboxExecutor (K : Type) where
  dockerBinary : Str
  timeoutSeconds : K
  killGraceSeconds : K
  outputLimitChars : Nat
  fixed1 : K → Str
  /-- `repr` of a text -/
  quote : Str → Str

namespace DockerSandboxExecutor

/-- `execute(request)`, with the launch of the client under a deadline and the time it took. -/
def execute (docker : DockerSandboxExecutor K) (launch : Bytes → K → Launch) (duration : K)
    (request : ExecutionRequest K) : Except Exc (ExecutionResult K) :=
  let limit := docker.outputLimitChars
  let timeout := request.timeoutSeconds.getD docker.timeoutSeconds
  match framePayload request.code request.stdin with
  | none => .error ⟨lit "UnicodeEncodeError", lit "surrogates not allowed"⟩
  | some frame => match launch frame (PyFloat.add timeout docker.killGraceSeconds) with
    | .missing => .error ⟨lit "DockerUnavailableError",
        lit "docker binary " ++ docker.quote docker.dockerBinary ++ lit " not found"⟩
    | .raised e => .error e
    | .started child =>
      let out := BoundedReader.run child.stdout (.initial (captureBytesFor limit))
      let err := BoundedReader.run child.stderr (.initial (captureBytesFor limit))
      let (stdout, outDropped) := decodeCaptured out.data out.truncated limit
      let (stderr, errDropped) := decodeCaptured err.data err.truncated limit
      let truncated := outDropped || errDropped
      match child.returncode with
      | none => .ok ⟨.timeout, none, stdout, stderr, duration, truncated,
          lit "payload exceeded " ++ docker.fixed1 timeout ++ lit "s deadline; container removed"⟩
      | some returncode =>
        if dockerCliError ≤ returncode ∧ isCliFault returncode stderr = true then
          .ok ⟨.sandboxError, some returncode, stdout, stderr, duration, truncated,
            lit "docker CLI reported an infrastructure fault"⟩
        else .ok ⟨.completed, some returncode, stdout, stderr, duration, truncated, []⟩

/-- The execution is reported as completed with this exit code. -/
def Completed (answer : Except Exc (ExecutionResult K)) (code : Int) : Prop :=
  ∃ result, answer = .ok result ∧ result.status = .completed ∧ result.exitCode = some code

/-- The evaluator aborts the search with the execution's record. -/
def Aborts (ev : CodeExecutionEvaluator K W) (answer : Except Exc (ExecutionResult K)) : Prop :=
  ∃ result, answer = .ok result ∧ ev.grade result = .error (CodeExecutionEvaluator.sandboxError result)

/-- An exit code and an error output that read as a fault of the client. -/
def LooksLikeFault (code : Int) (stderr : Str) : Prop :=
  (code = 125 ∧ ∃ marker ∈ faultMarkers, marker <:+: stderr.flatMap lowered) ∨
    (code = 126 ∨ code = 127) ∧ lit "docker" <:+: stderr.flatMap lowered

theorem isCliFault_iff (code : Int) (stderr : Str) :
    isCliFault code stderr = true ↔ LooksLikeFault code stderr := by
  unfold isCliFault LooksLikeFault Str.contains
  simp only [Bool.or_eq_true, Bool.and_eq_true, decide_eq_true_eq, List.any_eq_true, List.mem_cons,
    List.not_mem_nil, or_false]
  rfl

instance (code : Int) (stderr : Str) : Decidable (LooksLikeFault code stderr) :=
  decidable_of_iff _ (isCliFault_iff code stderr)

/-- Only the record of an infrastructure fault is graded with its exception. -/
theorem aborts_iff (ev : CodeExecutionEvaluator K W) (result : ExecutionResult K) :
    ev.grade result = .error (CodeExecutionEvaluator.sandboxError result) ↔
      result.status = .sandboxError := by
  have hcreate : ∀ (score : K) (terminal : Bool) (rationale : Str),
      Evaluation.create score terminal rationale ≠
        .error (CodeExecutionEvaluator.sandboxError result) := by
    intro score terminal rationale h
    unfold Evaluation.create at h
    split at h
    · cases h
    · have hname := congrArg Exc.typeName (Except.error.inj h)
      revert hname
      change lit "ValueError" = lit "SandboxError" → False
      decide
  unfold CodeExecutionEvaluator.grade
  constructor
  · intro h
    split_ifs at h with hfault
    · exact hfault
    all_goals exact absurd h (hcreate _ _ _)
  · intro h
    rw [if_pos h]

/-- The execution of a payload whose client ended is a record with its exit code, of an
infrastructure fault exactly when the exit code and the kept part of the error output read as one. -/
theorem execute_ended (docker : DockerSandboxExecutor K) (launch : Bytes → K → Launch) (duration : K)
    (request : ExecutionRequest K) {frame : Bytes} {code : Int} {stdout stderr : List Bytes}
    (hframe : framePayload request.code request.stdin = some frame)
    (hlaunch : launch frame (PyFloat.add (request.timeoutSeconds.getD docker.timeoutSeconds)
      docker.killGraceSeconds) = .started ⟨some code, stdout, stderr⟩)
    (hchunks : ∀ chunk ∈ stderr, chunk ≠ []) :
    ∃ result, docker.execute launch duration request = .ok result ∧ result.exitCode = some code ∧
      result.status = if LooksLikeFault code
          ((Utf8.decodeReplace stderr.flatten).take docker.outputLimitChars)
        then .sandboxError else .completed := by
  have hcaptured := congrArg Prod.fst (bounded_capture_exact stderr hchunks docker.outputLimitChars)
  dsimp only at hcaptured
  unfold execute
  simp only [hframe, hlaunch, hcaptured]
  by_cases hfault : LooksLikeFault code
      ((Utf8.decodeReplace stderr.flatten).take docker.outputLimitChars)
  · have hcode : dockerCliError ≤ code := by
      unfold dockerCliError
      rcases hfault with ⟨h, -⟩ | ⟨h | h, -⟩ <;> omega
    rw [if_pos ⟨hcode, (isCliFault_iff _ _).mpr hfault⟩]
    exact ⟨_, rfl, rfl, (if_pos hfault).symm⟩
  · rw [if_neg fun h => hfault ((isCliFault_iff _ _).mp h.2)]
    exact ⟨_, rfl, rfl, (if_neg hfault).symm⟩

/-- A payload that ended by itself is reported as completed with its exit code, and no evaluator
aborts the search over it, exactly when its exit code and the kept part of its error output do not
read as a fault of the client. -/
theorem execute_contains_iff (docker : DockerSandboxExecutor K) (launch : Bytes → K → Launch)
    (duration : K) (request : ExecutionRequest K) {frame : Bytes} {code : Int}
    {stdout stderr : List Bytes}
    (hframe : framePayload request.code request.stdin = some frame)
    (hlaunch : launch frame (PyFloat.add (request.timeoutSeconds.getD docker.timeoutSeconds)
      docker.killGraceSeconds) = .started ⟨some code, stdout, stderr⟩)
    (hchunks : ∀ chunk ∈ stderr, chunk ≠ []) :
    (Completed (docker.execute launch duration request) code ∧
      ∀ ev : CodeExecutionEvaluator K W, ¬ Aborts ev (docker.execute launch duration request)) ↔
    ¬ LooksLikeFault code ((Utf8.decodeReplace stderr.flatten).take docker.outputLimitChars) := by
  obtain ⟨result, hresult, hcode, hstatus⟩ :=
    docker.execute_ended launch duration request hframe hlaunch hchunks
  rw [hresult]
  constructor
  · rintro ⟨⟨result', hresult', hcompleted, -⟩, -⟩ hfault
    cases hresult'
    rw [hcompleted, if_pos hfault] at hstatus
    cases hstatus
  · intro hfault
    rw [if_neg hfault] at hstatus
    refine ⟨⟨result, rfl, hstatus, hcode⟩, ?_⟩
    rintro ev ⟨result', hresult', haborts⟩
    cases hresult'
    rw [aborts_iff, hstatus] at haborts
    cases haborts

end DockerSandboxExecutor

open DockerSandboxExecutor

/-- An executor that keeps a hundred characters. -/
def smallDocker : DockerSandboxExecutor ℚ where
  dockerBinary := lit "docker"
  timeoutSeconds := 10
  killGraceSeconds := 10
  outputLimitChars := 100
  fixed1 _ := []
  quote s := s

/-- The request of a payload that prints something before it exits. -/
def exitingRequest : ExecutionRequest ℚ where
  code := lit "import sys; print('done', file=sys.stderr); sys.exit(125)"
  stdin := []
  timeoutSeconds := none
  payload := by decide
  deadline := rfl

/-- A client that passes on this exit code and this error output. -/
def forwarding (code : Int) (stderr : Str) : Bytes → ℚ → Launch :=
  fun _ _ => .started ⟨some code, [], [stderr.map fun c => UInt8.ofNat c.val]⟩

/-- Exit code 125 alone is no fault. -/
theorem execute_contains_iff_small :
    Completed (smallDocker.execute (forwarding 125 (lit "done\n")) 1 exitingRequest) 125 ∧
      ∀ ev : CodeExecutionEvaluator ℚ Unit,
        ¬ Aborts ev (smallDocker.execute (forwarding 125 (lit "done\n")) 1 exitingRequest) := by
  obtain ⟨frame, hframe⟩ :
      ∃ frame, framePayload exitingRequest.code exitingRequest.stdin = some frame :=
    Option.isSome_iff_exists.mp (by decide)
  exact (smallDocker.execute_contains_iff (forwarding 125 (lit "done\n")) 1 exitingRequest hframe rfl
    (by decide)).mpr (by decide +kernel)

/-- The request of a payload that prints the client's marker before it exits. -/
def markingRequest : ExecutionRequest ℚ where
  code := lit "import sys; print('docker:', file=sys.stderr); sys.exit(125)"
  stdin := []
  timeoutSeconds := none
  payload := by decide
  deadline := rfl

/-- A payload that prints the client's marker and exits with 125 passes for a fault. -/
theorem execute_mistakes_payload_for_fault :
    ¬ Completed (smallDocker.execute (forwarding 125 (lit "docker:\n")) 1 markingRequest) 125 := by
  obtain ⟨frame, hframe⟩ :
      ∃ frame, framePayload markingRequest.code markingRequest.stdin = some frame :=
    Option.isSome_iff_exists.mp (by decide)
  obtain ⟨result, hresult, -, hstatus⟩ := smallDocker.execute_ended
    (forwarding 125 (lit "docker:\n")) 1 markingRequest hframe rfl (by decide)
  rw [if_pos (by decide +kernel)] at hstatus
  rintro ⟨result', hresult', hcompleted, -⟩
  rw [hresult] at hresult'
  cases hresult'
  rw [hstatus] at hcompleted
  cases hcompleted

end CognitiveTree.Sandbox
