import CognitiveTree.Feedback.Composite
import CognitiveTree.Feedback.Rewards
import CognitiveTree.Llm.Generator
import CognitiveTree.Observability.Budget
import CognitiveTree.Session.Runs

/-!
# Sessions around a chat model

The assembly of an LLM-backed session: the client is wrapped for accounting and perhaps for caching,
the evaluator runs code, and the critic reads execution traces, with a critic that asks the model
behind it when the specification wants one.
-/

namespace CognitiveTree.Session

open Search Observability Persistence Feedback Llm Sandbox

variable {K W E : Type} [PyFloat K]

section Clients

/-- `client.complete(request)`. -/
abbrev Complete (K W : Type) [PyFloat K] :=
  CompletionRequest K → W → Except Exc CompletionResponse × W

/-- What the policies of a session change: the tally of its client, the store of completions, and
the world outside, where the model and the sandbox are. -/
structure LlmWorld (K W : Type) [PyFloat K] where
  usage : TokenUsage
  cache : CompletionCache K
  outside : W

/-- `AccountingLlmClient.complete(request)`. -/
def accounted (complete : Complete K W) : Complete K (LlmWorld K W) := fun request w =>
  match complete request w.outside with
  | (.error e, outside) => (.error e, { w with outside := outside })
  | (.ok response, outside) =>
    (.ok response, { w with usage := account w.usage response, outside := outside })

/-- `CachingLlmClient.complete(request)` with `cache_sampled=False`. -/
def cached (inner : Complete K (LlmWorld K W)) : Complete K (LlmWorld K W) := fun request w =>
  if cacheable false request then
    match w.cache.get request with
    | (some response, cache) => (.ok response.replayed, { w with cache := cache })
    | (none, cache) =>
      match inner request { w with cache := cache } with
      | (.error e, w) => (.error e, w)
      | (.ok response, w) => (.ok response, { w with cache := w.cache.put request response })
  else inner request w

end Clients

section Specification

/-- The fields of `LlmSessionSpec` that the assembly reads when it is given a client. -/
structure SpecFields (K : Type) [PyFloat K] where
  task : Str
  validationHarness : Str
  temperature : K
  criticTemperature : K
  useLlmCritic : Bool
  config : SearchConfig K
  revisionAttempts : Int
  maxTokens : Option Int
  maxLlmCalls : Option Int
  cacheCompletions : Bool

/-- `0.0 <= temperature <= 2.0`. -/
def isTemperature (temperature : K) : Bool :=
  PyFloat.le PyFloat.zero temperature && PyFloat.le temperature (PyFloat.ofNat 2)

/-- `LlmSessionSpec.__post_init__`. -/
def SpecFields.postInit (spec : SpecFields K) : Except Exc Unit :=
  if !isTemperature spec.temperature then
    .error (valueError (lit "temperature must lie within [0.0, 2.0]"))
  else if !isTemperature spec.criticTemperature then
    .error (valueError (lit "critic_temperature must lie within [0.0, 2.0]"))
  else .ok ()

/-- A specification that passed its own check. -/
structure LlmSessionSpec (K : Type) [PyFloat K] extends SpecFields K where
  checked : toSpecFields.postInit = .ok ()

/-- The same specification without a critic that asks the model. -/
def LlmSessionSpec.withoutLlmCritic (spec : LlmSessionSpec K) : LlmSessionSpec K :=
  { spec with useLlmCritic := false }

theorem LlmSessionSpec.temperature_checked (spec : LlmSessionSpec K) :
    isTemperature spec.temperature = true := by
  have h := spec.checked
  unfold SpecFields.postInit at h
  split at h
  · cases h
  · rename_i hwarm
    simpa using hwarm

/-- The model, the sandbox and what the runtime makes of values. -/
structure LlmParts (K W : Type) [PyFloat K] where
  /-- `client.complete` of the client that is wrapped -/
  complete : Complete K W
  /-- `executor.execute` -/
  execute : ExecutionRequest K → W → Except Exc (ExecutionResult K) × W
  text : PyVal K → Str
  toDict : PyVal K → Except Exc (Dict Str (PyVal K))
  limits : Json.Limits
  alnum : CodePoint → Bool

end Specification

namespace LlmSessionSpec

variable (spec : LlmSessionSpec K) (parts : LlmParts K W)

/-- The client of the policies: the accounting one, behind a cache when completions are cached. -/
def client : Complete K (LlmWorld K W) :=
  if spec.cacheCompletions then cached (accounted parts.complete) else accounted parts.complete

/-- The executor, which changes the world outside. -/
def execute : ExecutionRequest K → LlmWorld K W → Except Exc (ExecutionResult K) × LlmWorld K W :=
  fun request w =>
    ((parts.execute request w.outside).1, { w with outside := (parts.execute request w.outside).2 })

/-- `LlmThoughtGenerator(client, temperature=spec.temperature)`. -/
def generator : LlmThoughtGenerator K (LlmWorld K W) where
  complete := spec.client parts
  temperature := spec.temperature
  maxTokens := 1024
  text := parts.text
  alnum := parts.alnum

/-- `CodeExecutionEvaluator(executor, validation_harness)` with its default scores. -/
def evaluator : Except Exc (CodeExecutionEvaluator K (LlmWorld K W)) :=
  CodeExecutionEvaluator.create (execute parts) spec.validationHarness PyFloat.one
    (PyFloat.div (PyFloat.ofNat 5) (PyFloat.ofNat 100)) PyFloat.zero (PyFloat.tenths 3) true

/-- `TokenBudget(accounting, max_total_tokens, max_calls)`, when there is a ceiling. -/
def budget (baseline : TokenUsage) : Except Exc (Option TokenBudget) :=
  if spec.maxTokens.isSome ∨ spec.maxLlmCalls.isSome then
    (TokenBudget.create spec.maxTokens spec.maxLlmCalls baseline).map some
  else .ok none

variable [PyDecimal K] [PyNumber K]

/-- `LlmCritic(client, temperature=spec.critic_temperature)`. -/
def llmCritic : LlmCritic K (LlmWorld K W) where
  complete := spec.client parts
  temperature := spec.criticTemperature
  maxTokens := 512
  text := parts.text
  toDict := parts.toDict
  limits := parts.limits

/-- The critic of the session. -/
def critic : Except Exc (Nat → Call K (LlmWorld K W) (Option (Critique K))) :=
  if spec.useLlmCritic then
    (ChainedCritic.create
      [executionTraceCritic parts.text, (spec.llmCritic parts).critique]).map ChainedCritic.critique
  else .ok (executionTraceCritic parts.text)

/-- What the factory wires a controller to. -/
def policies : Except Exc (Policies K (LlmWorld K W)) := do
  let evaluator ← spec.evaluator parts
  let critic ← spec.critic parts
  let revision ← BoundedRevisionPolicy.create spec.revisionAttempts true
  let weights ← RewardWeights.create WeightFields.standard
  pure {
    generator := (spec.generator parts).generate
    evaluator := evaluator.evaluate
    critic := some critic
    revisionPolicy := some (revision.revise parts.text)
    rewardModel := some (RewardShaper.shape weights) }

/-- `build_llm_session(spec, client, completion_cache, archive_dir)`, with the controller that its
factory builds when the tally stands at `baseline`. -/
def session (archiveDir : Option PurePath) (baseline : TokenUsage) :
    Except Exc (ReasoningSession K (LlmWorld K W) E) :=
  if checked : Str.strip spec.task ≠ [] then do
    let budget ← spec.budget baseline
    let policies ← spec.policies parts
    pure {
      task := spec.task
      config := spec.config
      policies := policies
      stopCondition := budget.map fun budget w e => (.ok (budget.check w.usage), e)
      archiveDir := archiveDir
      usage := some LlmWorld.usage
      checked := checked }
  else .error (valueError (lit "task must be a non-empty statement"))

end LlmSessionSpec

section Wired

variable [PyDecimal K] [PyNumber K] {spec : LlmSessionSpec K} {parts : LlmParts K W}
  {archiveDir : Option PurePath} {baseline : TokenUsage}
  {session : ReasoningSession K (LlmWorld K W) E}

/-- What a session is wired to. -/
structure Wired (spec : LlmSessionSpec K) (parts : LlmParts K W) (baseline : TokenUsage)
    (session : ReasoningSession K (LlmWorld K W) E)
    (evaluator : CodeExecutionEvaluator K (LlmWorld K W))
    (critic : Nat → Call K (LlmWorld K W) (Option (Critique K))) (revision : BoundedRevisionPolicy)
    (weights : RewardWeights K) (budget : Option TokenBudget) : Prop where
  evaluator_eq : spec.evaluator parts = .ok evaluator
  critic_eq : spec.critic parts = .ok critic
  revision_eq : BoundedRevisionPolicy.create spec.revisionAttempts true = .ok revision
  budget_eq : spec.budget baseline = .ok budget
  config_eq : session.config = spec.config
  policies_eq : session.policies = {
    generator := (spec.generator parts).generate
    evaluator := evaluator.evaluate
    critic := some critic
    revisionPolicy := some (revision.revise parts.text)
    rewardModel := some (RewardShaper.shape weights) }
  stopCondition_eq : session.stopCondition =
    budget.map fun budget w e => (.ok (budget.check w.usage), e)

/-- A session that was built is wired. -/
theorem LlmSessionSpec.wired (h : spec.session parts archiveDir baseline = .ok session) :
    ∃ evaluator critic revision weights budget,
      Wired spec parts baseline session evaluator critic revision weights budget := by
  unfold LlmSessionSpec.session at h
  split at h
  · obtain ⟨budget, hbudget, h⟩ := exists_of_bind_eq_ok h
    obtain ⟨policies, hpolicies, h⟩ := exists_of_bind_eq_ok h
    obtain ⟨evaluator, hevaluator, hpolicies⟩ := exists_of_bind_eq_ok hpolicies
    obtain ⟨critic, hcritic, hpolicies⟩ := exists_of_bind_eq_ok hpolicies
    obtain ⟨revision, hrevision, hpolicies⟩ := exists_of_bind_eq_ok hpolicies
    obtain ⟨weights, -, hpolicies⟩ := exists_of_bind_eq_ok hpolicies
    cases hpolicies
    cases h
    exact ⟨evaluator, critic, revision, weights, budget, hevaluator, hcritic, hrevision, hbudget,
      rfl, rfl, rfl⟩
  · cases h

omit [PyDecimal K] [PyNumber K] in
/-- The evaluator of a session accepts what it runs to a clean exit, in the sandbox outside. -/
theorem LlmSessionSpec.evaluator_scores {evaluator : CodeExecutionEvaluator K (LlmWorld K W)}
    (h : spec.evaluator parts = .ok evaluator) : evaluator.terminalOnSuccess = true ∧
      evaluator.successScore = PyFloat.one ∧ evaluator.executor = execute parts := by
  unfold LlmSessionSpec.evaluator CodeExecutionEvaluator.create at h
  split at h
  · cases h
    exact ⟨rfl, rfl, rfl⟩
  · cases h

/-- The session with the critic of execution traces alone. -/
def ReasoningSession.withTraceCritic (session : ReasoningSession K (LlmWorld K W) E)
    (text : PyVal K → Str) : ReasoningSession K (LlmWorld K W) E :=
  { session with policies := { session.policies with critic := some (executionTraceCritic text) } }

/-- Without a critic that asks the model the same session is built with the other critic. -/
theorem LlmSessionSpec.session_withoutLlmCritic
    (h : spec.session parts archiveDir baseline = .ok session) :
    spec.withoutLlmCritic.session parts archiveDir baseline =
      .ok (session.withTraceCritic parts.text) := by
  unfold LlmSessionSpec.session at h ⊢
  split at h
  · rename_i hchecked
    have hchecked' : Str.strip spec.withoutLlmCritic.task ≠ [] := hchecked
    rw [dif_pos hchecked']
    obtain ⟨budget, hbudget, h⟩ := exists_of_bind_eq_ok h
    obtain ⟨policies, hpolicies, h⟩ := exists_of_bind_eq_ok h
    obtain ⟨evaluator, hevaluator, hpolicies⟩ := exists_of_bind_eq_ok hpolicies
    obtain ⟨critic, -, hpolicies⟩ := exists_of_bind_eq_ok hpolicies
    obtain ⟨revision, hrevision, hpolicies⟩ := exists_of_bind_eq_ok hpolicies
    obtain ⟨weights, hweights, hpolicies⟩ := exists_of_bind_eq_ok hpolicies
    cases hpolicies
    cases h
    have hbudget' : spec.withoutLlmCritic.budget baseline = .ok budget := hbudget
    have hevaluator' : spec.withoutLlmCritic.evaluator parts = .ok evaluator := hevaluator
    have hcritic' : spec.withoutLlmCritic.critic parts = .ok (executionTraceCritic parts.text) := rfl
    have hrevision' : BoundedRevisionPolicy.create spec.withoutLlmCritic.revisionAttempts true =
        .ok revision := hrevision
    rw [LlmSessionSpec.policies, hbudget', hevaluator', hcritic', hrevision', hweights]
    rfl
  · cases h

end Wired

end CognitiveTree.Session
