import CognitiveTree.Observability.Calls
import CognitiveTree.Session.Archiving
import CognitiveTree.Session.LlmSession

/-!
# Runs of an LLM session

Code that runs to a clean exit is accepted, and whatever does not is explained by its execution
trace. So the critic that asks the model is never asked, and a run of the session spends its
completions on expansions alone.
-/

namespace CognitiveTree.Sandbox

open Search

variable {K P E : Type} [PyFloat K]

/-- The evaluator in a world that holds more than the policies' state. -/
def CodeExecutionEvaluator.within (ev : CodeExecutionEvaluator K P) :
    CodeExecutionEvaluator K (P × E) where
  executor request w := ((ev.executor request w.1).1, (ev.executor request w.1).2, w.2)
  harness := ev.harness
  successScore := ev.successScore
  failureScore := ev.failureScore
  timeoutScore := ev.timeoutScore
  missingPayloadScore := ev.missingPayloadScore
  terminalOnSuccess := ev.terminalOnSuccess
  scores := ev.scores

/-- Its executor changes the policies' state alone. -/
theorem CodeExecutionEvaluator.executor_within (ev : CodeExecutionEvaluator K P)
    (request : ExecutionRequest K) (w : P × E) :
    (ev.within : CodeExecutionEvaluator K (P × E)).executor request w =
      ((ev.executor request w.1).1, (ev.executor request w.1).2, w.2) := rfl

/-- It evaluates as before, whatever else the world holds. -/
theorem CodeExecutionEvaluator.evaluate_within (ev : CodeExecutionEvaluator K P) (node : Nat) :
    (ev.within : CodeExecutionEvaluator K (P × E)).evaluate node = (ev.evaluate node).within := by
  funext arena metadata w
  cases hpayload : extractPythonPayload (arena.node node).content with
  | none =>
    simp only [CodeExecutionEvaluator.evaluate, Call.within, hpayload]
    rfl
  | some payload =>
    obtain ⟨request, hrequest, -⟩ := ev.exists_request hpayload
    obtain ⟨request', hrequest', -⟩ :=
      (ev.within : CodeExecutionEvaluator K (P × E)).exists_request hpayload
    obtain rfl : request' = request := Except.ok.inj (hrequest'.symm.trans hrequest)
    rcases hrun : ev.executor request' w.1 with ⟨e | result, p⟩
    · simp only [CodeExecutionEvaluator.evaluate, Call.within, hpayload, hrequest, hrequest', hrun,
        CodeExecutionEvaluator.executor_within]
    · simp only [CodeExecutionEvaluator.evaluate, Call.within, hpayload, hrequest, hrequest', hrun,
        CodeExecutionEvaluator.executor_within]
      rfl

end CognitiveTree.Sandbox

namespace CognitiveTree.Feedback

open Search

variable {K P E : Type} [PyFloat K]

/-- A chain in a world that holds more than the policies' state. -/
def ChainedCritic.within (chain : ChainedCritic K P) : ChainedCritic K (P × E) where
  critics := chain.critics.map fun critic node => (critic node).within
  nonempty := by simpa using chain.nonempty

/-- The critics of a lifted chain are the lifted critics. -/
theorem ChainedCritic.critics_within (chain : ChainedCritic K P) :
    (chain.within : ChainedCritic K (P × E)).critics =
      chain.critics.map fun critic node => (critic node).within := rfl

/-- It asks the same critics. -/
theorem ChainedCritic.critique_within (chain : ChainedCritic K P) (node : Nat) :
    (chain.within : ChainedCritic K (P × E)).critique node = (chain.critique node).within := by
  have hfirst : ∀ critics : List (Nat → Call K P (Option (Critique K))),
      firstVerdict node (critics.map fun critic node => ((critic node).within :
        Call K (P × E) (Option (Critique K)))) = (firstVerdict node critics).within := by
    intro critics
    induction critics with
    | nil => rfl
    | cons critic critics ih =>
      funext arena metadata w
      rw [List.map_cons, firstVerdict, ih]
      simp only [Call.within, firstVerdict]
      rcases hanswer : (critic node arena metadata w.1).answer with e | (_ | critique)
      · simp only [hanswer]
      · rfl
      · simp only [hanswer]
  exact hfirst chain.critics

/-- A revision is decided without the world. -/
theorem BoundedRevisionPolicy.revise_within [PyNumber K] (p : BoundedRevisionPolicy)
    (text : PyVal K → Str) (node : Nat) :
    ((p.revise text node : Call K W Bool).within : Call K (W × E) Bool) = p.revise text node := by
  funext arena metadata w
  unfold BoundedRevisionPolicy.revise Call.within
  dsimp only
  split
  · rfl
  · rfl
  · rfl

end CognitiveTree.Feedback

namespace CognitiveTree.Session

open Search Observability Persistence Feedback Llm Sandbox

variable {K W E : Type} [PyFloat K]

section Completions

/-- A client adds one completion to the tally, or none. -/
def Frugal (complete : Complete K (LlmWorld K W)) : Prop :=
  ∀ request w, OneMore w.usage.calls (complete request w).2.usage.calls

/-- The accounting client counts what it returns. -/
theorem frugal_accounted (complete : Complete K W) : Frugal (accounted complete) := by
  intro request w
  unfold accounted
  rcases complete request w.outside with ⟨e | response, outside⟩
  · exact ⟨le_rfl, (lt_add_one _).le⟩
  · exact ⟨(lt_add_one _).le, le_rfl⟩

/-- A replayed completion is not counted again. -/
theorem Frugal.cached {inner : Complete K (LlmWorld K W)} (h : Frugal inner) :
    Frugal (cached inner) := by
  intro request w
  unfold Session.cached
  split
  · rcases w.cache.get request with ⟨_ | response, cache⟩
    · have hinner := h request { w with cache := cache }
      dsimp only
      generalize inner request { w with cache := cache } = reply at hinner ⊢
      rcases reply with ⟨e | response, w'⟩
      · exact hinner
      · exact hinner
    · exact ⟨le_rfl, (lt_add_one _).le⟩
  · exact h request w

/-- An expansion makes one completion at most. -/
theorem Frugal.generate {generator : LlmThoughtGenerator K (LlmWorld K W)}
    (h : Frugal generator.complete) (n k : Nat) (arena : Arena K) (metadata : Nat → Metadata K)
    (w : LlmWorld K W) :
    OneMore w.usage.calls (generator.generate n k arena metadata w).world.usage.calls := by
  unfold LlmThoughtGenerator.generate
  split
  · exact ⟨le_rfl, (lt_add_one _).le⟩
  · rename_i request _
    have hcomplete := h request w
    dsimp only
    split
    · exact hcomplete
    · exact hcomplete

/-- The client of a session is frugal, with a cache or without one. -/
theorem LlmSessionSpec.frugal_client (spec : LlmSessionSpec K) (parts : LlmParts K W) :
    Frugal (spec.client parts) := by
  unfold LlmSessionSpec.client
  split
  · exact (frugal_accounted _).cached
  · exact frugal_accounted _

/-- Running code makes no completion. -/
theorem free_evaluate {ev : CodeExecutionEvaluator K (LlmWorld K W)} {parts : LlmParts K W}
    (h : ev.executor = LlmSessionSpec.execute parts) (node : Nat) :
    Free (fun w => w.usage.calls) (ev.evaluate node) := by
  intro arena metadata w
  have hspec := ev.evaluate_spec node arena metadata w
  generalize ev.evaluate node arena metadata w = reply at hspec ⊢
  have hkept : ∀ {request answer w'}, ev.executor request w = (answer, w') → w'.usage = w.usage := by
    intro request answer w' hexecuted
    rw [h] at hexecuted
    cases hexecuted
    rfl
  cases hspec with
  | bare => rfl
  | broken payload request e w' extracted code executed =>
    exact congrArg TokenUsage.calls (hkept executed)
  | ran payload request result w' extracted code executed =>
    exact congrArg TokenUsage.calls (hkept executed)

/-- A request for a revision makes none either. -/
theorem free_revise [PyNumber K] (p : BoundedRevisionPolicy) (text : PyVal K → Str) (node : Nat) :
    Free (fun w : LlmWorld K W => w.usage.calls) (p.revise text node) := by
  intro arena metadata w
  rcases p.revise_cases text node arena metadata w with ⟨answer, -, hrun⟩ | ⟨notes, attempts, -, hrun⟩
  · rw [hrun]
  · rw [hrun]

end Completions

section Runs

variable [PyDecimal K] [PyNumber K] {spec : LlmSessionSpec K} {parts : LlmParts K W}
  {archiveDir : Option PurePath} {baseline : TokenUsage}
  {session : ReasoningSession K (LlmWorld K W) E}
  {evaluator : CodeExecutionEvaluator K (LlmWorld K W)}
  {critic : Nat → Call K (LlmWorld K W) (Option (Critique K))} {revision : BoundedRevisionPolicy}
  {weights : RewardWeights K} {budget : Option TokenBudget}

/-- The policies with the critic of execution traces alone. -/
def tracePolicies (spec : LlmSessionSpec K) (parts : LlmParts K W)
    (evaluator : CodeExecutionEvaluator K (LlmWorld K W)) (revision : BoundedRevisionPolicy)
    (weights : RewardWeights K) : Policies K (LlmWorld K W) where
  generator := (spec.generator parts).generate
  evaluator := evaluator.evaluate
  critic := some (executionTraceCritic parts.text)
  revisionPolicy := some (revision.revise parts.text)
  rewardModel := some (RewardShaper.shape weights)

omit [PyDecimal K] in
/-- Which of these policies leaves which key alone, with any critic that writes nothing. -/
theorem spares_tracePolicies
    (hcritic : ∀ node arena metadata w, (critic node arena metadata w).metadata = metadata)
    (config : SearchConfig K) (outside : Surroundings K (LlmWorld K W) E) (key : Str)
    {ctl : TreeSearchController K (LlmWorld K W × E)}
    (hctl : ctl = Policies.controller { tracePolicies spec parts evaluator revision weights with
      critic := some critic } config outside) :
    ctl.Spares key .generator ∧ ctl.Spares key .critic ∧
      (key ≠ executionKey → ctl.Spares key .evaluator) ∧
      (key ≠ revisionNotesKey → key ≠ revisionAttemptsKey → ctl.Spares key .revision) ∧
      (key ≠ rewardMetadataKey → ctl.Spares key .reward) := by
  subst hctl
  refine ⟨fun n k arena metadata w r => ?_, fun asked hasked n arena metadata w r => ?_,
    fun hkey n arena metadata w r => ?_, fun hnotes hattempts policy hpolicy n arena metadata w r => ?_,
    fun hkey model hmodel n base critique arena metadata w r => ?_⟩
  · exact congrArg (fun m => Dict.get? (m r) key)
      ((spec.generator parts).generate_metadata n k arena metadata w.1)
  · cases hasked
    exact congrArg (fun m => Dict.get? (m r) key) (hcritic n arena metadata w.1)
  · exact evaluator.evaluate_leaves n hkey arena metadata w.1 r
  · cases hpolicy
    exact revision.revise_leaves parts.text n hnotes hattempts arena metadata w.1 r
  · cases hmodel
    change Dict.get? (if r = n then Dict.set (metadata r) rewardMetadataKey _ else metadata r) key = _
    split
    · rw [Dict.get?_set, if_neg hkey]
    · rfl

omit [PyDecimal K] in
/-- Only the evaluator writes execution records. -/
theorem soleWriter_tracePolicies (config : SearchConfig K)
    (outside : Surroundings K (LlmWorld K W) E) :
    ((tracePolicies spec parts evaluator revision weights).controller config outside).SoleWriter
      executionKey .evaluator := by
  have hctl : (tracePolicies spec parts evaluator revision weights).controller config outside =
      Policies.controller { tracePolicies spec parts evaluator revision weights with
        critic := some (executionTraceCritic parts.text) } config outside := rfl
  obtain ⟨hgenerator, hcritic, -, hrevision, hreward⟩ :=
    spares_tracePolicies (fun _ _ _ _ => rfl) config outside executionKey hctl
  rintro (_ | _ | _ | _ | _) hne
  case generator => exact hgenerator
  case evaluator => exact absurd rfl hne
  case critic => exact hcritic
  case revision => exact hrevision (by decide) (by decide)
  case reward => exact hreward (by decide)

omit [PyDecimal K] in
/-- Only the generator makes completions. -/
theorem thrifty_tracePolicies (hexecutor : evaluator.executor = LlmSessionSpec.execute parts)
    (config : SearchConfig K) (outside : Surroundings K (LlmWorld K W) E)
    (random : Option Int → Nat → K)
    (schedule : Arena K → List Nat → LlmWorld K W → List PoolEvent) :
    Thrifty ((tracePolicies spec parts evaluator revision weights).controller config outside)
      (outside.runtime random schedule) fun w => w.1.usage.calls where
  generator n k arena metadata w := (spec.frugal_client parts).generate n k arena metadata w.1
  evaluator n arena metadata w := free_evaluate hexecutor n arena metadata w.1
  critic critic hcritic n arena metadata w := by
    cases hcritic
    rfl
  revision policy hpolicy n arena metadata w := by
    cases hpolicy
    exact free_revise revision parts.text n arena metadata w.1
  reward model hmodel n base critique arena metadata w := by
    cases hmodel
    rfl
  clock w := rfl
  cancel isSet hset w := by
    obtain ⟨_, -, rfl⟩ := Option.map_eq_some_iff.mp hset
    rfl
  condition check hcheck w := by
    obtain ⟨_, -, rfl⟩ := Option.map_eq_some_iff.mp hcheck
    rfl
  sink sink hsink event tree w := by
    obtain ⟨_, -, rfl⟩ := Option.map_eq_some_iff.mp hsink
    rfl

/-- The critic of a session is the one of execution traces, or a chain that it is the head of. -/
theorem critic_cases (h : spec.critic parts = .ok critic) :
    critic = executionTraceCritic parts.text ∨ ∃ (chain : ChainedCritic K (LlmWorld K W)) (critics : _),
      critic = chain.critique ∧ chain.critics = executionTraceCritic parts.text :: critics := by
  unfold LlmSessionSpec.critic at h
  split at h
  · obtain ⟨chain, hchain, hcritics⟩ := ChainedCritic.create_cons (executionTraceCritic parts.text)
      [(spec.llmCritic parts).critique]
    rw [hchain] at h
    cases h
    exact .inr ⟨chain, _, rfl, hcritics⟩
  · cases h
    exact .inl rfl

/-- The critic of a session leaves the metadata alone. -/
theorem critic_metadata (h : spec.critic parts = .ok critic) (node : Nat) (arena : Arena K)
    (metadata : Nat → Metadata K) (w : LlmWorld K W) :
    (critic node arena metadata w).metadata = metadata := by
  unfold LlmSessionSpec.critic at h
  split at h
  · obtain ⟨chain, hchain, hcritics⟩ := ChainedCritic.create_cons (executionTraceCritic parts.text)
      [(spec.llmCritic parts).critique]
    rw [hchain] at h
    cases h
    rw [ChainedCritic.critique, hcritics]
    apply ChainedCritic.firstVerdict_metadata
    intro asked hasked arena metadata world
    rcases List.mem_cons.mp hasked with rfl | hasked
    · rfl
    · rw [List.mem_singleton.mp hasked]
      exact LlmCritic.critique_metadata _ _ _ _ _
  · cases h
    rfl

omit [PyDecimal K] in
/-- Behind execution traces no critic is asked in a run of these policies. -/
theorem interchangeable_trace [UnitTenths K] (hevaluator : spec.evaluator parts = .ok evaluator)
    (config : SearchConfig K) (outside : Surroundings K (LlmWorld K W) E)
    (rt : Runtime K (LlmWorld K W × E)) (task : Str) (draws : Nat)
    {chain : ChainedCritic K (LlmWorld K W)}
    {critics : List (Nat → Call K (LlmWorld K W) (Option (Critique K)))}
    (hchain : chain.critics = executionTraceCritic parts.text :: critics) :
    Interchangeable ((tracePolicies spec parts evaluator revision weights).controller config outside)
      rt task draws fun node => (chain.critique node).within := by
  obtain ⟨hterminal, hscore, -⟩ := LlmSessionSpec.evaluator_scores hevaluator
  have hforgiving : Forgiving (evaluator.within : CodeExecutionEvaluator K (LlmWorld K W × E)) config :=
    forgiving_of_accepted hterminal (hscore ▸ config.acceptThreshold_le_one)
  have hcritics : (chain.within : ChainedCritic K (LlmWorld K W × E)).critics =
      executionTraceCritic parts.text :: critics.map fun critic node => (critic node).within := by
    rw [ChainedCritic.critics_within, hchain]
    rfl
  have hsame : Interchangeable
      ((tracePolicies spec parts evaluator revision weights).controller config outside) rt task draws
        (chain.within : ChainedCritic K (LlmWorld K W × E)).critique :=
    interchangeable_chain (funext fun node => (evaluator.evaluate_within node).symm) rfl
      (soleWriter_tracePolicies config outside) hforgiving hcritics
  rwa [funext chain.critique_within] at hsame

/-- Its policies with the critic of execution traces alone. -/
theorem Wired.trace_eq
    (h : Wired spec parts baseline session evaluator critic revision weights budget) :
    (session.withTraceCritic parts.text).policies =
      tracePolicies spec parts evaluator revision weights := by
  rw [ReasoningSession.withTraceCritic, h.policies_eq]
  rfl

/-- A session searches as it does with the critic of execution traces. -/
theorem Wired.search_eq [UnitTenths K]
    (h : Wired spec parts baseline session evaluator critic revision weights budget)
    (env : SessionRuntime K (LlmWorld K W) E) (cancelled : Option (E → Bool × E))
    (sink : Option (Sink K (LlmWorld K W) E)) :
    (session.withTraceCritic parts.text).search env cancelled sink =
      session.search env cancelled sink := by
  rcases critic_cases h.critic_eq with hcritic | ⟨chain, critics, hcritic, hchain⟩
  · rw [ReasoningSession.withTraceCritic, ← hcritic]
    have hsame : session.policies.critic = some critic := by rw [h.policies_eq]
    rw [← hsame]
  · funext world
    let outside := surroundings env session cancelled sink
    have hexchanged : session.policies.controller session.config outside =
        ((tracePolicies spec parts evaluator revision weights).controller session.config
          outside).withCritic fun node => (chain.critique node).within := by
      rw [h.policies_eq, hcritic]
      rfl
    have hrun : (session.policies.controller session.config outside).run
          (outside.runtime env.random env.schedule) session.task 0 world =
        ((session.withTraceCritic parts.text).policies.controller session.config outside).run
          (outside.runtime env.random env.schedule) session.task 0 world := by
      rw [hexchanged, h.trace_eq]
      exact (interchangeable_trace h.evaluator_eq session.config outside _ session.task 0 hchain).run
        world
    unfold ReasoningSession.search
    dsimp only
    rw [hrun]
    rfl

/-- The critic that asks the model is never asked: in every surroundings, a session with it and the
session that is built without it run and stream the same. -/
theorem llm_critic_never_asked [UnitTenths K]
    (h : spec.session parts archiveDir baseline = .ok session)
    (env : SessionRuntime K (LlmWorld K W) E) :
    ∃ plain, spec.withoutLlmCritic.session parts archiveDir baseline = .ok plain ∧
      session.run env = plain.run env ∧
      ∀ cancelled, session.work env cancelled = plain.work env cancelled := by
  obtain ⟨evaluator, critic, revision, weights, budget, hwired⟩ := LlmSessionSpec.wired h
  refine ⟨_, LlmSessionSpec.session_withoutLlmCritic h, ?_, fun cancelled => ?_⟩
  · unfold ReasoningSession.run
    rw [hwired.search_eq]
    rfl
  · unfold ReasoningSession.work
    rw [hwired.search_eq]
    rfl

end Runs

section Spending

variable {α β : Type}

omit [PyFloat K] in
/-- The program leaves the state of the policies alone. -/
def KeepsPolicies (x : Work K W E α) : Prop := ∀ s, (finalState (x s)).1.1 = s.1.1

omit [PyFloat K] in
/-- What follows a program and keeps the policies' state ends in the state the program left. -/
theorem policies_bind (x : Work K W E α) {f : α → Work K W E β} (hf : ∀ a, KeepsPolicies (f a))
    (s : (W × E × Queue K) × Disk) :
    (finalState ((x >>= f) s)).1.1 = (finalState (x s)).1.1 := by
  cases hx : x s with
  | ok a t =>
    rw [bind_of_ok hx]
    exact hf a t
  | error e t => rw [bind_of_error hx]; rfl

omit [PyFloat K] in
/-- Two programs that leave the policies' world alone do so together. -/
theorem KeepsPolicies.bind {x : Work K W E α} {f : α → Work K W E β} (hx : KeepsPolicies x)
    (hf : ∀ a, KeepsPolicies (f a)) : KeepsPolicies (x >>= f) :=
  fun s => (policies_bind x hf s).trans (hx s)

omit [PyFloat K] in
/-- Filing leaves the policies' world alone. -/
theorem keepsPolicies_beside (x : Filed E α) : KeepsPolicies (beside x : Work K W E α) := by
  intro s
  unfold beside
  split <;> rfl

variable (env : SessionRuntime K W E) (session : ReasoningSession K W E)

/-- Settling a run leaves the policies' world alone. -/
theorem keepsPolicies_settle [PyDecimal K] (result : SearchResult K) (metrics : RunMetrics K) :
    KeepsPolicies (session.settle env result metrics) :=
  (keepsPolicies_beside _).bind fun _ _ => rfl

variable [PyNumber K]

/-- The metrics leave the policies' world alone. -/
theorem keepsPolicies_metrics (result : SearchResult K) (usage : Option TokenUsage) :
    KeepsPolicies (session.metrics result usage) := by
  intro s
  unfold ReasoningSession.metrics
  cases RunMetrics.fromResult result (session.spent usage s.1.1) <;> rfl

omit [PyFloat K] [PyNumber K] in
/-- A program of the world ends there as it does alone. -/
theorem finalState_inWorld (x : EStateM Signal (W × E × Queue K) α)
    (s : (W × E × Queue K) × Disk) : (finalState (inWorld x s)).1 = finalState (x s.1) := by
  unfold inWorld
  cases x s.1 <;> rfl

omit [PyNumber K] in
/-- A search ends in the world in which its run ends. -/
theorem finalState_search (cancelled : Option (E → Bool × E)) (sink : Option (Sink K W E))
    (world : W × E × Queue K) : finalState (session.search env cancelled sink world) =
      (finalState ((session.policies.controller session.config
        (surroundings env session cancelled sink)).run
          ((surroundings env session cancelled sink).runtime env.random env.schedule)
            session.task 0 world)).world := by
  unfold ReasoningSession.search
  dsimp only
  split
  · rename_i hrun
    rw [hrun]
    rfl
  · rename_i hrun
    rw [hrun]
    rfl

omit [PyNumber K] in
/-- And its result counts the iterations of the run. -/
theorem iterations_search (cancelled : Option (E → Bool × E)) (sink : Option (Sink K W E))
    {world w : W × E × Queue K} {result : SearchResult K}
    (h : session.search env cancelled sink world = .ok result w) :
    result.iterations = (finalState ((session.policies.controller session.config
      (surroundings env session cancelled sink)).run
        ((surroundings env session cancelled sink).runtime env.random env.schedule)
          session.task 0 world)).iteration := by
  have hspec := run_spec (session.policies.controller session.config
    (surroundings env session cancelled sink))
      ((surroundings env session cancelled sink).runtime env.random env.schedule) session.task 0 world
  unfold ReasoningSession.search at h
  dsimp only at h
  split at h
  · rename_i hrun
    cases h
    rw [hrun] at hspec ⊢
    exact hspec.iterations
  · cases h

variable [PyDecimal K]

/-- A run leaves the policies where its search left them. -/
theorem policies_run (s : (W × E × Queue K) × Disk) : (finalState (session.run env s)).1.1 =
    (finalState (session.search env none none s.1)).1 := by
  rw [← finalState_inWorld (session.search env none none) s]
  refine policies_bind (inWorld (session.search env none none)) (fun result => ?_) s
  exact (keepsPolicies_metrics session result _).bind fun metrics =>
    (keepsPolicies_settle env session result metrics).bind fun _ _ => rfl

/-- And so does the worker of a stream. -/
theorem policies_work (cancelled : E → Bool × E) (s : (W × E × Queue K) × Disk) :
    (finalState (session.work env cancelled s)).1.1 =
      (finalState (session.search env (some cancelled) (some (sink env)) s.1)).1 := by
  have hmarked : ∀ x : Work K W E Unit, (finalState (marked x s)).1.1 = (finalState (x s)).1.1 := by
    intro x
    unfold marked
    cases x s <;> rfl
  unfold ReasoningSession.work
  rw [hmarked, ← finalState_inWorld (session.search env (some cancelled) (some (sink env))) s]
  refine policies_bind (inWorld (session.search env (some cancelled) (some (sink env))))
    (fun result => ?_) s
  exact (keepsPolicies_metrics session result _).bind fun metrics =>
    (keepsPolicies_settle env session result metrics).bind fun _ =>
      KeepsPolicies.bind (fun _ => rfl) fun _ _ => rfl

end Spending

section Ceilings

variable [PyDecimal K] [PyNumber K] {spec : LlmSessionSpec K} {parts : LlmParts K W}
  {archiveDir : Option PurePath} {baseline : TokenUsage}
  {session : ReasoningSession K (LlmWorld K W) E}
  {evaluator : CodeExecutionEvaluator K (LlmWorld K W)}
  {critic : Nat → Call K (LlmWorld K W) (Option (Critique K))} {revision : BoundedRevisionPolicy}
  {weights : RewardWeights K} {budget : Option TokenBudget}

omit [PyDecimal K] [PyNumber K] in
/-- A ceiling on the completions makes a budget with it. -/
theorem budget_of_ceiling (h : spec.budget baseline = .ok budget) {ceiling : Int}
    (hceiling : spec.maxLlmCalls = some ceiling) :
    ∃ b, budget = some b ∧ b.maxCalls = some ceiling ∧ b.baseline = baseline := by
  unfold LlmSessionSpec.budget TokenBudget.create at h
  rw [if_pos (.inr (hceiling ▸ rfl))] at h
  split at h
  · split at h
    · cases h
      exact ⟨_, rfl, hceiling, rfl⟩
    · cases h
  · cases h

/-- What a program of a session does to the tally, which stood at `baseline` when its controller
was built. -/
structure Spends (spec : LlmSessionSpec K) (baseline before after : TokenUsage) : Prop where
  grows : before.calls ≤ after.calls
  /-- no more than one completion for each iteration of the budget -/
  iterations : after.calls ≤ before.calls + spec.config.maxIterations
  ceiling : ∀ ceiling, spec.maxLlmCalls = some ceiling → before.calls ≤ baseline.calls + ceiling →
    after.calls ≤ baseline.calls + ceiling

/-- A search makes one completion at most for each of its iterations. -/
theorem Wired.spends [UnitTenths K]
    (h : Wired spec parts baseline session evaluator critic revision weights budget)
    (env : SessionRuntime K (LlmWorld K W) E) (cancelled : Option (E → Bool × E))
    (sink : Option (Sink K (LlmWorld K W) E)) (world : LlmWorld K W × E × Queue K) :
    Spends spec baseline world.1.usage
        (finalState (session.search env cancelled sink world)).1.usage ∧
      ∀ result w, session.search env cancelled sink world = .ok result w →
        w.1.usage.calls ≤ world.1.usage.calls + result.iterations := by
  rw [← h.search_eq]
  let outside := surroundings env session cancelled sink
  let ctl := (tracePolicies spec parts evaluator revision weights).controller session.config outside
  let rt := outside.runtime env.random env.schedule
  have hthrifty : Thrifty ctl rt fun w => w.1.usage.calls :=
    thrifty_tracePolicies (LlmSessionSpec.evaluator_scores h.evaluator_eq).2.2 session.config outside
      env.random env.schedule
  obtain ⟨hgrows, hmore⟩ := hthrifty.run session.task 0 world
  obtain ⟨st, hreach, -⟩ := run_between ctl rt session.task 0 world
  have hlimit : (finalState (ctl.run rt session.task 0 world)).iteration ≤ spec.config.maxIterations :=
    h.config_eq ▸ hreach.iteration_le
  have hend := finalState_search env (session.withTraceCritic parts.text) cancelled sink world
  rw [h.trace_eq] at hend
  have hfinal : finalState ((session.withTraceCritic parts.text).search env cancelled sink world) =
      (finalState (ctl.run rt session.task 0 world)).world := hend
  refine ⟨⟨?_, ?_, fun ceiling hceiling hbefore => ?_⟩, fun result w hresult => ?_⟩
  · rw [hfinal]
    exact hgrows
  · rw [hfinal]
    omega
  · obtain ⟨b, rfl, hmax, hbaseline⟩ := budget_of_ceiling h.budget_eq hceiling
    have hcondition : ctl.stopCondition = some fun world => (.ok (b.check world.1.usage), world) := by
      have hwrapped : ctl.stopCondition = (session.stopCondition.map
          fun f (p : LlmWorld K W) (x : E × Queue K) => ((f p x.1).1, ((f p x.1).2, x.2))).map
            fun f w => ((f w.1 w.2).1, (w.1, (f w.1 w.2).2)) := rfl
      rw [hwrapped, h.stopCondition_eq]
      rfl
    have hleft : (b.spent world.1.usage).calls ≤ ceiling := by
      rw [TokenBudget.spent, TokenUsage.calls_sub, hbaseline]
      omega
    have hpassed := hthrifty.ceiling hcondition hmax hleft session.task 0
    rw [TokenBudget.spent, TokenUsage.calls_sub, hbaseline] at hpassed
    rw [hfinal]
    omega
  · have hcount := iterations_search env (session.withTraceCritic parts.text) cancelled sink hresult
    rw [h.trace_eq] at hcount
    have hiterations : result.iterations = (finalState (ctl.run rt session.task 0 world)).iteration :=
      hcount
    rw [hresult] at hfinal
    rw [hiterations, show w = _ from hfinal]
    exact hmore

/-- A session makes one completion at most for each iteration, run or streamed, and with a ceiling
on its completions that was not reached when it started, it never passes the ceiling. -/
theorem llm_completions_bounded [UnitTenths K]
    (h : spec.session parts archiveDir baseline = .ok session)
    (env : SessionRuntime K (LlmWorld K W) E) (s : (LlmWorld K W × E × Queue K) × Disk) :
    Spends spec baseline s.1.1.usage (finalState (session.run env s)).1.1.usage ∧
      (∀ result t, session.run env s = .ok result t →
        t.1.1.usage.calls ≤ s.1.1.usage.calls + result.iterations) ∧
      ∀ cancelled, Spends spec baseline s.1.1.usage
        (finalState (session.work env cancelled s)).1.1.usage := by
  obtain ⟨evaluator, critic, revision, weights, budget, hwired⟩ := LlmSessionSpec.wired h
  refine ⟨?_, fun result t hrun => ?_, fun cancelled => ?_⟩
  · rw [policies_run]
    exact (hwired.spends env none none s.1).1
  · have hend := policies_run env session s
    rw [hrun] at hend
    obtain ⟨w, hsearch⟩ := ReasoningSession.search_of_run hrun
    rw [hsearch] at hend
    rw [show t.1.1 = w.1 from hend]
    exact (hwired.spends env none none s.1).2 result w hsearch
  · rw [policies_work]
    exact (hwired.spends env (some cancelled) (some (sink env)) s.1).1

end Ceilings

section Examples

/-- A specification with a critic that asks the model, and one completion to spend. -/
def chattySpec : LlmSessionSpec ℚ where
  task := lit "task"
  validationHarness := []
  temperature := 0
  criticTemperature := 0
  useLlmCritic := true
  config := smallConfig
  revisionAttempts := 1
  maxTokens := none
  maxLlmCalls := some 1
  cacheCompletions := false
  checked := by decide +kernel

/-- A model that always writes code that fails. -/
def failingParts : LlmParts ℚ Unit where
  complete _ w := (.ok ⟨lit "```python\nraise SystemExit(1)\n```", lit "model", 5, 7⟩, w)
  execute _ w := (.ok ⟨.completed, some 1, [], lit "boom", 0, false, []⟩, w)
  text _ := []
  toDict _ := .ok []
  limits := .unlimited
  alnum _ := false

/-- Surroundings that stand still. -/
def stillSurroundings : SessionRuntime ℚ (LlmWorld ℚ Unit) Unit where
  monotonic _ e := (0, e)
  random _ _ := 0
  freshId := (stillSession none).freshId
  schedule _ _ _ := []
  time := (stillSession none).time
  storage := (stillSession none).storage
  stamp := (stillSession none).stamp
  suffix := (stillSession none).suffix

/-- No completion was made, and nothing is stored. -/
def untouched : (LlmWorld ℚ Unit × Unit × Queue ℚ) × Disk :=
  ((⟨⟨0, 0, 0⟩, .empty 1 le_rfl, ()⟩, (), []), ⟨fun _ => none, []⟩)

/-- Its session spends the completion on a child that is rejected, and stops. -/
theorem chatty_session : ∃ session : ReasoningSession ℚ (LlmWorld ℚ Unit) Unit,
    chattySpec.session failingParts none ⟨0, 0, 0⟩ = .ok session ∧
      (finalState (session.run stillSurroundings untouched)).1.1.usage.calls = 1 ∧
      (returned (session.run stillSurroundings untouched)).map (·.outcome) =
        some .budgetExhausted := by
  have hrun : (chattySpec.session failingParts none ⟨0, 0, 0⟩ : Except Exc
      (ReasoningSession ℚ (LlmWorld ℚ Unit) Unit)).toOption.map (fun session =>
        ((finalState (session.run stillSurroundings untouched)).1.1.usage.calls,
          (returned (session.run stillSurroundings untouched)).map (·.outcome))) =
            some (1, some .budgetExhausted) := by decide +kernel
  obtain ⟨session, hsession, hend⟩ := exists_ok_of_toOption hrun
  exact ⟨session, hsession, congrArg Prod.fst hend, congrArg Prod.snd hend⟩

/-- Without that critic it is the same run. -/
theorem llm_critic_never_asked_small : ∃ session plain : ReasoningSession ℚ (LlmWorld ℚ Unit) Unit,
    chattySpec.session failingParts none ⟨0, 0, 0⟩ = .ok session ∧
      chattySpec.withoutLlmCritic.session failingParts none ⟨0, 0, 0⟩ = .ok plain ∧
      session.run stillSurroundings = plain.run stillSurroundings ∧
      (finalState (session.run stillSurroundings untouched)).1.1.usage.calls = 1 := by
  obtain ⟨session, hsession, hcalls, -⟩ := chatty_session
  obtain ⟨plain, hplain, hrun, -⟩ := llm_critic_never_asked hsession stillSurroundings
  exact ⟨session, plain, hsession, hplain, hrun, hcalls⟩

/-- The ceiling is met, and not passed. -/
theorem llm_completions_bounded_small : ∃ session : ReasoningSession ℚ (LlmWorld ℚ Unit) Unit,
    chattySpec.session failingParts none ⟨0, 0, 0⟩ = .ok session ∧
      (finalState (session.run stillSurroundings untouched)).1.1.usage.calls = 1 ∧
      Spends chattySpec ⟨0, 0, 0⟩ ⟨0, 0, 0⟩
        (finalState (session.run stillSurroundings untouched)).1.1.usage := by
  obtain ⟨session, hsession, hcalls, -⟩ := chatty_session
  exact ⟨session, hsession, hcalls,
    (llm_completions_bounded hsession stillSurroundings untouched).1⟩

end Examples

end CognitiveTree.Session
