import CognitiveTree.Feedback.Notes
import CognitiveTree.Session.LlmRuns

/-!
# What the model is asked for

Each expansion of a session requests one completion. The message names the task and the path to the
node, and once the node was reopened it has the notes of its last revision, so the critiques of
failed candidates reach the model word for word.
-/

namespace CognitiveTree.Session

open Search Observability Persistence Feedback Llm Sandbox

section Requests

variable {K W E : Type} [PyFloat K] [PyDecimal K] [PyNumber K] {spec : LlmSessionSpec K}
  {parts : LlmParts K W} {archiveDir : Option PurePath} {baseline : TokenUsage}
  {session : ReasoningSession K (LlmWorld K W) E}

omit [PyDecimal K] [PyNumber K] in
/-- An expansion is requested in two messages. The one of the user begins with the task, and has each
step of the path to the node under its number, and the notes of the node. -/
theorem request_names_path (spec : LlmSessionSpec K) (parts : LlmParts K W) {arena : Arena K}
    (metadata : Metadata K) {node : Nat} (hnode : node < arena.size) (k : Nat) :
    ∃ request user, (spec.generator parts).request arena metadata node k = .ok request ∧
      request.messages.map ChatMessage.content = [generatorSystemPrompt, user] ∧
      lit "TASK:\n" ++ (arena.node 0).content <+: user ∧
      (∀ i n, (arena.pathFromRoot node)[i + 1]? = some n →
        Str.ofNat (i + 1) ++ lit ". " ++ (arena.node n).content <:+: user) ∧
      (spec.generator parts).notesOf metadata <:+: user := by
  obtain ⟨request, hrequest, hmessages⟩ := (spec.generator parts).request_eq spec.temperature_checked
    (show (1 : Int) ≤ 1024 by decide) arena metadata node k
  refine ⟨request, _, hrequest, hmessages, ?_, fun i n hn => ?_, ?_⟩
  · have hhead := arena.pathFromRoot_head hnode
    obtain ⟨rest, hpath⟩ : ∃ rest, arena.pathFromRoot node = 0 :: rest :=
      ⟨_, (List.eq_cons_of_mem_head? hhead)⟩
    have htask : (arena.pathContents node).headD [] = (arena.node 0).content := by
      rw [Arena.pathContents, hpath]
      rfl
    rw [LlmThoughtGenerator.renderUserMessage, htask]
    exact task_prefix_message
  · refine (infix_renderedPath ?_).trans path_infix_message
    rw [List.getElem?_tail, Arena.pathContents, List.getElem?_map, hn]
    rfl
  · exact (infix_revisionBlock _).trans block_infix_message

/-- The controller of a search. -/
def ReasoningSession.searchController {P : Type} (session : ReasoningSession K P E)
    (env : SessionRuntime K P E) (cancelled : Option (E → Bool × E)) (sink : Option (Sink K P E)) :
    TreeSearchController K (P × E × Queue K) :=
  session.policies.controller session.config (surroundings env session cancelled sink)

/-- The runtime of a search. -/
def ReasoningSession.searchRuntime {P : Type} (session : ReasoningSession K P E)
    (env : SessionRuntime K P E) (cancelled : Option (E → Bool × E)) (sink : Option (Sink K P E)) :
    Runtime K (P × E × Queue K) :=
  (surroundings env session cancelled sink).runtime env.random env.schedule

/-- An expansion of a node by one completion, with the message that asks for it. -/
structure Requested (spec : LlmSessionSpec K) (parts : LlmParts K W) (task : Str) (n k : Nat)
    (answer : Except Exc (List Str)) (arena : Arena K) (before after : LlmWorld K W) (user : Str) :
    Prop where
  /-- the candidates are those of one completion, requested in two messages -/
  completed : ∃ request : CompletionRequest K,
    request.messages.map ChatMessage.content = [generatorSystemPrompt, user] ∧
      after = (spec.client parts request before).2 ∧
      answer = (spec.client parts request before).1.map fun response =>
        (splitCandidates parts.alnum response.text).take k
  task : lit "TASK:\n" ++ task <+: user
  /-- the steps of the path, each under its number -/
  steps : ∀ i m, (arena.pathFromRoot n)[i + 1]? = some m →
    Str.ofNat (i + 1) ++ lit ". " ++ (arena.node m).content <:+: user

variable {evaluator : CodeExecutionEvaluator K (LlmWorld K W)}
  {critic : Nat → Call K (LlmWorld K W) (Option (Critique K))} {revision : BoundedRevisionPolicy}
  {weights : RewardWeights K} {budget : Option TokenBudget}
  {ctl : TreeSearchController K (LlmWorld K W × E × Queue K)}

/-- The policies of a search, whatever surrounds it. -/
theorem Wired.searchController_eq
    (h : Wired spec parts baseline session evaluator critic revision weights budget)
    (env : SessionRuntime K (LlmWorld K W) E) (cancelled : Option (E → Bool × E))
    (sink : Option (Sink K (LlmWorld K W) E)) : session.searchController env cancelled sink =
      Policies.controller { tracePolicies spec parts evaluator revision weights with
        critic := some critic } session.config (surroundings env session cancelled sink) := by
  rw [ReasoningSession.searchController, h.policies_eq]
  rfl

/-- Only the revision policy writes notes. -/
theorem Wired.notes_soleWriter
    (h : Wired spec parts baseline session evaluator critic revision weights budget)
    {outside : Surroundings K (LlmWorld K W) (E × Queue K)}
    (hctl : ctl = Policies.controller { tracePolicies spec parts evaluator revision weights with
      critic := some critic } session.config outside) :
    ctl.SoleWriter revisionNotesKey .revision := by
  obtain ⟨hgenerator, hcritic, hevaluator, -, hreward⟩ :=
    spares_tracePolicies (critic_metadata h.critic_eq) session.config _ revisionNotesKey hctl
  rintro (_ | _ | _ | _ | _) hne
  case generator => exact hgenerator
  case evaluator => exact hevaluator (by decide)
  case critic => exact hcritic
  case revision => exact absurd rfl hne
  case reward => exact hreward (by decide)

omit [PyDecimal K] in
/-- A step that asks for candidates requests one completion, for the node and its notes. -/
theorem requested_of_step {outside : Surroundings K (LlmWorld K W) (E × Queue K)}
    (hctl : ctl = Policies.controller { tracePolicies spec parts evaluator revision weights with
      critic := some critic } session.config outside) {rt : Runtime K (LlmWorld K W × E × Queue K)}
    {task : Str} {draws : Nat} {c c' : Stage K × RunState K (LlmWorld K W × E × Queue K)}
    (hc : Reach ctl rt task draws c) (hs : Step ctl rt c c') {newest : List (Obs K)} {n k : Nat}
    {answer : Except Exc (List Str)} (hlog : c'.2.log = newest ++ .generate n k answer :: c.2.log) :
    ∃ user, Requested spec parts task n k answer c.2.tree.arena c.2.world.1 c'.2.world.1 user ∧
      (spec.generator parts).notesOf (c.2.metadata n) <:+: user := by
  obtain ⟨hstage, rfl, hanswer, hworld, -⟩ := hs.generate_written hlog
  have halloc : n < c.2.tree.arena.size := (hc.inv.working n (by rw [hstage]; rfl)).alloc
  obtain ⟨request, user, hrequest, hmessages, htask, hsteps, hnotes⟩ :=
    request_names_path spec parts (c.2.metadata n) halloc ctl.config.branchingFactor
  rw [hc.root_content] at htask
  have hgenerator : ctl.generator n ctl.config.branchingFactor c.2.tree.arena c.2.metadata c.2.world =
      ((spec.generator parts).generate n ctl.config.branchingFactor).within c.2.tree.arena
        c.2.metadata c.2.world := by
    rw [hctl]
    rfl
  rw [hgenerator] at hanswer hworld
  obtain ⟨hcandidates, hafter⟩ := LlmThoughtGenerator.generate_of_request c.2.world.1 hrequest
  refine ⟨user, ⟨⟨request, hmessages, ?_, ?_⟩, htask, hsteps⟩, hnotes⟩
  · rw [hworld]
    exact hafter
  · rw [hanswer]
    exact hcandidates

/-- In every search of a session each expansion requests one completion, in a message that names the
task and the path to the node and has the notes that were compiled for its last revision. -/
theorem requests_carry_notes (h : spec.session parts archiveDir baseline = .ok session)
    (env : SessionRuntime K (LlmWorld K W) E) (cancelled : Option (E → Bool × E))
    (sink : Option (Sink K (LlmWorld K W) E)) (world : LlmWorld K W × E × Queue K)
    {newer older : List (Obs K)} {n k : Nat} {answer : Except Exc (List Str)}
    (hlog : (finalState ((session.searchController env cancelled sink).run
      (session.searchRuntime env cancelled sink) session.task 0 world)).log =
        newer ++ .generate n k answer :: older) :
    ∃ c c' user revision,
      Reach (session.searchController env cancelled sink) (session.searchRuntime env cancelled sink)
        session.task 0 c ∧ c.2.log = older ∧
      Step (session.searchController env cancelled sink) (session.searchRuntime env cancelled sink)
        c c' ∧
      Requested spec parts session.task n k answer c.2.tree.arena c.2.world.1 c'.2.world.1 user ∧
      BoundedRevisionPolicy.create spec.revisionAttempts true = .ok revision ∧
      ∀ recent oldest, older = recent ++ .revise n (.ok true) :: oldest →
        .revise n (.ok true) ∉ recent →
          ∃ c₀ c₁ notes, Reach (session.searchController env cancelled sink)
              (session.searchRuntime env cancelled sink) session.task 0 c₀ ∧ c₀.2.log = oldest ∧
            Grant (session.searchController env cancelled sink)
              (session.searchRuntime env cancelled sink) revision parts.text n notes c₀ c₁ ∧
            notes ≠ [] ∧ notes <:+: user := by
  obtain ⟨evaluator, critic, revision, weights, budget, hwired⟩ := LlmSessionSpec.wired h
  have hctl := hwired.searchController_eq env cancelled sink
  generalize session.searchRuntime env cancelled sink = rt at hlog ⊢
  generalize session.searchController env cancelled sink = ctl at hlog hctl ⊢
  have hp : ctl.revisionPolicy = some (revision.revise parts.text) := by
    rw [hctl]
    exact congrArg some (funext fun node => revision.revise_within parts.text node)
  obtain ⟨st, hreach, -⟩ := run_between ctl rt session.task 0 world
  obtain ⟨c, c', newest, hc, rfl, hlog', -, hs, -⟩ := hreach.trace_step hlog (by simp)
  obtain ⟨user, hrequested, hnotes⟩ := requested_of_step hctl hc hs hlog'
  refine ⟨c, c', user, revision, hc, rfl, hs, hrequested, hwired.revision_eq,
    fun recent oldest holder hnone => ?_⟩
  obtain ⟨c₀, c₁, notes, h₀, hlog₀, hgrant, hstored⟩ :=
    Grant.last_of_log hp (hwired.notes_soleWriter hctl) hc holder hnone
  have hrequired := BoundedRevisionPolicy.requireGuidance_of_create hwired.revision_eq
  refine ⟨c₀, c₁, notes, h₀, hlog₀, hgrant, hgrant.guided hrequired, ?_⟩
  have hnotesOf : (spec.generator parts).notesOf (c.2.metadata n) = notes := by
    rw [LlmThoughtGenerator.notesOf, show Dict.get? (c.2.metadata n) revisionNotesKey =
      some (.str notes) from hstored]
    exact strip_of_compile hgrant.compiled
  rwa [hnotesOf] at hnotes

end Requests

section Examples

/-- A specification without a ceiling. -/
def patientSpec : LlmSessionSpec ℚ :=
  { chattySpec with maxLlmCalls := none, checked := by decide +kernel }

/-- Requests for candidates, and granted revisions. -/
def exchanged : Obs ℚ → Option (Bool × Nat)
  | .generate n _ _ => some (true, n)
  | .revise n (.ok true) => some (false, n)
  | _ => none

/-- The root is expanded a second time with the notes of its revision. -/
theorem requests_carry_notes_small : ∃ (session : ReasoningSession ℚ (LlmWorld ℚ Unit) Unit)
    (c c' : Stage ℚ × RunState ℚ (LlmWorld ℚ Unit × Unit × Queue ℚ)) (k : Nat)
    (answer : Except Exc (List Str)) (user notes : Str),
      patientSpec.session failingParts none ⟨0, 0, 0⟩ = .ok session ∧
      Step (session.searchController stillSurroundings none none)
        (session.searchRuntime stillSurroundings none none) c c' ∧
      Requested patientSpec failingParts session.task 0 k answer c.2.tree.arena c.2.world.1
        c'.2.world.1 user ∧
      notes ≠ [] ∧ notes <:+: user := by
  have hrun : (patientSpec.session failingParts none ⟨0, 0, 0⟩ : Except Exc
      (ReasoningSession ℚ (LlmWorld ℚ Unit) Unit)).toOption.map (fun session =>
        (finalState ((session.searchController stillSurroundings none none).run
          (session.searchRuntime stillSurroundings none none) session.task 0
            untouched.1)).log.filterMap exchanged) =
      some [(true, 0), (false, 0), (true, 0)] := by decide +kernel
  obtain ⟨session, hsession, hlog⟩ := exists_ok_of_toOption hrun
  obtain ⟨newer, asked, older, hlog, -, hasked, hrest⟩ := List.filterMap_eq_cons_iff.mp hlog
  obtain ⟨recent, granted, oldest, rfl, hrecent, hgranted, -⟩ := List.filterMap_eq_cons_iff.mp hrest
  obtain ⟨k, answer, rfl⟩ : ∃ k answer, asked = .generate 0 k answer := by
    unfold exchanged at hasked
    split at hasked
    · cases hasked
      exact ⟨_, _, rfl⟩
    · cases hasked
    · cases hasked
  obtain rfl : granted = .revise 0 (.ok true) := by
    unfold exchanged at hgranted
    split at hgranted
    · cases hgranted
    · cases hgranted
      rfl
    · cases hgranted
  obtain ⟨c, c', user, revision, -, -, hs, hrequested, -, hnotes⟩ :=
    requests_carry_notes hsession stillSurroundings none none untouched.1 hlog
  obtain ⟨-, -, notes, -, -, -, hne, hcarried⟩ := hnotes recent oldest rfl fun hmem => by
    cases hrecent _ hmem
  exact ⟨session, c, c', k, answer, user, notes, hsession, hs, hrequested, hne, hcarried⟩

end Examples

end CognitiveTree.Session
