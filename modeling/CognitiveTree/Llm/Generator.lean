import CognitiveTree.Feedback.Revision
import CognitiveTree.Llm.Candidates
import CognitiveTree.Llm.Critic
import CognitiveTree.Search.Lineage

/-!
# Thoughts from a chat model

A node is expanded by one completion. Its request names the task, the steps of the path down to the
node and the node's revision notes, each of them verbatim.
-/

namespace CognitiveTree.Llm

open Search Feedback

/-- `GENERATOR_SYSTEM_PROMPT`. -/
def generatorSystemPrompt : Str :=
  lit "You are the expansion policy of a tree-search reasoning engine. Given a task,\n" ++
  lit "the reasoning path so far, and optional revision notes from failed attempts,\n" ++
  lit "you propose distinct candidate next thoughts.\n\nRules:\n" ++
  lit "- Propose exactly the requested number of candidates, each meaningfully\n" ++
  lit "  different from the others and from previously failed candidates.\n" ++
  lit "- When a candidate contains an implementation, place the complete runnable\n" ++
  lit "  code inside a single fenced ```python block; the code is executed and\n" ++
  lit "  validated in a sandbox, so it must be self-contained.\n" ++
  lit "- When revision notes are present, treat every note as a hard requirement\n" ++
  lit "  that previous candidates violated.\n" ++
  lit "- Separate candidates with a line that reads exactly: ### CANDIDATE\n" ++
  lit "- Output candidates only. No preamble, no commentary, no conclusion.\n"

/-- `REVISION_BLOCK_TEMPLATE.format(notes=notes)`, when there are notes. -/
def revisionBlock (notes : Str) : Str :=
  if notes = [] then []
  else lit "REVISION NOTES (requirements violated by pruned candidates):\n" ++ notes ++ lit "\n\n"

/-- `f"{index}. {content}"` for each step, counted from this index. -/
def numberedSteps : Nat → List Str → List Str
  | _, [] => []
  | index, step :: steps => (Str.ofNat index ++ lit ". " ++ step) :: numberedSteps (index + 1) steps

/-- The path below the root. -/
def renderedPath (steps : List Str) : Str :=
  if steps = [] then lit "(no thoughts yet; propose opening thoughts)"
  else Str.join (lit "\n") (numberedSteps 1 steps)

/-- `GENERATOR_USER_TEMPLATE.format(task=task, path=path, revision_block=block, k=k)`. -/
def generatorUserMessage (task path block : Str) (k : Nat) : Str :=
  lit "TASK:\n" ++ task ++ lit "\n\nREASONING PATH (root to current node):\n" ++ path ++ lit "\n\n" ++
    block ++ lit "Propose " ++ Str.ofNat k ++
    lit " candidate next thoughts. Start each with a line that reads exactly: ### CANDIDATE\n"

section Generator

variable {K W : Type} [PyFloat K]

/-- The fields of `LlmThoughtGenerator`, and what the runtime makes of values. -/
structure LlmThoughtGenerator (K W : Type) [PyFloat K] where
  /-- `client.complete` -/
  complete : CompletionRequest K → W → Except Exc CompletionResponse × W
  temperature : K
  maxTokens : Int
  /-- `str(x)` of a float or a container -/
  text : PyVal K → Str
  /-- `c.isalnum()` -/
  alnum : CodePoint → Bool

namespace LlmThoughtGenerator

variable (generator : LlmThoughtGenerator K W)

/-- `str(node.metadata.get("revision_notes", "")).strip()`. -/
def notesOf (metadata : Metadata K) : Str :=
  Str.strip (formatted generator.text ((Dict.get? metadata revisionNotesKey).getD (.str [])))

/-- `_render_user_message(node, k)`; a path is never empty. -/
def renderUserMessage (arena : Arena K) (metadata : Metadata K) (node k : Nat) : Str :=
  let path := arena.pathContents node
  generatorUserMessage (path.headD []) (renderedPath path.tail)
    (revisionBlock (generator.notesOf metadata)) k

/-- The request of `generate(node, k)`. -/
def request (arena : Arena K) (metadata : Metadata K) (node k : Nat) :
    Except Exc (CompletionRequest K) :=
  CompletionRequest.create [⟨lit "system", generatorSystemPrompt, ChatMessage.system_checked⟩,
    ⟨lit "user", generator.renderUserMessage arena metadata node k, ChatMessage.user_checked⟩]
    generator.temperature generator.maxTokens

/-- `generate(node, k)`. -/
def generate (node k : Nat) : Search.Call K W (List Str) := fun arena metadata world =>
  match generator.request arena (metadata node) node k with
  | .error e => ⟨.error e, metadata, world⟩
  | .ok request =>
    let (answer, world) := generator.complete request world
    match answer with
    | .error e => ⟨.error e, metadata, world⟩
    | .ok response => ⟨.ok ((splitCandidates generator.alnum response.text).take k), metadata, world⟩

/-- The request is made, and has the two messages, when the fields of the generator are valid. -/
theorem request_eq (hwarm : (PyFloat.le PyFloat.zero generator.temperature &&
      PyFloat.le generator.temperature (PyFloat.ofNat 2)) = true) (htokens : 1 ≤ generator.maxTokens)
    (arena : Arena K) (metadata : Metadata K) (node k : Nat) : ∃ request,
      generator.request arena metadata node k = .ok request ∧
        request.messages.map ChatMessage.content = [generatorSystemPrompt,
          generator.renderUserMessage arena metadata node k] := by
  rw [LlmThoughtGenerator.request, CompletionRequest.create, dif_pos (List.cons_ne_nil _ _),
    dif_pos hwarm, dif_pos htokens]
  exact ⟨_, rfl, rfl⟩

/-- A generated expansion leaves the metadata alone, whatever becomes of its completion. -/
theorem generate_metadata (node k : Nat) (arena : Arena K) (metadata : Nat → Metadata K)
    (world : W) : (generator.generate node k arena metadata world).metadata = metadata := by
  unfold generate
  split
  · rfl
  · dsimp only
    split <;> rfl

/-- A generator that completed its request. -/
theorem generate_of_request {generator : LlmThoughtGenerator K W} {arena : Arena K}
    {metadata : Nat → Metadata K} {n k : Nat} {request : CompletionRequest K} (w : W)
    (h : generator.request arena (metadata n) n k = .ok request) :
    (generator.generate n k arena metadata w).answer =
      (generator.complete request w).1.map (fun response =>
        (splitCandidates generator.alnum response.text).take k) ∧
      (generator.generate n k arena metadata w).world = (generator.complete request w).2 := by
  simp only [generate, h]
  split
  · rename_i hanswer
    exact ⟨by rw [hanswer]; rfl, rfl⟩
  · rename_i hanswer
    exact ⟨by rw [hanswer]; rfl, rfl⟩

end LlmThoughtGenerator

end Generator

section Prompts

/-- A part stands in the text it is joined to. -/
theorem infix_join {separator part : Str} {parts : List Str} (h : part ∈ parts) :
    part <:+: Str.join separator parts := by
  induction parts with
  | nil => cases h
  | cons first parts ih =>
    cases parts with
    | nil =>
      rw [List.mem_singleton.mp h]
      exact List.infix_refl _
    | cons second parts =>
      rcases List.mem_cons.mp h with rfl | h
      · exact ⟨[], separator ++ Str.join separator (second :: parts), by simp [Str.join]⟩
      · exact (ih h).trans ⟨first ++ separator, [], by simp [Str.join]⟩

/-- A step is numbered by its place. -/
theorem mem_numberedSteps {steps : List Str} {i : Nat} {step : Str} (h : steps[i]? = some step)
    (index : Nat) : Str.ofNat (index + i) ++ lit ". " ++ step ∈ numberedSteps index steps := by
  induction steps generalizing i index with
  | nil => cases h
  | cons first steps ih =>
    cases i with
    | zero =>
      cases h
      exact List.mem_cons_self ..
    | succ i =>
      have hrest := ih h (index + 1)
      rw [Nat.add_right_comm] at hrest
      exact List.mem_cons_of_mem _ hrest

theorem infix_renderedPath {steps : List Str} {i : Nat} {step : Str} (h : steps[i]? = some step) :
    Str.ofNat (i + 1) ++ lit ". " ++ step <:+: renderedPath steps := by
  have hne : steps ≠ [] := by
    rintro rfl
    cases h
  rw [renderedPath, if_neg hne, Nat.add_comm]
  exact infix_join (mem_numberedSteps h 1)

theorem infix_revisionBlock (notes : Str) : notes <:+: revisionBlock notes := by
  unfold revisionBlock
  split
  · rename_i hnil
    rw [hnil]
  · exact ⟨lit "REVISION NOTES (requirements violated by pruned candidates):\n", lit "\n\n", rfl⟩

variable {task path block : Str} {k : Nat}

theorem task_prefix_message : lit "TASK:\n" ++ task <+: generatorUserMessage task path block k := by
  unfold generatorUserMessage
  simp only [List.append_assoc]
  exact ⟨_, by rw [List.append_assoc]⟩

theorem path_infix_message : path <:+: generatorUserMessage task path block k := by
  unfold generatorUserMessage
  refine ⟨lit "TASK:\n" ++ task ++ lit "\n\nREASONING PATH (root to current node):\n",
    lit "\n\n" ++ block ++ lit "Propose " ++ Str.ofNat k ++
      lit " candidate next thoughts. Start each with a line that reads exactly: ### CANDIDATE\n", ?_⟩
  simp only [List.append_assoc]

theorem block_infix_message : block <:+: generatorUserMessage task path block k := by
  unfold generatorUserMessage
  refine ⟨lit "TASK:\n" ++ task ++ lit "\n\nREASONING PATH (root to current node):\n" ++ path ++
    lit "\n\n", lit "Propose " ++ Str.ofNat k ++
      lit " candidate next thoughts. Start each with a line that reads exactly: ### CANDIDATE\n", ?_⟩
  simp only [List.append_assoc]

end Prompts

end CognitiveTree.Llm
