import CognitiveTree.Core.Splitting
import CognitiveTree.Sandbox.Extraction

/-!
# Pairing of fences

A fence is closed by the first line that is a run of at least as many of its own marks. A text whose
blocks are all closed does not interfere with the text behind it.
-/

namespace CognitiveTree.Sandbox

/-- The block that is not closed behind these lines. -/
def openAfter : List Str → Option OpenBlock → Option OpenBlock
  | [], open? => open?
  | line :: lines, none => match openingFence line with
    | none => openAfter lines none
    | some (fence, info) => openAfter lines (some ⟨fence, info, []⟩)
  | line :: lines, some b =>
    if closes line b.fence then openAfter lines none
    else openAfter lines (some { b with body := b.body ++ [line] })

/-- Every fenced block of a text is closed. -/
def Closed (text : Str) : Prop := openAfter (Str.splitLines text) none = none

instance (text : Str) : Decidable (Closed text) :=
  match h : openAfter (Str.splitLines text) none with
  | none => isTrue h
  | some _ => isFalse fun hc => by
    rw [Closed, h] at hc
    cases hc

/-- A line that closes a fence: a run of its mark that is not shorter. -/
def RunOf (fence : Fence) (line : Str) : Prop :=
  ∃ n, fence.length ≤ n ∧ Str.strip line = List.replicate n fence.mark

/-- Lines read as fenced blocks: prose between blocks, and each block from its opening fence to the
first line that closes it, or to the end. -/
inductive Pairing : List Str → List Block → Prop
  | done : Pairing [] []
  | prose {line : Str} {lines : List Str} {blocks : List Block} (opening : openingFence line = none)
      (rest : Pairing lines blocks) : Pairing (line :: lines) blocks
  | closed {line last info : Str} {fence : Fence} {body lines : List Str} {blocks : List Block}
      (opening : openingFence line = some (fence, info)) (inside : ∀ l ∈ body, ¬ RunOf fence l)
      (closing : RunOf fence last) (rest : Pairing lines blocks) :
      Pairing (line :: body ++ last :: lines) (OpenBlock.close ⟨fence, info, body⟩ :: blocks)
  | unclosed {line info : Str} {fence : Fence} {body : List Str}
      (opening : openingFence line = some (fence, info)) (inside : ∀ l ∈ body, ¬ RunOf fence l) :
      Pairing (line :: body) [OpenBlock.close ⟨fence, info, body⟩]

/-- A line closes a fence when it is a run of it. -/
theorem closes_iff (line : Str) (fence : Fence) : closes line fence = true ↔ RunOf fence line := by
  unfold closes RunOf
  simp only [Bool.and_eq_true, decide_eq_true_eq, List.all_eq_true]
  constructor
  · rintro ⟨hlength, hmarks⟩
    exact ⟨_, hlength, List.eq_replicate_of_mem hmarks⟩
  · rintro ⟨n, hlength, hrun⟩
    rw [hrun]
    refine ⟨by simpa using hlength, fun c hc => List.eq_of_mem_replicate hc⟩

/-- The lines behind an opening fence are its body up to the line that closes it. -/
theorem pairing_open (lines : List Str) :
    Pairing lines (blocksFrom lines none) ∧
      ∀ (line : Str) (b : OpenBlock), openingFence line = some (b.fence, b.info) →
        (∀ l ∈ b.body, ¬ RunOf b.fence l) →
        Pairing (line :: b.body ++ lines) (blocksFrom lines (some b)) := by
  induction lines with
  | nil =>
    refine ⟨.done, fun line b hopening hinside => ?_⟩
    rw [List.append_nil]
    exact .unclosed hopening hinside
  | cons first lines ih =>
    obtain ⟨hprose, hblock⟩ := ih
    constructor
    · rw [blocksFrom]
      split
      · rename_i hnone
        exact .prose hnone hprose
      · rename_i fence info hsome
        exact hblock first ⟨fence, info, []⟩ hsome (by simp)
    · intro line b hopening hinside
      rw [blocksFrom]
      split
      · rename_i hclose
        exact .closed hopening hinside ((closes_iff first b.fence).mp hclose) hprose
      · rename_i hopen
        have hnext := hblock line { b with body := b.body ++ [first] } hopening (by
          rw [List.forall_mem_append, List.forall_mem_singleton]
          exact ⟨hinside, mt (closes_iff first b.fence).mpr hopen⟩)
        simpa using hnext

/-- The blocks of a text pair each opening fence with the first line that closes it. -/
theorem pairing_fencedBlocks (text : Str) : Pairing (Str.splitLines text) (fencedBlocks text) :=
  (pairing_open (Str.splitLines text)).1

/-- Behind lines that leave no block open the parser starts anew. -/
theorem blocksFrom_append {lines : List Str} {open? : Option OpenBlock}
    (h : openAfter lines open? = none) (lines' : List Str) :
    blocksFrom (lines ++ lines') open? = blocksFrom lines open? ++ blocksFrom lines' none := by
  induction lines generalizing open? with
  | nil =>
    rw [openAfter] at h
    subst h
    rfl
  | cons line lines ih =>
    cases open? with
    | none =>
      rw [openAfter] at h
      rw [List.cons_append, blocksFrom, blocksFrom]
      cases hopening : openingFence line with
      | none =>
        rw [hopening] at h
        exact ih h
      | some opening =>
        rw [hopening] at h
        exact ih h
    | some b =>
      rw [openAfter] at h
      rw [List.cons_append, blocksFrom, blocksFrom]
      split
      · rename_i hclose
        rw [if_pos hclose] at h
        rw [ih h]
        rfl
      · rename_i hclose
        rw [if_neg hclose] at h
        exact ih h

/-- Behind a closed text the blocks are found anew. -/
theorem fencedBlocks_append {text : Str} (h : Closed text) (text' : Str) :
    fencedBlocks (text ++ Str.newline :: text') = fencedBlocks text ++ fencedBlocks text' := by
  have hblank : ∀ lines, blocksFrom ([] :: lines) none = blocksFrom lines none := fun _ => rfl
  unfold fencedBlocks
  rcases Str.splitLines_append_newline text text' with hlines | hlines
  · rw [hlines, blocksFrom_append h]
  · rw [hlines, blocksFrom_append h, hblank]

/-- The first body of these blocks that is not blank and tagged as Python. -/
def pythonBody (blocks : List Block) : Option Str :=
  (blocks.find? fun b => decide (b.body ≠ []) && isPythonTag b.tag).map Block.body

/-- The first body of these blocks that is not blank and not tagged. -/
def untaggedBody (blocks : List Block) : Option Str :=
  (blocks.find? fun b => decide (b.body ≠ []) && decide (b.tag = [])).map Block.body

/-- A tagged block goes before an untagged one. -/
theorem extractPythonPayload_eq (text : Str) : extractPythonPayload text =
    (pythonBody (fencedBlocks text)).or (untaggedBody (fencedBlocks text)) := by
  have hboth : ∀ p : Block → Bool, ((fencedBlocks text).filter fun b => b.body ≠ []).find? p =
      (fencedBlocks text).find? fun b => decide (b.body ≠ []) && p b := by
    intro p
    rw [List.find?_filter]
    congr 1
    ext b
    simp
  unfold extractPythonPayload pythonBody untaggedBody
  dsimp only
  rw [hboth, hboth]
  cases (fencedBlocks text).find? fun b => decide (b.body ≠ []) && isPythonTag b.tag <;> rfl

/-- The first tagged block is in the first text that has one. -/
theorem pythonBody_append (blocks blocks' : List Block) :
    pythonBody (blocks ++ blocks') = (pythonBody blocks).or (pythonBody blocks') := by
  simp [pythonBody, Option.map_or]

/-- The first untagged block is in the first text that has one. -/
theorem untaggedBody_append (blocks blocks' : List Block) :
    untaggedBody (blocks ++ blocks') = (untaggedBody blocks).or (untaggedBody blocks') := by
  simp [untaggedBody, Option.map_or]

/-- A block without code to run: blank, or tagged with another language. -/
def Skipped (b : Block) : Prop := b.body = [] ∨ b.tag ≠ [] ∧ isPythonTag b.tag = false

/-- Skipped blocks are no payload. -/
theorem bodies_of_skipped {blocks : List Block} (h : ∀ b ∈ blocks, Skipped b) :
    pythonBody blocks = none ∧ untaggedBody blocks = none := by
  unfold pythonBody untaggedBody
  rw [Option.map_eq_none_iff, Option.map_eq_none_iff, List.find?_eq_none, List.find?_eq_none]
  constructor
  · intro b hb
    rcases h b hb with hbody | ⟨-, htag⟩ <;> simp [*]
  · intro b hb
    rcases h b hb with hbody | ⟨htag, -⟩ <;> simp [*]

/-- Behind a text whose blocks are all closed every text keeps its blocks, and the payload is that
of the first Python block, or else of the first untagged one, of both texts in their order; a first
part without code to run changes nothing. Each block of the whole ends at the first line that is a
run of at least as many of its marks. -/
theorem fences_compose (text text' : Str) (hclosed : Closed text) :
    fencedBlocks (text ++ Str.newline :: text') = fencedBlocks text ++ fencedBlocks text' ∧
      extractPythonPayload (text ++ Str.newline :: text') =
        (((pythonBody (fencedBlocks text)).or (pythonBody (fencedBlocks text'))).or
          (untaggedBody (fencedBlocks text))).or (untaggedBody (fencedBlocks text')) ∧
      ((∀ b ∈ fencedBlocks text, Skipped b) →
        extractPythonPayload (text ++ Str.newline :: text') = extractPythonPayload text') ∧
      Pairing (Str.splitLines (text ++ Str.newline :: text'))
        (fencedBlocks (text ++ Str.newline :: text')) := by
  have hblocks := fencedBlocks_append hclosed text'
  have hpayload : extractPythonPayload (text ++ Str.newline :: text') =
      (((pythonBody (fencedBlocks text)).or (pythonBody (fencedBlocks text'))).or
        (untaggedBody (fencedBlocks text))).or (untaggedBody (fencedBlocks text')) := by
    rw [extractPythonPayload_eq, hblocks, pythonBody_append, untaggedBody_append, ← Option.or_assoc]
  refine ⟨hblocks, hpayload, fun hskipped => ?_, pairing_fencedBlocks _⟩
  obtain ⟨hpython, huntagged⟩ := bodies_of_skipped hskipped
  rw [hpayload, hpython, huntagged, extractPythonPayload_eq, Option.none_or, Option.or_none]

/-- A shell block in front of an untagged block in tildes. -/
theorem fences_compose_small : extractPythonPayload
    (lit "```sh\nls\n````" ++ Str.newline :: lit "~~~\n```\nx = 1\n~~~") = some (lit "```\nx = 1") := by
  obtain ⟨-, hpayload, -, -⟩ := fences_compose (lit "```sh\nls\n````")
    (lit "~~~\n```\nx = 1\n~~~") (by decide +kernel)
  exact hpayload.trans (by decide +kernel)

end CognitiveTree.Sandbox
