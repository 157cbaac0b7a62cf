import CognitiveTree.Core.Lines

/-!
# Extraction of executable payloads

A thought is parsed line by line into its fenced blocks, and the first Python block, or else
the first untagged one, is the code to run.
-/

namespace CognitiveTree.Sandbox

/-- The characters of a fence: how many, and which. -/
structure Fence where
  mark : CodePoint
  length : Nat

/-- The backtick. -/
def backtick : CodePoint := 96

/-- The tilde. -/
def tilde : CodePoint := 126

/-- `_OPENING_FENCE.match(line)`: the fence and its info string. -/
def openingFence (line : Str) : Option (Fence × Str) :=
  match line.dropWhile Str.isBlank with
  | [] => none
  | c :: rest =>
    let length := 1 + (rest.takeWhile (· = c)).length
    let info := (rest.dropWhile (· = c)).dropWhile Str.isBlank
    if (c = backtick ∨ c = tilde) ∧ 3 ≤ length ∧ backtick ∉ info then some (⟨c, length⟩, info)
    else none

/-- `_closes(line, fence)`. -/
def closes (line : Str) (fence : Fence) : Bool :=
  let stripped := Str.strip line
  decide (fence.length ≤ stripped.length) && stripped.all (· = fence.mark)

/-- A fenced block with its tag. -/
structure Block where
  tag : Str
  body : Str

/-- A block whose closing fence has not been met. -/
structure OpenBlock where
  fence : Fence
  info : Str
  body : List Str

/-- The block of the lines collected so far. -/
def OpenBlock.close (b : OpenBlock) : Block where
  tag := (Str.split b.info).head?.getD []
  body := Str.strip (Str.join (lit "\n") (Str.dedentLines b.body))

/-- The loops of `_fenced_blocks` over the remaining lines. -/
def blocksFrom : List Str → Option OpenBlock → List Block
  | [], none => []
  | [], some b => [b.close]
  | line :: lines, none => match openingFence line with
    | none => blocksFrom lines none
    | some (fence, info) => blocksFrom lines (some ⟨fence, info, []⟩)
  | line :: lines, some b =>
    if closes line b.fence then b.close :: blocksFrom lines none
    else blocksFrom lines (some { b with body := b.body ++ [line] })

/-- `_fenced_blocks(text)`. -/
def fencedBlocks (text : Str) : List Block := blocksFrom (Str.splitLines text) none

/-- The version behind a Python tag: nothing, `3`, or `3` and a minor version. -/
def isVersion (s : Str) : Bool :=
  s = [] || s = lit "3" ||
    (lit "3.").isPrefixOf s && s.drop 2 ≠ [] && (s.drop 2).all fun c => (Str.digitValue c).isSome

/-- `_PYTHON_TAG.match(tag)`. -/
def isPythonTag (tag : Str) : Bool :=
  let name := Str.lower tag
  (lit "python").isPrefixOf name && isVersion (name.drop 6) ||
    (lit "py").isPrefixOf name && isVersion (name.drop 2)

/-- `extract_python_payload(text)`. -/
def extractPythonPayload (text : Str) : Option Str :=
  let blocks := (fencedBlocks text).filter fun b => b.body ≠ []
  match blocks.find? fun b => isPythonTag b.tag with
  | some b => some b.body
  | none => (blocks.find? fun b => b.tag = []).map fun b => b.body

/-- An extracted payload is the body of a block that is not blank. -/
theorem exists_block_of_payload {text payload : Str}
    (h : extractPythonPayload text = some payload) :
    ∃ b ∈ fencedBlocks text, b.body = payload ∧ b.body ≠ [] := by
  unfold extractPythonPayload at h
  dsimp only at h
  split at h
  · rename_i b hb
    cases h
    have hm := List.mem_filter.mp (List.mem_of_find?_eq_some hb)
    exact ⟨b, hm.1, rfl, by simpa using hm.2⟩
  · obtain ⟨b, hb, rfl⟩ := Option.map_eq_some_iff.mp h
    have hm := List.mem_filter.mp (List.mem_of_find?_eq_some hb)
    exact ⟨b, hm.1, rfl, by simpa using hm.2⟩

/-- An extracted payload is stripped and not empty. -/
theorem extractPythonPayload_ne_nil {text payload : Str}
    (h : extractPythonPayload text = some payload) : payload ≠ [] ∧ Str.strip payload = payload := by
  have hstrip : ∀ (lines : List Str) (open? : Option OpenBlock), ∀ b ∈ blocksFrom lines open?,
      Str.strip b.body = b.body := by
    intro lines
    induction lines with
    | nil =>
      rintro (_ | b) x hx
      · cases hx
      · rw [List.mem_singleton.mp hx]
        exact Str.strip_strip _
    | cons line lines ih =>
      rintro (_ | b) x hx
      · rw [blocksFrom] at hx
        split at hx
        · exact ih _ x hx
        · exact ih _ x hx
      · rw [blocksFrom] at hx
        split at hx
        · rcases List.mem_cons.mp hx with rfl | hx
          · exact Str.strip_strip _
          · exact ih _ x hx
        · exact ih _ x hx
  obtain ⟨b, hb, rfl, hne⟩ := exists_block_of_payload h
  exact ⟨hne, hstrip _ _ b hb⟩

example : extractPythonPayload (lit "Idea:\n- ~~~ Python3\n  x = 1\n```py\n  y = 2\n    z\n```\n") =
    some (lit "y = 2\n  z") := by decide +kernel

end CognitiveTree.Sandbox
