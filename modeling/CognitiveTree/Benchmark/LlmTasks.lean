import CognitiveTree.Sandbox.Fences

/-!
# Benchmark candidates

A benchmark problem states its candidates the way the generator prompt asks for them. The code comes
back from the extraction character for character exactly when only newlines break its lines and no
line of it consists of blanks.
-/

namespace CognitiveTree.Benchmark

open Sandbox Str

/-- `as_candidate(description, code)`. -/
def asCandidate (description code : Str) : Str :=
  description ++ lit "\n```python\n" ++ strip code ++ lit "\n```"

/-- The fence of `as_candidate`. -/
def candidateFence : Fence := ⟨backtick, 3⟩

/-- A description without opening fences leaves every block closed, and has none. -/
theorem blocks_of_description {lines : List Str} (h : ∀ l ∈ lines, openingFence l = none) :
    openAfter lines none = none ∧ blocksFrom lines none = [] := by
  induction lines with
  | nil => exact ⟨rfl, rfl⟩
  | cons line lines ih =>
    rw [List.forall_mem_cons] at h
    rw [openAfter, blocksFrom, h.1]
    exact ih h.2

/-- A block takes the lines that do not close it, and ends at the one that does. -/
theorem blocksFrom_of_not_closes {lines : List Str} {last : Str} {fence : Fence} (info : Str)
    (h : ∀ l ∈ lines, closes l fence = false) (hlast : closes last fence = true)
    (body : List Str) : blocksFrom (lines ++ [last]) (some ⟨fence, info, body⟩) =
      [OpenBlock.close ⟨fence, info, body ++ lines⟩] := by
  induction lines generalizing body with
  | nil =>
    rw [List.nil_append, blocksFrom, if_pos hlast, List.append_nil]
    rfl
  | cons line lines ih =>
    rw [List.forall_mem_cons] at h
    rw [List.cons_append, blocksFrom, h.1, if_neg (by simp), ih h.2]
    simp

/-- A body closed over flat lines has no line break but newlines. -/
theorem eq_newline_of_mem_close {b : OpenBlock}
    (h : ∀ l ∈ b.body, ∀ c ∈ l, isLineBreak c = false) :
    ∀ c ∈ b.close.body, isLineBreak c = true → c = newline := by
  intro c hc
  have hjoin : c ∈ join [newline] (dedentLines b.body) := by
    rw [← strip_split (join [newline] (dedentLines b.body))]
    simp only [List.mem_append]
    exact .inl (.inr hc)
  refine eq_newline_of_mem_join (fun l hl d hd => ?_) c hjoin
  obtain ⟨line, hline, hmem⟩ := exists_mem_of_mem_dedentLines hl d hd
  exact h line hline d hmem

/-- The bodies of the blocks have no line break but newlines. -/
theorem eq_newline_of_mem_body {lines : List Str}
    (hlines : ∀ l ∈ lines, ∀ c ∈ l, isLineBreak c = false) (open? : Option OpenBlock)
    (hopen : ∀ b ∈ open?, ∀ l ∈ b.body, ∀ c ∈ l, isLineBreak c = false) :
    ∀ b ∈ blocksFrom lines open?, ∀ c ∈ b.body, isLineBreak c = true → c = newline := by
  induction lines generalizing open? with
  | nil =>
    cases open? with
    | none => simp [blocksFrom]
    | some b =>
      rw [blocksFrom, List.forall_mem_singleton]
      exact eq_newline_of_mem_close (hopen b rfl)
  | cons line lines ih =>
    rw [List.forall_mem_cons] at hlines
    cases open? with
    | none =>
      rw [blocksFrom]
      split
      · exact ih hlines.2 none hopen
      · refine ih hlines.2 _ fun b hb => ?_
        cases hb
        simp
    | some b =>
      rw [blocksFrom]
      split
      · rw [List.forall_mem_cons]
        exact ⟨eq_newline_of_mem_close (hopen b rfl), ih hlines.2 none (by simp)⟩
      · refine ih hlines.2 _ fun b' hb' => ?_
        cases hb'
        rw [List.forall_mem_append, List.forall_mem_singleton]
        exact ⟨hopen b rfl, hlines.1⟩

/-- The blocks of a candidate are those behind its opening fence. -/
theorem fencedBlocks_asCandidate {description : Str} (code : Str)
    (h : ∀ l ∈ splitLines description, openingFence l = none) :
    fencedBlocks (asCandidate description code) =
      blocksFrom (linesFrom (strip code ++ [newline]) [] ++ [lit "```"])
        (some ⟨candidateFence, lit "python", []⟩) := by
  have htext : asCandidate description code = description ++ newline :: (lit "```python" ++
      newline :: (strip code ++ newline :: lit "```")) := by
    have hopen : lit "\n```python\n" = newline :: (lit "```python" ++ [newline]) := rfl
    have hclose : lit "\n```" = newline :: lit "```" := rfl
    rw [asCandidate, hopen, hclose]
    simp
  obtain ⟨hclosed, hblocks⟩ := blocks_of_description h
  have hfirst : linesFrom (lit "```python" ++ [newline]) [] = [lit "```python"] := by decide +kernel
  have hlast : linesFrom (lit "```") [] = [lit "```"] := by decide +kernel
  have hlines : splitLines (lit "```python" ++ newline :: (strip code ++ newline :: lit "```")) =
      lit "```python" :: (linesFrom (strip code ++ [newline]) [] ++ [lit "```"]) := by
    rw [splitLines, linesFrom_append_newline, hfirst, linesFrom_append_newline, hlast]
    rfl
  have hopening : openingFence (lit "```python") = some (candidateFence, lit "python") := rfl
  rw [htext, fencedBlocks_append hclosed, fencedBlocks, hblocks, fencedBlocks, hlines, blocksFrom,
    hopening]
  rfl

/-- Code broken by newlines only comes back with its blank lines emptied. -/
theorem extractPythonPayload_asCandidate {description code : Str}
    (hdescription : ∀ l ∈ splitLines description, openingFence l = none)
    (hcode : strip code ≠ [])
    (hfence : ∀ l ∈ code.splitOn newline, closes l candidateFence = false)
    (hbreaks : ∀ c ∈ strip code, isLineBreak c = true → c = newline) :
    extractPythonPayload (asCandidate description code) =
      if strip (join [newline] (((strip code).splitOn newline).map blanked)) = [] then none
      else some (strip (join [newline] (((strip code).splitOn newline).map blanked))) := by
  have hlines : linesFrom (strip code ++ [newline]) [] = (strip code).splitOn newline := by
    rw [linesFrom_of_newlines hbreaks]
    obtain ⟨first, rest, hparts⟩ :=
      List.exists_cons_of_ne_nil (List.splitOn_ne_nil newline (strip code))
    simp [hparts]
  have hinside : ∀ l ∈ (strip code).splitOn newline, closes l candidateFence = false := by
    intro l hl
    obtain ⟨l', hl', hstrip⟩ := exists_splitOn_of_strip code l hl
    have hnot := hfence l' hl'
    rw [closes, hstrip] at hnot
    exact hnot
  have hdedent : dedentLines ((strip code).splitOn newline) =
      ((strip code).splitOn newline).map blanked := by
    obtain ⟨c, rest, hvisible⟩ := List.exists_cons_of_ne_nil hcode
    have hc : isSpace c = false := isSpace_of_lstrip ((lstrip_strip code).trans hvisible)
    have hblank : isBlank c = false := by
      by_contra hblank
      simp only [isBlank, Bool.not_eq_false, Bool.or_eq_true, beq_iff_eq] at hblank
      rcases hblank with hblank | hblank <;> simp [isSpace, hblank] at hc
    have hne : c ≠ newline := by
      rintro rfl
      cases hc
    obtain ⟨first, parts, hparts⟩ :=
      List.exists_cons_of_ne_nil (List.splitOn_ne_nil newline rest)
    have hsplit : (strip code).splitOn newline = (c :: first) :: parts := by
      rw [hvisible, List.splitOn_cons_eq_if_modifyHead, if_neg (by simpa using hne), hparts]
      rfl
    rw [hsplit, dedentLines_of_visible hblank]
  have hblocks : fencedBlocks (asCandidate description code) =
      [⟨lit "python", strip (join [newline] (((strip code).splitOn newline).map blanked))⟩] := by
    rw [fencedBlocks_asCandidate code hdescription, hlines,
      blocksFrom_of_not_closes _ hinside (by decide), OpenBlock.close, List.nil_append, hdedent]
    rfl
  have hpython : isPythonTag (lit "python") = true := by decide
  rw [extractPythonPayload_eq, hblocks]
  split
  · rename_i hblank
    simp [pythonBody, untaggedBody, hblank]
  · rename_i hne
    simp [pythonBody, hne, hpython]

/-- The extraction returns the code of a candidate exactly when only newlines break its lines and no
line of it has blanks and nothing else. -/
theorem extract_asCandidate_iff (description code : Str)
    (hdescription : ∀ l ∈ splitLines description, openingFence l = none)
    (hcode : strip code ≠ [])
    (hfence : ∀ l ∈ code.splitOn newline, closes l candidateFence = false) :
    extractPythonPayload (asCandidate description code) = some (strip code) ↔
      (∀ c ∈ strip code, isLineBreak c = true → c = newline) ∧
        ∀ line ∈ (strip code).splitOn newline, line.all isBlank = true → line = [] := by
  by_cases hbreaks : ∀ c ∈ strip code, isLineBreak c = true → c = newline
  · rw [extractPythonPayload_asCandidate hdescription hcode hfence hbreaks]
    constructor
    · intro h
      refine ⟨hbreaks, fun line hline hblank => ?_⟩
      by_contra hne
      -- the emptied line is missing from the payload
      have hshort := length_join_blanked_lt [newline] hline hblank hne
      have hstrip := length_strip_le (join [newline] (((strip code).splitOn newline).map blanked))
      split at h
      · cases h
      · rw [Option.some.inj h] at hstrip
        rw [join_splitOn] at hshort
        omega
    · rintro ⟨-, hblank⟩
      have hsame : ((strip code).splitOn newline).map blanked = (strip code).splitOn newline := by
        rw [List.map_congr_left (g := id), List.map_id]
        intro line hline
        unfold blanked
        split
        · rename_i hall
          exact (hblank line hline hall).symm
        · rfl
      rw [hsame, join_splitOn, strip_strip, if_neg hcode]
  · refine iff_of_false (fun h => hbreaks ?_) fun h => hbreaks h.1
    obtain ⟨b, hb, hbody, -⟩ := exists_block_of_payload h
    rw [← hbody]
    exact eq_newline_of_mem_body (fun l hl => flat_of_mem_splitLines hl) none (by simp) b hb

/-- A program of two lines behind a description. -/
theorem extract_asCandidate_small : extractPythonPayload
    (asCandidate (lit "Double it.") (lit "def f(x):\n    return 2 * x\n")) =
      some (lit "def f(x):\n    return 2 * x") := by
  have hiff := extract_asCandidate_iff (lit "Double it.") (lit "def f(x):\n    return 2 * x\n")
    (by decide +kernel) (by decide +kernel) (by decide +kernel)
  have hstrip : strip (lit "def f(x):\n    return 2 * x\n") = lit "def f(x):\n    return 2 * x" := by
    decide +kernel
  rw [hstrip] at hiff
  have hbreaks : (lit "def f(x):\n    return 2 * x").all
      (fun c => !isLineBreak c || decide (c = newline)) = true := by decide +kernel
  refine hiff.mpr ⟨fun c hc hbreak => ?_, by decide +kernel⟩
  simpa [hbreak] using List.all_eq_true.mp hbreaks c hc

/-- A string literal over three lines loses the blanks of its middle line. -/
theorem extract_empties_blank_line :
    (∀ l ∈ splitLines (lit "Banner."), openingFence l = none) ∧
      strip (lit "s = '''\n  \n'''") ≠ [] ∧
      (∀ l ∈ (lit "s = '''\n  \n'''").splitOn newline, closes l candidateFence = false) ∧
      extractPythonPayload (asCandidate (lit "Banner.") (lit "s = '''\n  \n'''")) =
        some (lit "s = '''\n\n'''") ∧
      extractPythonPayload (asCandidate (lit "Banner.") (lit "s = '''\n  \n'''")) ≠
        some (strip (lit "s = '''\n  \n'''")) := by
  refine ⟨by decide +kernel, by decide +kernel, by decide +kernel, by decide +kernel, ?_⟩
  decide +kernel

end CognitiveTree.Benchmark
