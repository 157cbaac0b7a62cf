import CognitiveTree.Feedback.Revision
import CognitiveTree.Sandbox.Evaluation

/-!
# Diagnosis of execution records

The critic reads the record that the evaluator left in a node's metadata and classifies the
failure by the record's status, its exit code and the last meaningful line of its error output.
Whatever that line says, the guidance is never blank, so every diagnosis turns into a revision
note.
-/

namespace CognitiveTree.Feedback

open Search Sandbox

section ErrorLine

/-- `[A-Za-z_]`. -/
def isNameStart (c : CodePoint) : Bool :=
  (65 ≤ c.val && c.val ≤ 90) || (97 ≤ c.val && c.val ≤ 122) || c.val == 95

/-- `[A-Za-z0-9_]`. -/
def isNameChar (c : CodePoint) : Bool := isNameStart c || (48 ≤ c.val && c.val ≤ 57)

/-- The endings of an exception's name. -/
def errorSuffixes : List Str :=
  [lit "Error", lit "Exception", lit "Exit", lit "Interrupt", lit "Warning"]

/-- `_ERROR_LINE` on a line without a line feed: a name with one of the endings behind its first
character, and nothing or a message behind the name. -/
structure ErrorLine (line name message : Str) : Prop where
  named : ∃ first middle suffix, name = first :: middle ++ suffix ∧ isNameStart first = true ∧
    (∀ c ∈ middle, isNameChar c = true) ∧ suffix ∈ errorSuffixes
  behind : line = name ∧ message = [] ∨
    ∃ text, line = name ++ lit ":" ++ text ∧ message = Str.strip text

/-- `_ERROR_LINE.match(line)`: the groups `name` and `message`, the latter stripped and empty when
it is missing. A name ends where the name characters do, since only a colon may follow. -/
def matchErrorLine (line : Str) : Option (Str × Str) :=
  let name := line.takeWhile isNameChar
  let rest := line.dropWhile isNameChar
  if name.head?.any isNameStart = true ∧
      (errorSuffixes.any fun suffix => suffix.isSuffixOf name.tail) = true ∧
      (rest = [] ∨ rest.head? = some 58) then
    some (name, Str.strip rest.tail)
  else none

theorem errorSuffixes_chars {suffix : Str} (h : suffix ∈ errorSuffixes) {c : CodePoint}
    (hc : c ∈ suffix) : isNameChar c = true := by
  have hall : (errorSuffixes.all fun s => s.all isNameChar) = true := by decide
  exact List.all_eq_true.mp (List.all_eq_true.mp hall suffix h) c hc

/-- The match that is found is the one the expression describes. -/
theorem matchErrorLine_eq_some {line name message : Str} :
    matchErrorLine line = some (name, message) ↔ ErrorLine line name message := by
  unfold matchErrorLine
  dsimp only
  constructor
  · intro h
    split at h
    · rename_i hmatch
      obtain ⟨hstart, hsuffix, hrest⟩ := hmatch
      cases h
      have hsplit := List.takeWhile_append_dropWhile (p := isNameChar) (l := line)
      constructor
      · generalize hname : line.takeWhile isNameChar = word at hstart hsuffix
        rcases word with _ | ⟨first, word⟩
        · cases hstart
        · obtain ⟨suffix, hs, hend⟩ := List.any_eq_true.mp hsuffix
          obtain ⟨middle, rfl⟩ := List.isSuffixOf_iff_suffix.mp hend
          refine ⟨first, middle, suffix, rfl, hstart, fun c hc => ?_, hs⟩
          refine List.mem_takeWhile_imp (l := line) ?_
          rw [hname]
          simp [hc]
      · generalize line.dropWhile isNameChar = rest at hrest hsplit
        rcases rest with _ | ⟨colon, text⟩
        · exact Or.inl ⟨by simpa using hsplit.symm, rfl⟩
        · refine Or.inr ⟨text, ?_, rfl⟩
          have hcolon : colon = 58 := by simpa using hrest
          rw [hcolon] at hsplit
          rw [List.append_assoc]
          exact hsplit.symm
    · cases h
  · rintro ⟨⟨first, middle, suffix, rfl, hstart, hmiddle, hsuffix⟩, hline⟩
    have hchars : ∀ c ∈ first :: middle ++ suffix, isNameChar c = true := by
      intro c hc
      rcases List.mem_append.mp hc with hc | hc
      · rcases List.mem_cons.mp hc with rfl | hc
        · simp [isNameChar, hstart]
        · exact hmiddle c hc
      · exact errorSuffixes_chars hsuffix hc
    have hend : (errorSuffixes.any fun s => s.isSuffixOf (middle ++ suffix)) = true :=
      List.any_eq_true.mpr ⟨suffix, hsuffix, List.isSuffixOf_iff_suffix.mpr ⟨middle, rfl⟩⟩
    rcases hline with ⟨rfl, rfl⟩ | ⟨text, rfl, rfl⟩
    · rw [List.takeWhile_eq_self_iff.mpr hchars, List.dropWhile_eq_nil_iff.mpr hchars]
      exact if_pos ⟨hstart, hend, Or.inl rfl⟩
    · have hcolon : lit ":" ++ text = 58 :: text := rfl
      rw [List.append_assoc, hcolon, List.takeWhile_append_of_pos hchars,
        List.dropWhile_append_of_pos hchars]
      have hstop : isNameChar 58 = false := rfl
      rw [List.takeWhile_cons_of_neg (by simp [hstop]), List.dropWhile_cons_of_neg (by simp [hstop]),
        List.append_nil]
      exact if_pos ⟨hstart, hend, Or.inr rfl⟩

end ErrorLine

variable {K W : Type} [PyFloat K]

/-- `x == 0`. -/
def equalsZero : PyVal K → Bool
  | .bool b => !b
  | .int i => i = 0
  | .float x => PyFloat.eq x PyFloat.zero
  | _ => false

/-- `x == "..."`. -/
def equalsText : PyVal K → Str → Bool
  | .str s, t => s = t
  | _, _ => false

/-- `_diagnose_stderr(stderr, exit_code)`, with the exit code as it is printed. -/
def diagnoseStderr (stderr exitCode : Str) : Except Exc (Critique K) :=
  let line := Str.lastMeaningfulLine stderr
  match matchErrorLine line with
  | none =>
    let guidance := if line = [] then lit "Revise the implementation so the payload exits cleanly."
      else lit "Inspect the failure output and revise the implementation to exit cleanly: " ++ line
    Critique.create .exception (lit "payload exited with code " ++ exitCode) guidance
      (PyFloat.tenths 7)
  | some (name, message) =>
    let detail := if message = [] then name else name ++ lit ": " ++ message
    if name = lit "AssertionError" then
      if message = [] then
        Critique.create .assertion (lit "a validation check failed without a message")
          (lit "Revise the implementation until every validation assertion passes.")
          (PyFloat.tenths 6)
      else
        Critique.create .assertion (lit "validation check failed: " ++ message)
          (lit "Revise the implementation so that this requirement holds: " ++ message)
          (PyFloat.tenths 6)
    else if name ∈ [lit "SyntaxError", lit "IndentationError", lit "TabError"] then
      Critique.create .syntaxError (lit "payload failed to parse: " ++ detail)
        (lit "Repair the syntax so the payload parses before resubmitting.") (PyFloat.tenths 8)
    else
      Critique.create .exception (lit "payload raised " ++ detail)
        (lit "Handle or eliminate the " ++ name ++ lit " raised at runtime" ++
          (if message = [] then [] else lit " (" ++ message ++ lit ")") ++ lit ".")
        (PyFloat.tenths 7)

/-- The diagnosis of a record. -/
def diagnoseRecord (text : PyVal K → Str) (record : PyVal K) :
    Except Exc (Option (Critique K)) := do
  let fields ← itemsOf record
  let exitCode := (Dict.get? fields (lit "exit_code")).getD .none
  let stderr := (Dict.get? fields (lit "stderr")).getD (.str [])
  if equalsText ((Dict.get? fields (lit "status")).getD .none) (lit "timeout") then
    (Critique.create .timeout (lit "payload exceeded its execution deadline")
      (lit "Remove unbounded loops or reduce algorithmic complexity; " ++
        lit "the payload must terminate within its time budget.") (PyFloat.tenths 9)).map some
  else if equalsZero exitCode then pure none
  else (diagnoseStderr (formatted text stderr) (formatted text exitCode)).map some

/-- The diagnosis of a node's metadata. -/
def diagnoseMetadata (text : PyVal K → Str) (metadata : Metadata K) :
    Except Exc (Option (Critique K)) :=
  match (Dict.get? metadata executionKey).getD .none with
  | .none => (Critique.create .noExecution (lit "thought carries no executable payload")
      (lit "Produce a complete implementation inside a fenced " ++ lit "```python``` block.")
      (PyFloat.tenths 4)).map some
  | record => diagnoseRecord text record

/-- `ExecutionTraceCritic().critique(node)`. -/
def executionTraceCritic (text : PyVal K → Str) (node : Nat) : Call K W (Option (Critique K)) :=
  fun _ metadata world => ⟨diagnoseMetadata text (metadata node), metadata, world⟩

section Guidance

/-- The guidance of a critique is not blank. -/
def Guiding (critique : Critique K) : Prop := Str.strip critique.guidance ≠ []

variable [UnitTenths K]

/-- A severity with one decimal passes the check of a critique. -/
theorem create_guiding (failureClass : FailureClass) (summary : Str) {guidance : Str} {n : Nat}
    (hn : n ≤ 10) (hguidance : (guidance.head?.any fun c => !Str.isSpace c) = true) :
    ∃ critique : Critique K, Critique.create failureClass summary guidance (PyFloat.tenths n) =
      .ok critique ∧ Guiding critique := by
  refine ⟨⟨failureClass, summary, guidance, _, UnitTenths.inUnit_tenths n hn⟩, ?_, ?_⟩
  · rw [Critique.create, dif_pos]
  · exact Str.strip_ne_nil hguidance

/-- Whatever the error output says, it is diagnosed. -/
theorem diagnoseStderr_guiding (stderr exitCode : Str) : ∃ critique : Critique K,
    diagnoseStderr stderr exitCode = .ok critique ∧ Guiding critique := by
  unfold diagnoseStderr
  dsimp only
  split
  · split
    · exact create_guiding _ _ (by decide) rfl
    · exact create_guiding _ _ (by decide) rfl
  · split
    · split
      · exact create_guiding _ _ (by decide) rfl
      · exact create_guiding _ _ (by decide) rfl
    · split
      · exact create_guiding _ _ (by decide) rfl
      · exact create_guiding _ _ (by decide) rfl

omit [UnitTenths K] in
theorem exists_map_some {answer : Except Exc (Critique K)}
    (h : ∃ critique, answer = .ok critique ∧ Guiding critique) :
    ∃ critique, answer.map some = .ok (some critique) ∧ Guiding critique := by
  obtain ⟨critique, rfl, hguiding⟩ := h
  exact ⟨critique, rfl, hguiding⟩

/-- The record of an execution is diagnosed, unless it ended in time with exit code zero. -/
theorem diagnoseRecord_spec (text : PyVal K → Str) (result : ExecutionResult K) :
    (∃ critique, diagnoseRecord text result.toDict = .ok (some critique) ∧ Guiding critique) ∨
    diagnoseRecord text result.toDict = .ok none ∧ result.status ≠ .timeout ∧
      result.exitCode = some 0 := by
  have hrun : diagnoseRecord text result.toDict =
      if equalsText (.str result.status.value : PyVal K) (lit "timeout") then
        (Critique.create .timeout (lit "payload exceeded its execution deadline")
          (lit "Remove unbounded loops or reduce algorithmic complexity; " ++
            lit "the payload must terminate within its time budget.") (PyFloat.tenths 9)).map some
      else if equalsZero result.exitValue then .ok none
      else (diagnoseStderr (formatted text (.str result.stderr))
        (formatted text result.exitValue)).map some := rfl
  rw [hrun]
  by_cases htimeout : result.status = .timeout
  · rw [htimeout]
    exact Or.inl (exists_map_some (create_guiding _ _ (by decide) rfl))
  · have hstatus : equalsText (.str result.status.value : PyVal K) (lit "timeout") = false := by
      cases hcase : result.status with
      | timeout => exact absurd hcase htimeout
      | completed | sandboxError => rfl
    rw [hstatus, if_neg (by simp)]
    cases hexit : equalsZero result.exitValue with
    | false => exact Or.inl (exists_map_some (diagnoseStderr_guiding _ _))
    | true =>
      refine Or.inr ⟨rfl, htimeout, ?_⟩
      unfold ExecutionResult.exitValue at hexit
      split at hexit
      · cases hexit
      · rename_i code hcode
        rw [hcode, of_decide_eq_true hexit]

/-- A node with the record of an execution, or without one, is diagnosed or was run to the end. -/
theorem diagnoseMetadata_spec (text : PyVal K → Str) {metadata : Metadata K}
    (h : Dict.get? metadata executionKey = none ∨
      ∃ result : ExecutionResult K, Dict.get? metadata executionKey = some result.toDict) :
    (∃ critique, diagnoseMetadata text metadata = .ok (some critique) ∧ Guiding critique) ∨
    diagnoseMetadata text metadata = .ok none ∧ ∃ result : ExecutionResult K,
      Dict.get? metadata executionKey = some result.toDict ∧ result.status ≠ .timeout ∧
      result.exitCode = some 0 := by
  unfold diagnoseMetadata
  rcases h with hnone | ⟨result, hresult⟩
  · rw [hnone]
    exact Or.inl (exists_map_some (create_guiding _ _ (by decide) rfl))
  · rw [hresult]
    rcases diagnoseRecord_spec text result with hcritique | ⟨hclean, hstatus, hexit⟩
    · exact Or.inl hcritique
    · exact Or.inr ⟨hclean, result, rfl, hstatus, hexit⟩

end Guidance

end CognitiveTree.Feedback
