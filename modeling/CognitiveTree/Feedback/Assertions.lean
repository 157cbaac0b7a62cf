import CognitiveTree.Core.Splitting
import CognitiveTree.Feedback.Critic

/-!
# Assertion messages

The critic looks at the last meaningful line of the error output. A message that ends the line of
its assertion passes into the guidance, and a message that spans lines or begins on another line
does not.
-/

namespace CognitiveTree.Feedback

open Search Sandbox

/-- What stands in front of the message of a failed assertion. -/
def assertionName : Str := lit "AssertionError"

/-- The guidance in front of a message. -/
def requirement : Str := lit "Revise the implementation so that this requirement holds: "

/-- The error output of an assertion that fails with a message. -/
def assertionOutput (traceback message : Str) : Str :=
  traceback ++ (assertionName ++ lit ": " ++ message ++ [Str.newline])

/-- The next line begins here. -/
def LineStart (traceback : Str) : Prop :=
  traceback = [] ∨ ∃ previous, traceback = previous ++ [Str.newline]

/-- The message stands on the line it begins on: no line break in front of its visible text or
inside of it. -/
def OnOneLine (message : Str) : Prop :=
  (∀ c ∈ message.takeWhile Str.isSpace, Str.isLineBreak c = false) ∧
    ∀ c ∈ Str.strip message, Str.isLineBreak c = false

instance (message : Str) : Decidable (OnOneLine message) :=
  decidable_of_iff
    (((message.takeWhile Str.isSpace ++ Str.strip message).all fun c => !Str.isLineBreak c) = true)
    (by simp [OnOneLine])

/-- The last meaningful line of the output is that of its last part. -/
theorem lastMeaningfulLine_output {traceback message line : Str} (earlier : List Str)
    (hstart : LineStart traceback)
    (hline : Str.meaningful (Str.splitLines (assertionName ++ lit ": " ++ message)) =
      earlier ++ [line]) :
    Str.lastMeaningfulLine (assertionOutput traceback message) = line := by
  have hlast : Str.meaningful (Str.splitLines (assertionName ++ lit ": " ++ message ++ [Str.newline])) =
      earlier ++ [line] := by
    rw [Str.meaningful_concat_space (by decide), hline]
  rw [Str.lastMeaningfulLine_eq, assertionOutput]
  rcases hstart with rfl | ⟨previous, rfl⟩
  · rw [List.nil_append, hlast]
    simp
  · rw [List.append_assoc, List.singleton_append, Str.meaningful_break (by decide), hlast,
      ← List.append_assoc]
    simp

/-- A message on one line ends the line of its assertion. -/
theorem line_of_onOneLine {message : Str} (hone : OnOneLine message)
    (hblank : Str.strip message ≠ []) :
    Str.meaningful (Str.splitLines (assertionName ++ lit ": " ++ message)) =
      [assertionName ++ lit ":" ++
        (lit " " ++ message.takeWhile Str.isSpace ++ Str.strip message)] := by
  obtain ⟨hlead, hcore⟩ := hone
  have hflat : ∀ c ∈ assertionName ++ lit ": " ++ message.takeWhile Str.isSpace ++ Str.strip message,
      Str.isLineBreak c = false := by
    have hname : ((assertionName ++ lit ": ").all fun c => !Str.isLineBreak c) = true := by decide
    rw [List.forall_mem_append, List.forall_mem_append]
    exact ⟨⟨fun c hc => by simpa using List.all_eq_true.mp hname c hc, hlead⟩, hcore⟩
  have hstrip := Str.strip_eq_self (c := 65) (by decide) (Str.strip_strip message) hblank
    (lit "ssertionError: " ++ message.takeWhile Str.isSpace)
  have hcons : (65 : CodePoint) :: (lit "ssertionError: " ++ message.takeWhile Str.isSpace) =
      assertionName ++ lit ": " ++ message.takeWhile Str.isSpace := rfl
  rw [hcons] at hstrip
  conv_lhs => rw [← Str.strip_split message, ← List.append_assoc, ← List.append_assoc]
  rw [Str.meaningful_append_spaces fun c hc => List.mem_rtakeWhile_imp hc,
    Str.meaningful_of_flat hflat, hstrip]
  · rfl
  · rw [hstrip]
    exact List.cons_ne_nil _ _

/-- A message that begins behind a line break is the last line itself. -/
theorem line_of_break {message : Str} {b : CodePoint} (hb : b ∈ message.takeWhile Str.isSpace)
    (hbreak : Str.isLineBreak b = true) (hcore : ∀ c ∈ Str.strip message, Str.isLineBreak c = false)
    (hblank : Str.strip message ≠ []) : ∃ earlier,
    Str.meaningful (Str.splitLines (assertionName ++ lit ": " ++ message)) =
      earlier ++ [Str.strip message] := by
  obtain ⟨before, after, hsplit⟩ := List.append_of_mem hb
  have hafter : ∀ c ∈ after, Str.isSpace c = true := by
    intro c hc
    apply List.mem_takeWhile_imp (l := message)
    rw [hsplit]
    simp [hc]
  have hmessage : assertionName ++ lit ": " ++ message = assertionName ++ lit ": " ++ before ++
      b :: (after ++ (Str.strip message ++ (Str.lstrip message).rtakeWhile Str.isSpace)) := by
    conv_lhs => rw [← Str.strip_split message, hsplit]
    simp
  have hself : Str.meaningful (Str.splitLines (Str.strip message)) = [Str.strip message] := by
    rw [Str.meaningful_of_flat hcore (by rwa [Str.strip_strip]), Str.strip_strip]
  refine ⟨Str.meaningful (Str.splitLines (assertionName ++ lit ": " ++ before)), ?_⟩
  rw [hmessage, Str.meaningful_break hbreak, Str.meaningful_spaces_append hafter,
    Str.meaningful_append_spaces fun c hc => List.mem_rtakeWhile_imp hc, hself]

variable {K W : Type} [PyFloat K]

/-- The guidance of an assertion is generic or a requirement with the message of the line. -/
theorem guidance_of_assertion {stderr exitCode : Str} {critique : Critique K}
    (h : diagnoseStderr stderr exitCode = .ok critique)
    (hclass : critique.failureClass = .assertion) : ∃ message,
    ErrorLine (Str.lastMeaningfulLine stderr) assertionName message ∧
      (critique.guidance = lit "Revise the implementation until every validation assertion passes." ∨
        critique.guidance = requirement ++ message) := by
  have hcreate : ∀ {failureClass : FailureClass} {summary guidance : Str} {severity : K},
      Critique.create failureClass summary guidance severity = .ok critique →
      critique.failureClass = failureClass ∧ critique.guidance = guidance := by
    intro failureClass summary guidance severity hc
    unfold Critique.create at hc
    split at hc
    · cases hc
      exact ⟨rfl, rfl⟩
    · cases hc
  unfold diagnoseStderr at h
  dsimp only at h
  split at h
  · have := (hcreate h).1
    rw [hclass] at this
    cases this
  · rename_i name message hmatch
    rw [matchErrorLine_eq_some] at hmatch
    split_ifs at h with hname hmessage hsyntax
    · subst hname
      exact ⟨message, hmatch, Or.inl (hcreate h).2⟩
    · subst hname
      exact ⟨message, hmatch, Or.inr (hcreate h).2⟩
    all_goals
      have := (hcreate h).1
      rw [hclass] at this
      cases this

/-- A text found behind a requirement whose first character does not occur there is no longer than
what stands behind it. -/
theorem length_le_of_infix {c : CodePoint} {core p message : Str} (hc : c ∉ p)
    (h : c :: core <:+: p ++ message) : (c :: core).length ≤ message.length := by
  obtain ⟨u, v, heq⟩ := h
  rw [List.append_assoc, List.append_eq_append_iff] at heq
  rcases heq with ⟨a, hp, ha⟩ | ⟨a, -, hmessage⟩
  · cases a with
    | nil =>
      rw [List.nil_append] at ha
      rw [← ha]
      simp
    | cons x a =>
      rw [List.cons_append, List.cons_append] at ha
      injection ha with hx _
      subst hx
      exact absurd (hp ▸ by simp) hc
  · rw [hmessage, List.length_append, List.length_append]
    omega

/-- A message on one line passes into the guidance. -/
theorem passes_of_onOneLine [UnitTenths K] {traceback message : Str} (exitCode : Str)
    (hstart : LineStart traceback) (hblank : Str.strip message ≠ []) (hone : OnOneLine message) :
    ∃ critique : Critique K, diagnoseStderr (assertionOutput traceback message) exitCode =
      .ok critique ∧ critique.failureClass = .assertion ∧
      critique.guidance = requirement ++ Str.strip message := by
  have hline := lastMeaningfulLine_output [] hstart (line_of_onOneLine hone hblank)
  have hmatch : ErrorLine (assertionName ++ lit ":" ++
      (lit " " ++ message.takeWhile Str.isSpace ++ Str.strip message)) assertionName
      (Str.strip message) := by
    refine ⟨⟨65, lit "ssertion", lit "Error", by decide, by decide, ?_, by decide⟩,
      Or.inr ⟨lit " " ++ message.takeWhile Str.isSpace ++ Str.strip message, rfl, ?_⟩⟩
    · have hmiddle : ((lit "ssertion").all isNameChar) = true := by decide
      exact List.all_eq_true.mp hmiddle
    · have hspace : ∀ c ∈ lit " ", Str.isSpace c = true := by
        intro c hc
        rw [List.mem_singleton.mp hc]
        decide
      rw [List.append_assoc, Str.strip_append_left hspace,
        Str.strip_append_left (fun c hc => List.mem_takeWhile_imp hc), Str.strip_strip]
  refine ⟨⟨.assertion, lit "validation check failed: " ++ Str.strip message,
    requirement ++ Str.strip message, _, UnitTenths.inUnit_tenths 6 (by decide)⟩, ?_, rfl, rfl⟩
  unfold diagnoseStderr
  dsimp only
  rw [hline, matchErrorLine_eq_some.mpr hmatch]
  dsimp only
  have hname : assertionName = lit "AssertionError" := rfl
  rw [if_pos hname, if_neg hblank, Critique.create,
    dif_pos (UnitTenths.inUnit_tenths 6 (by decide))]
  rfl

/-- What passes into the guidance of an assertion stands on one line. -/
theorem onOneLine_of_passes {traceback message exitCode : Str} (hstart : LineStart traceback)
    (hblank : Str.strip message ≠ []) {critique : Critique K}
    (hdiagnosis : diagnoseStderr (assertionOutput traceback message) exitCode = .ok critique)
    (hclass : critique.failureClass = .assertion)
    (hpasses : Str.strip message <:+: critique.guidance) : OnOneLine message := by
  obtain ⟨found, ⟨-, hbehind⟩, hguidance⟩ := guidance_of_assertion hdiagnosis hclass
  -- the message that is found is part of one line
  have hflatLine : ∀ c ∈ Str.lastMeaningfulLine (assertionOutput traceback message),
      Str.isLineBreak c = false := by
    rw [Str.lastMeaningfulLine_eq]
    cases hlast : (Str.meaningful (Str.splitLines (assertionOutput traceback message))).getLast? with
    | none => simp
    | some line => exact Str.flat_of_mem_meaningful (List.mem_of_getLast? hlast)
  have hfound : ∀ c ∈ found, Str.isLineBreak c = false := by
    rcases hbehind with ⟨-, rfl⟩ | ⟨text, hline, rfl⟩
    · simp
    · intro c hc
      apply hflatLine
      rw [hline, ← Str.strip_split text]
      simp [hc]
  have hflat : ∀ c ∈ critique.guidance, Str.isLineBreak c = false := by
    have hgeneric : ((lit "Revise the implementation until every validation assertion passes.").all
        fun c => !Str.isLineBreak c) = true := by decide
    have hrequirement : (requirement.all fun c => !Str.isLineBreak c) = true := by decide
    intro c hc
    rcases hguidance with h | h
    · rw [h] at hc
      simpa using List.all_eq_true.mp hgeneric c hc
    · rw [h, List.mem_append] at hc
      rcases hc with hc | hc
      · simpa using List.all_eq_true.mp hrequirement c hc
      · exact hfound c hc
  have hcore : ∀ c ∈ Str.strip message, Str.isLineBreak c = false :=
    fun c hc => hflat c (hpasses.subset hc)
  refine ⟨fun b hb => ?_, hcore⟩
  by_contra hbreak
  rw [Bool.not_eq_false] at hbreak
  -- behind a line break the message is the whole last line, and its name is not repeated
  obtain ⟨earlier, hline⟩ := line_of_break hb hbreak hcore hblank
  rw [lastMeaningfulLine_output earlier hstart hline] at hbehind
  obtain ⟨text, hname, hshort⟩ : ∃ text : Str, Str.strip message = 65 :: (lit "ssertionError" ++ text) ∧
      found.length ≤ text.length := by
    rcases hbehind with ⟨hname, rfl⟩ | ⟨text, hname, rfl⟩
    · exact ⟨[], hname, by simp⟩
    · refine ⟨lit ":" ++ text, hname, ?_⟩
      have hlength := Str.length_strip_le text
      rw [List.length_append]
      omega
  rw [hname] at hpasses
  rcases hguidance with h | h
  · rw [h] at hpasses
    have hmem := hpasses.subset (List.mem_cons_self ..)
    revert hmem
    decide
  · rw [h] at hpasses
    have hlong := length_le_of_infix (by decide) hpasses
    rw [List.length_cons, List.length_append] at hlong
    omega

/-- The critic diagnoses the error output of a nonzero exit. -/
theorem answer_of_record (text : PyVal K → Str) (node : Nat) (arena : Arena K)
    (metadata : Nat → Metadata K) (world : W) (result : ExecutionResult K) {code : Int}
    (hrecord : Dict.get? (metadata node) executionKey = some result.toDict)
    (hstatus : result.status = .completed) (hcode : result.exitCode = some code)
    (hnonzero : code ≠ 0) :
    (executionTraceCritic text node arena metadata world).answer =
      (diagnoseStderr result.stderr (formatted text result.exitValue)).map some := by
  have hrun : diagnoseRecord text result.toDict =
      if equalsText (.str result.status.value : PyVal K) (lit "timeout") then
        (Critique.create .timeout (lit "payload exceeded its execution deadline")
          (lit "Remove unbounded loops or reduce algorithmic complexity; " ++
            lit "the payload must terminate within its time budget.") (PyFloat.tenths 9)).map some
      else if equalsZero result.exitValue then .ok none
      else (diagnoseStderr (formatted text (.str result.stderr))
        (formatted text result.exitValue)).map some := rfl
  have hexit : equalsZero result.exitValue = false := by
    rw [ExecutionResult.exitValue, hcode]
    simpa [equalsZero] using hnonzero
  have hrest : diagnoseMetadata text (metadata node) = diagnoseRecord text result.toDict := by
    rw [diagnoseMetadata, hrecord]
    rfl
  change diagnoseMetadata text (metadata node) = _
  rw [hrest, hrun, hexit, hstatus]
  rfl

/-- The critic finds an assertion with this message in its guidance. -/
def PassesMessage (answer : Except Exc (Option (Critique K))) (message : Str) : Prop :=
  ∃ critique, answer = .ok (some critique) ∧ critique.failureClass = .assertion ∧
    Str.strip message <:+: critique.guidance

theorem passesMessage_map {diagnosis : Except Exc (Critique K)} {message : Str} :
    PassesMessage (diagnosis.map some) message ↔
      ∃ critique, diagnosis = .ok critique ∧ critique.failureClass = .assertion ∧
        Str.strip message <:+: critique.guidance := by
  cases diagnosis with
  | error e => simp [PassesMessage, Except.map]
  | ok critique => simp [PassesMessage, Except.map]

/-- The critic of a node whose record is a nonzero exit with the output of a failed assertion finds
an assertion, with the message in its guidance, exactly when the message stands on one line. -/
theorem critique_passes_message_iff [UnitTenths K] (text : PyVal K → Str) (node : Nat)
    (arena : Arena K) (metadata : Nat → Metadata K) (world : W) (result : ExecutionResult K)
    (traceback message : Str) (code : Int)
    (hrecord : Dict.get? (metadata node) executionKey = some result.toDict)
    (hstatus : result.status = .completed) (hcode : result.exitCode = some code) (hnonzero : code ≠ 0)
    (hstderr : result.stderr = assertionOutput traceback message) (hstart : LineStart traceback)
    (hblank : Str.strip message ≠ []) :
    PassesMessage (executionTraceCritic text node arena metadata world).answer message ↔
      OnOneLine message := by
  rw [answer_of_record text node arena metadata world result hrecord hstatus hcode hnonzero,
    passesMessage_map, hstderr]
  constructor
  · rintro ⟨critique, hdiagnosis, hclass, hpasses⟩
    exact onOneLine_of_passes hstart hblank hdiagnosis hclass hpasses
  · intro hone
    obtain ⟨critique, hdiagnosis, hclass, hguidance⟩ :=
      passes_of_onOneLine (K := K) (formatted text result.exitValue) hstart hblank hone
    refine ⟨critique, hdiagnosis, hclass, ?_⟩
    rw [hguidance]
    exact (List.suffix_append _ _).isInfix

/-- The record of an assertion that fails with this message. -/
def assertionRecord (message : Str) : ExecutionResult ℚ where
  status := .completed
  exitCode := some 1
  stdout := []
  stderr := assertionOutput (lit "Traceback (most recent call last):\n") message
  durationSeconds := 1
  truncated := false
  detail := []

/-- The metadata of a node with this record. -/
def recordedMetadata (message : Str) : Nat → Metadata ℚ :=
  fun _ => [(executionKey, (assertionRecord message).toDict)]

/-- A tree of one node. -/
def singleArena : Arena ℚ := (ThoughtTree.new (fun _ => []) (lit "task")).arena

/-- A requirement on one line is passed on. -/
theorem critique_passes_message_iff_small :
    PassesMessage (executionTraceCritic (fun _ => []) 0 singleArena
      (recordedMetadata (lit "value must rise ")) ()).answer (lit "value must rise ") := by
  refine (critique_passes_message_iff (fun _ => []) 0 singleArena _ () (assertionRecord _)
    (lit "Traceback (most recent call last):\n") (lit "value must rise ") 1 rfl rfl rfl (by decide)
    rfl (Or.inr ⟨lit "Traceback (most recent call last):", by decide⟩) (by decide)).mpr (by decide)

/-- Of a message of two lines only the second one is looked at. -/
theorem critique_loses_two_line_message :
    ¬ PassesMessage (executionTraceCritic (fun _ => []) 0 singleArena
      (recordedMetadata (lit "expected\n1")) ()).answer (lit "expected\n1") := by
  rw [answer_of_record (fun _ => []) 0 singleArena _ () (assertionRecord _) rfl rfl rfl (by decide),
    passesMessage_map]
  rintro ⟨critique, hdiagnosis, hclass, hpasses⟩
  have hone : OnOneLine (lit "expected\n1") := onOneLine_of_passes
    (Or.inr ⟨lit "Traceback (most recent call last):", by decide⟩) (by decide) hdiagnosis hclass
    hpasses
  revert hone
  decide

end CognitiveTree.Feedback
