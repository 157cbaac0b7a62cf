import CognitiveTree.Feedback.Revision
import CognitiveTree.Llm.Client
import CognitiveTree.Llm.Parsing
import CognitiveTree.Sandbox.Evaluation
import CognitiveTree.Search.Enumeration
import CognitiveTree.Search.JsonText

/-!
# The model critic

The critic asks a chat model for a diagnosis and maps the first JSON object of the completion onto a
critique. Every field of the object may have any type; the severity is the only one whose conversion
can raise what the critic does not handle.
-/

namespace CognitiveTree.Llm

open Feedback Json Sandbox Search

/-- `LlmError`. -/
def llmError (message : Str) : Exc := ⟨lit "LlmError", message⟩

/-- `except LlmError`. -/
def isLlmError (e : Exc) : Bool := e.typeName = lit "LlmError"

/-- A fault of `json.loads` as the exception it is. -/
def loadsError : Fault → Exc
  | .malformed => ⟨lit "JSONDecodeError", lit "malformed document"⟩
  | .digits => valueError (lit "Exceeds the limit for integer string conversion")
  | .depth => recursionError
  | .fuel => ⟨lit "MemoryError", []⟩

/-- `FailureClass`, in the order of its definition. -/
def failureClasses : List FailureClass :=
  [.noExecution, .timeout, .syntaxError, .assertion, .exception]

/-- `FailureClass(value)`. -/
def FailureClass.ofValue (v : Str) : Option FailureClass :=
  memberOf failureClasses FailureClass.value v

/-- `_STDERR_TAIL_CHARS`. -/
def stderrTailChars : Nat := 1500

/-- `CRITIC_SYSTEM_PROMPT`. -/
def criticSystemPrompt : Str :=
  lit "You are the critique policy of a tree-search reasoning engine. You receive a\n" ++
  lit "rejected thought together with the record of its sandboxed execution, and you\n" ++
  lit "diagnose the failure so the next expansion can avoid it.\n\n" ++
  lit "Answer with a single JSON object and nothing else, using exactly these keys:\n\x7b\n" ++
  lit "  \"failure_class\": one of \"no_execution\" | \"timeout\" | \"syntax\" | " ++
  lit "\"assertion\" | \"exception\",\n  \"summary\": one-line diagnosis of what went wrong,\n" ++
  lit "  \"guidance\": one actionable instruction for producing a corrected candidate,\n" ++
  lit "  \"severity\": number between 0.0 and 1.0\n\x7d\n"

/-- `CRITIC_USER_TEMPLATE.format(content=content, execution=execution)`. -/
def criticUserMessage (content execution : Str) : Str :=
  lit "REJECTED THOUGHT:\n" ++ content ++ lit "\n\nEXECUTION RECORD:\n" ++ execution ++
    lit "\n\nDiagnose the failure. Answer with the JSON object only.\n"

section Critic

variable {K W : Type} [PyFloat K]

/-- `CompletionRequest.__post_init__`. -/
def CompletionRequest.create (messages : List ChatMessage) (temperature : K) (maxTokens : Int) :
    Except Exc (CompletionRequest K) :=
  if nonempty : messages ≠ [] then
    if warm : (PyFloat.le PyFloat.zero temperature &&
        PyFloat.le temperature (PyFloat.ofNat 2)) = true then
      if positive : 1 ≤ maxTokens then
        .ok ⟨messages, temperature, maxTokens, nonempty, warm, positive⟩
      else .error (valueError (lit "max_tokens must be a positive integer"))
    else .error (valueError (lit "temperature must lie within [0.0, 2.0]"))
  else .error (valueError (lit "messages must not be empty"))

/-- `max(a, b)`. -/
def larger (a b : K) : K := if PyFloat.gt b a then b else a

/-- `min(a, b)`. -/
def smaller (a b : K) : K := if PyFloat.lt b a then b else a

variable [PyDecimal K] [PyNumber K]

/-- The fields of `LlmCritic`, and what the runtime makes of values. -/
structure LlmCritic (K W : Type) [PyFloat K] where
  /-- `client.complete` -/
  complete : CompletionRequest K → W → Except Exc CompletionResponse × W
  temperature : K
  maxTokens : Int
  /-- `str(x)` of a float or a container -/
  text : PyVal K → Str
  /-- `dict(x)` of a value that is no dictionary -/
  toDict : PyVal K → Except Exc (Dict Str (PyVal K))
  limits : Limits

namespace LlmCritic

variable (critic : LlmCritic K W)

/-- `dict(record)`. -/
def compact : PyVal K → Except Exc (Dict Str (PyVal K))
  | .dict items => .ok items
  | v => critic.toDict v

/-- The tail of a long error output. -/
def shortened (fields : Dict Str (PyVal K)) : Dict Str (PyVal K) :=
  let stderr := formatted critic.text ((Dict.get? fields (lit "stderr")).getD (.str []))
  if stderrTailChars < stderr.length then
    Dict.set fields (lit "stderr")
      (.str (lit "..." ++ stderr.drop (stderr.length - stderrTailChars)))
  else fields

/-- `_render_user_message(node)`. -/
def renderUserMessage (content : Str) (metadata : Metadata K) : Except Exc Str :=
  match (Dict.get? metadata executionKey).getD .none with
  | .none => .ok (criticUserMessage content
      (lit "(no execution record; the thought was rejected unexecuted)"))
  | record => do
    let fields ← critic.compact record
    let execution ← dumps critic.limits true (.dict (critic.shortened fields))
    pure (criticUserMessage content execution)

/-- The request of `critique(node)`. -/
def request (content : Str) (metadata : Metadata K) : Except Exc (CompletionRequest K) := do
  let message ← critic.renderUserMessage content metadata
  CompletionRequest.create [⟨lit "system", criticSystemPrompt, ChatMessage.system_checked⟩,
    ⟨lit "user", message, ChatMessage.user_checked⟩] critic.temperature critic.maxTokens

/-- `float(document.get("severity", 0.7))`, or `0.7` for what is no number. -/
def severityOf (document : Dict Str (PyVal K)) : Except Exc K :=
  match ((Dict.get? document (lit "severity")).getD (.float (PyFloat.tenths 7))).toFloat with
  | .ok severity => .ok severity
  | .error e =>
    if e.typeName = lit "TypeError" ∨ e.typeName = lit "ValueError" then .ok (PyFloat.tenths 7)
    else .error e

/-- `str(document.get(key, ""))`. -/
def fieldText (document : Dict Str (PyVal K)) (key : Str) : Str :=
  formatted critic.text ((Dict.get? document key).getD (.str []))

/-- `_parse_critique(text)` behind the extraction of its document. -/
def critiqueOf (document : Dict Str (PyVal K)) : Except Exc (Option (Critique K)) :=
  let failureClass :=
    (FailureClass.ofValue (critic.fieldText document (lit "failure_class"))).getD .exception
  let summary := Str.strip (critic.fieldText document (lit "summary"))
  let guidance := Str.strip (critic.fieldText document (lit "guidance"))
  if guidance = [] then .ok none
  else do
    let severity ← severityOf document
    let critique ← Critique.create failureClass
      (if summary = [] then lit "model critique without summary" else summary) guidance
      (smaller PyFloat.one (larger PyFloat.zero severity))
    pure (some critique)

/-- `_parse_critique(text)`. -/
def parseCritique (text : Str) : Except Exc (Option (Critique K)) :=
  match extractJsonObject critic.limits text with
  | .error fault => .error (loadsError fault)
  | .ok none => .ok none
  | .ok (some document) => critic.critiqueOf document

/-- `critique(node)`. -/
def critique (node : Nat) : Search.Call K W (Option (Critique K)) := fun arena metadata world =>
  match critic.request (arena.node node).content (metadata node) with
  | .error e => ⟨.error e, metadata, world⟩
  | .ok request =>
    let (answer, world) := critic.complete request world
    match answer with
    | .error e => ⟨if isLlmError e then .ok none else .error e, metadata, world⟩
    | .ok response => ⟨critic.parseCritique response.text, metadata, world⟩

/-- A critique by the model leaves the metadata alone, whatever becomes of its completion. -/
theorem critique_metadata (node : Nat) (arena : Arena K)
    (metadata : Nat → Metadata K) (world : W) :
    (critic.critique node arena metadata world).metadata = metadata := by
  unfold critique
  split
  · rfl
  · dsimp only
    split
    · rfl
    · rfl

variable {critic}

/-- The result a search can go on with. -/
def Degraded (answer : Except Exc (Option (Critique K))) : Prop :=
  ∃ result, answer = .ok result ∧ ∀ critique, result = some critique →
    Str.strip critique.guidance ≠ [] ∧ PyFloat.inUnit critique.severity = true

/-- The severity is an integer beyond the floats. -/
def TooSevere (document : Dict Str (PyVal K)) : Prop :=
  ∃ i : Int, Dict.get? document (lit "severity") = some (.int i) ∧ floatLimit ≤ i.natAbs

omit [PyDecimal K] [PyNumber K] in
/-- What is clamped from below is not negative. -/
theorem zero_le_larger [OrderedLiterals K] (x : K) :
    PyFloat.le PyFloat.zero (larger PyFloat.zero x) = true := by
  unfold larger PyFloat.gt
  split
  · rename_i hbelow
    exact OrderedLiterals.le_of_lt _ _ hbelow
  · exact OrderedLiterals.zero_le_zero

omit [PyDecimal K] [PyNumber K] in
/-- What is clamped from above is in the unit interval. -/
theorem inUnit_smaller [OrderedLiterals K] {x : K} (h : PyFloat.le PyFloat.zero x = true) :
    PyFloat.inUnit (smaller PyFloat.one x) = true := by
  unfold smaller PyFloat.inUnit
  split
  · rename_i hbelow
    rw [h, OrderedLiterals.le_of_lt _ _ hbelow]
    rfl
  · rw [OrderedLiterals.zero_le_one, OrderedLiterals.one_le_one]
    rfl

omit [PyDecimal K] [PyNumber K] in
/-- A clamped severity lies in the unit interval, also when it was no number. -/
theorem inUnit_clamped [OrderedLiterals K] (severity : K) :
    PyFloat.inUnit (smaller PyFloat.one (larger PyFloat.zero severity)) = true :=
  inUnit_smaller (zero_le_larger severity)

omit [PyDecimal K] in
/-- The severity of a document is converted unless it is too large. -/
theorem severityOf_cases [IntegerRange K] (document : Dict Str (PyVal K)) :
    (∃ severity, severityOf document = .ok severity) ∧ ¬ TooSevere document ∨
    (∃ e, severityOf document = .error e) ∧ TooSevere document := by
  unfold severityOf TooSevere
  cases hget : Dict.get? document (lit "severity") with
  | none => exact Or.inl ⟨⟨_, rfl⟩, by rintro ⟨i, hi, -⟩; cases hi⟩
  | some v =>
    rw [Option.getD_some]
    cases v with
    | int i =>
      by_cases hlarge : floatLimit ≤ i.natAbs
      · have hnone := (IntegerRange.ofInt_eq_none (K := K) i).mpr hlarge
        refine Or.inr ⟨⟨overflowError (lit "int too large to convert to float"), ?_⟩, i, rfl, hlarge⟩
        simp only [PyVal.toFloat, hnone, overflowError]
        exact if_neg (by decide)
      · obtain ⟨x, hx⟩ := Option.ne_none_iff_exists'.mp
          (mt (IntegerRange.ofInt_eq_none (K := K) i).mp hlarge)
        refine Or.inl ⟨⟨x, by simp only [PyVal.toFloat, hx]⟩, ?_⟩
        rintro ⟨j, hj, hlarge'⟩
        cases hj
        exact hlarge hlarge'
    | bool b =>
      obtain ⟨x, hx⟩ := Option.ne_none_iff_exists'.mp
        (mt (IntegerRange.ofInt_eq_none (K := K) (if b then 1 else 0)).mp (by
          have := one_lt_floatLimit
          cases b <;> simp <;> omega))
      exact Or.inl ⟨⟨x, by simp only [PyVal.toFloat, hx]⟩, by rintro ⟨i, hi, -⟩; cases hi⟩
    | float x => exact Or.inl ⟨⟨x, rfl⟩, by rintro ⟨i, hi, -⟩; cases hi⟩
    | str s =>
      refine Or.inl ⟨?_, by rintro ⟨i, hi, -⟩; cases hi⟩
      cases hparse : (PyNumber.parseFloat s : Option K) with
      | some x => exact ⟨x, by simp only [PyVal.toFloat, hparse]⟩
      | none =>
        refine ⟨PyFloat.tenths 7, ?_⟩
        simp only [PyVal.toFloat, hparse]
        exact if_pos (Or.inr rfl)
    | none | list | dict | object =>
      exact Or.inl ⟨⟨PyFloat.tenths 7, if_pos (Or.inl rfl)⟩, by rintro ⟨i, hi, -⟩; cases hi⟩

omit [PyDecimal K] in
/-- A document becomes a critique unless its severity is too large. -/
theorem critiqueOf_degraded_iff [OrderedLiterals K] [IntegerRange K]
    (document : Dict Str (PyVal K)) : Degraded (critic.critiqueOf document) ↔
      ¬ (Str.strip (critic.fieldText document (lit "guidance")) ≠ [] ∧ TooSevere document) := by
  unfold critiqueOf
  dsimp only
  split
  · rename_i hblank
    exact ⟨fun _ h => h.1 hblank, fun _ => ⟨none, rfl, by simp⟩⟩
  · rename_i hguidance
    rcases severityOf_cases document with ⟨⟨severity, hs⟩, hsmall⟩ | ⟨⟨e, he⟩, hlarge⟩
    · have hunit := inUnit_clamped severity
      refine ⟨fun _ h => hsmall h.2, fun _ => ?_⟩
      rw [hs]
      change Degraded (Critique.create _ _ _ _ >>= fun critique => pure (some critique))
      rw [Critique.create, dif_pos hunit]
      refine ⟨_, rfl, ?_⟩
      rintro critique ⟨rfl⟩
      exact ⟨by rw [Str.strip_strip]; exact hguidance, hunit⟩
    · refine ⟨?_, fun h => absurd ⟨hguidance, hlarge⟩ h⟩
      rintro ⟨result, hresult, -⟩
      rw [he] at hresult
      cases hresult

variable (critic)

/-- The first object of the completion has guidance, and a severity that is too large. -/
def Unconvertible (text : Str) : Prop :=
  ∃ document, FirstObject text document ∧
    Str.strip (critic.fieldText document (lit "guidance")) ≠ [] ∧ TooSevere document

/-- A completion is parsed unless its severity is too large. -/
theorem parseCritique_degraded_iff [OrderedLiterals K] [IntegerRange K]
    (hlimits : critic.limits = .unlimited) (text : Str) :
    Degraded (critic.parseCritique text) ↔ ¬ critic.Unconvertible text := by
  unfold parseCritique Unconvertible
  rw [hlimits]
  rcases extract_cases (K := K) text with ⟨document, hfirst, hextract⟩ | ⟨hnone, hextract⟩
  · rw [hextract]
    dsimp only
    rw [critiqueOf_degraded_iff]
    refine not_congr ⟨fun h => ⟨document, hfirst, h⟩, ?_⟩
    rintro ⟨document', hfirst', h⟩
    have hsame := extract_of_firstObject hfirst'
    rw [hextract] at hsame
    cases hsame
    exact h
  · rw [hextract]
    exact ⟨fun _ ⟨document, hfirst, _⟩ => hnone document hfirst, fun _ => ⟨none, rfl, by simp⟩⟩

variable {critic}

/-- The answer to a completion is what it is parsed to. -/
theorem critique_of_completion {node : Nat} {arena : Arena K} {metadata : Nat → Metadata K}
    {world : W} {request : CompletionRequest K} {response : CompletionResponse}
    (hrequest : critic.request (arena.node node).content (metadata node) = .ok request)
    (hresponse : (critic.complete request world).1 = .ok response) :
    (critic.critique node arena metadata world).answer = critic.parseCritique response.text := by
  unfold critique
  rw [hrequest]
  dsimp only
  rw [hresponse]

end LlmCritic

/-- A critic that could ask degrades, except on a completion whose severity is too large. -/
theorem critique_degrades_iff [OrderedLiterals K] [IntegerRange K] (critic : LlmCritic K W)
    (hlimits : critic.limits = .unlimited) (node : Nat) (arena : Arena K)
    (metadata : Nat → Metadata K) (world : W) (request : CompletionRequest K)
    (hrequest : critic.request (arena.node node).content (metadata node) = .ok request) :
    (∀ e, (critic.complete request world).1 = .error e → isLlmError e = true →
      (critic.critique node arena metadata world).answer = .ok none) ∧
    ∀ response, (critic.complete request world).1 = .ok response →
      (LlmCritic.Degraded (critic.critique node arena metadata world).answer ↔
        ¬ critic.Unconvertible response.text) := by
  constructor
  · intro e he hllm
    unfold LlmCritic.critique
    rw [hrequest]
    dsimp only
    rw [he]
    exact if_pos hllm
  · intro response hresponse
    rw [LlmCritic.critique_of_completion hrequest hresponse]
    exact critic.parseCritique_degraded_iff hlimits response.text

end Critic

/-- A critic that gets this completion. -/
def answeredBy (completion : Str) : LlmCritic RangedRat Unit where
  complete _ world := (.ok ⟨completion, lit "model", 0, 0⟩, world)
  temperature := PyFloat.tenths 2
  maxTokens := 512
  text _ := []
  toDict _ := .error (typeError (lit "not iterable"))
  limits := .unlimited

/-- The request is accepted. -/
theorem answeredBy_request (completion content : Str) :
    ∃ request, (answeredBy completion).request content [] = .ok request := by
  have hwarm : (PyFloat.le (PyFloat.zero : RangedRat) (PyFloat.tenths 2) &&
      PyFloat.le (PyFloat.tenths 2 : RangedRat) (PyFloat.ofNat 2)) = true := by decide +kernel
  have hmessages : ∀ messages : List ChatMessage, messages ≠ [] → ∃ request,
      CompletionRequest.create messages (PyFloat.tenths 2 : RangedRat) 512 = .ok request := by
    intro messages hne
    rw [CompletionRequest.create, dif_pos hne, dif_pos hwarm, dif_pos (by decide)]
    exact ⟨_, rfl⟩
  exact hmessages _ (List.cons_ne_nil _ _)

/-- The tree of a task without a thought. -/
def bareArena : Arena RangedRat := (ThoughtTree.new (fun _ => []) (lit "task")).arena

/-- A completion with guidance and a severity. -/
def severityText (n : Numeral) : Str :=
  lit "\x7b\"guidance\":\"g\",\"severity\":" ++ (n.text ++ lit "\x7d")

/-- The completion is an object with the numeral as its severity. -/
theorem severityText_object {n : Numeral} (h : n.Valid) {v : PyVal RangedRat}
    (hv : (pyHooks RangedRat).number n = v) : FirstObject (K := RangedRat) (severityText n)
      [(lit "guidance", .str (lit "g")), (lit "severity", v)] := by
  subst hv
  refine ⟨0, ⟨severityText n, List.prefix_rfl, ?_⟩, by simp⟩
  have hseverity : Denotes (pyHooks RangedRat) (lit "\"severity\":" ++ (n.text ++ lit "\x7d"))
      (lit "\x7d") (.members [(lit "severity", (pyHooks RangedRat).number n)]) :=
    .member (body_plain (s := lit "severity") (by decide) _) (.refl _) (.refl _)
      (.number h) (.refl _)
  exact .dict (.refl _) (.members (body_plain (s := lit "guidance") (by decide) _) (.refl _) (.refl _)
    (.string (body_plain (s := lit "g") (by decide) _)) (.refl _) (.refl _) hseverity)

/-- The integer 2, which is clamped. -/
def twoNumeral : Numeral := ⟨[50], [], []⟩

/-- The numeral 2 is valid. -/
theorem twoNumeral_valid : twoNumeral.Valid where
  integer := ⟨[], 50, [], Or.inl rfl, by decide, by decide, fun h => absurd h (by decide), rfl⟩
  fraction := Or.inl rfl
  exponent := Or.inl rfl

/-- A severity above one is clamped. -/
theorem critique_degrades_iff_small :
    LlmCritic.Degraded ((answeredBy (severityText twoNumeral)).critique 0 bareArena (fun _ => []) ()).answer ∧
      ((answeredBy (severityText twoNumeral)).critique 0 bareArena (fun _ => []) ()).answer.toOption.map
        (fun answer => answer.map fun critique => (critique.guidance, (critique.severity : ℚ))) =
          some (some (lit "g", 1)) := by
  obtain ⟨request, hrequest⟩ :=
    answeredBy_request (severityText twoNumeral) (bareArena.node 0).content
  refine ⟨((critique_degrades_iff (answeredBy (severityText twoNumeral)) rfl 0 bareArena (fun _ => [])
    () request hrequest).2 ⟨severityText twoNumeral, lit "model", 0, 0⟩ rfl).mpr ?_, by decide +kernel⟩
  rintro ⟨document, hfirst, -, i, hi, hlarge⟩
  have hsame := (extract_of_firstObject hfirst).symm.trans
    (extract_of_firstObject (severityText_object twoNumeral_valid rfl))
  cases hsame
  have htwo : i = 2 := by
    cases hi
    rfl
  subst htwo
  exact absurd hlarge (by decide +kernel)

/-- The integer 10 ^ 309, which is no float. -/
def hugeNumeral : Numeral := ⟨49 :: List.replicate 309 48, [], []⟩

/-- A completion whose severity is that integer. -/
def hugeSeverity : Str := severityText hugeNumeral

/-- The numeral beyond the floats is valid. -/
theorem hugeNumeral_valid : hugeNumeral.Valid where
  integer := ⟨[], 49, List.replicate 309 48, Or.inl rfl, by decide,
    by rw [List.all_replicate]; decide, fun h => absurd h (by decide), rfl⟩
  fraction := Or.inl rfl
  exponent := Or.inl rfl

/-- The critic raises on such a completion. -/
theorem critique_raises_on_huge_severity :
    (∃ request, (answeredBy hugeSeverity).request (bareArena.node 0).content [] = .ok request) ∧
      ¬ LlmCritic.Degraded
        ((answeredBy hugeSeverity).critique 0 bareArena (fun _ => []) ()).answer := by
  obtain ⟨request, hrequest⟩ := answeredBy_request hugeSeverity (bareArena.node 0).content
  refine ⟨⟨request, hrequest⟩, ?_⟩
  rw [LlmCritic.critique_of_completion hrequest rfl,
    (answeredBy hugeSeverity).parseCritique_degraded_iff rfl, not_not]
  exact ⟨_, severityText_object hugeNumeral_valid rfl, by decide, hugeNumeral.toInt, rfl,
    by decide +kernel⟩

end CognitiveTree.Llm
