import CognitiveTree.Json.Bytes
import CognitiveTree.Llm.Critic

/-!
# The client for OpenAI-compatible endpoints

A completion is attempted several times over a transport that answers with a status and bytes or
raises `LlmError`. The bytes of a successful answer pass through decoding, JSON parsing, indexing
and type checks, and each of them raises exceptions of its own.
-/

namespace CognitiveTree.Llm

open Feedback Json Search

/-- A byte inside the `repr` of a byte string. -/
def byteText (b : UInt8) : Str :=
  if b = 92 then lit "\\\\"
  else if b = 9 then lit "\\t"
  else if b = 10 then lit "\\n"
  else if b = 13 then lit "\\r"
  else if 32 ≤ b && b ≤ 126 then [Fin.ofNat 0x110000 b.toNat]
  else lit "\\x" ++ [hexLetter (b.toNat / 16), hexLetter (b.toNat % 16)]

/-- `f"{body!r}"`. -/
def bytesRepr (body : Bytes) : Str :=
  let mark : UInt8 := if 39 ∈ body ∧ 34 ∉ body then 34 else 39
  let quoted := Fin.ofNat 0x110000 mark.toNat
  lit "b" ++ [quoted] ++
    body.flatMap (fun b => if b = mark then lit "\\" ++ byteText b else byteText b) ++ [quoted]

/-- `_RETRYABLE_STATUS_FLOOR` and `_TOO_MANY_REQUESTS`. -/
def retryableStatusFloor : Int := 500
def tooManyRequests : Int := 429

/-- `_MAX_BACKOFF_SECONDS`. -/
def maxBackoffSeconds {K : Type} [PyFloat K] : K := PyFloat.ofNat 30

/-- `json.loads(body)`. -/
def loadsBytes (K : Type) [PyFloat K] [PyDecimal K] (limits : Limits) (body : Bytes) :
    Except Exc (PyVal K) :=
  match decodeBytes body with
  | none => .error ⟨lit "UnicodeDecodeError", lit "can't decode byte"⟩
  | some s => match loads (pyHooks K) limits s with
    | .ok v => .ok v
    | .error fault => .error (loadsError fault)

section Parsing

variable {K : Type}

/-- `v[key]` with a text. -/
def subscriptKey (v : PyVal K) (key : Str) : Except Exc (PyVal K) :=
  match v with
  | .dict items => match Dict.get? items key with
    | some value => .ok value
    | none => .error ⟨lit "KeyError", lit "'" ++ key ++ lit "'"⟩
  | .list _ => .error (typeError (lit "list indices must be integers or slices, not str"))
  | .str _ => .error (typeError (lit "string indices must be integers, not 'str'"))
  | v => .error (typeError (lit "'" ++ v.typeName ++ lit "' object is not subscriptable"))

/-- `v[0]`. -/
def subscriptZero : PyVal K → Except Exc (PyVal K)
  | .dict _ => .error ⟨lit "KeyError", lit "0"⟩
  | .list (v :: _) => .ok v
  | .list [] => .error ⟨lit "IndexError", lit "list index out of range"⟩
  | .str (c :: _) => .ok (.str [c])
  | .str [] => .error ⟨lit "IndexError", lit "string index out of range"⟩
  | v => .error (typeError (lit "'" ++ v.typeName ++ lit "' object is not subscriptable"))

/-- `except (json.JSONDecodeError, KeyError, IndexError, TypeError)`. -/
def isMalformed (e : Exc) : Bool :=
  e.typeName ∈ [lit "JSONDecodeError", lit "KeyError", lit "IndexError", lit "TypeError"]

/-- `_token_count(value)`. -/
def tokenCount : PyVal K → Int
  | .int i => if 0 ≤ i then i else 0
  | .bool b => if b then 1 else 0
  | _ => 0

end Parsing

variable {K : Type} [PyFloat K] [PyDecimal K] [PyNumber K]

/-- The fields of `OpenAICompatibleClient` behind its checks, and what the runtime makes of
values. -/
structure OpenAICompatibleClient (K : Type) [PyFloat K] where
  endpoint : Str
  model : Str
  apiKey : Option Str
  timeout : K
  maxRetries : Nat
  retryBackoff : K
  /-- `str(x)` of a float or a container -/
  text : PyVal K → Str
  limits : Limits
  namedModel : Str.strip model ≠ []
  positiveTimeout : PyFloat.le timeout PyFloat.zero = false
  forwardBackoff : PyFloat.lt retryBackoff PyFloat.zero = false

/-- What a transport does with one request: a status and a body, or an exception. -/
abbrev Behaviour := Except Exc (Int × Bytes)

/-- A transport, by the number of the attempt and the arguments of `post`. -/
abbrev HttpJsonTransport (K : Type) :=
  Nat → Str → PyVal K → Dict Str Str → K → Behaviour

namespace OpenAICompatibleClient

variable (client : OpenAICompatibleClient K)

/-- The payload of a request. -/
def payload (request : CompletionRequest K) : PyVal K :=
  .dict [(lit "model", .str client.model),
    (lit "messages", .list (request.messages.map fun m =>
      .dict [(lit "role", .str m.role), (lit "content", .str m.content)])),
    (lit "temperature", .float request.temperature), (lit "max_tokens", .int request.maxTokens)]

/-- The headers of a request; an empty key is no key. -/
def headers : Dict Str Str :=
  match client.apiKey with
  | some (c :: key) => [(lit "Authorization", lit "Bearer " ++ c :: key)]
  | _ => []

/-- `_back_off(attempt)`: the delay that is slept through. -/
def backOff (attempt : Nat) : Except Exc K :=
  match PyNumber.ofInt (2 ^ (attempt - 1)) with
  | none => .error (overflowError (lit "int too large to convert to float"))
  | some factor => .ok (smaller (PyFloat.mul client.retryBackoff factor) maxBackoffSeconds)

/-- The text of a completion document. -/
def contentOf (body : Bytes) : Except Exc (PyVal K × PyVal K) := do
  let document ← loadsBytes K client.limits body
  let choices ← subscriptKey document (lit "choices")
  let choice ← subscriptZero choices
  let message ← subscriptKey choice (lit "message")
  let text ← subscriptKey message (lit "content")
  pure (document, text)

/-- The response of a document with this text. -/
def responseOf (items : Dict Str (PyVal K)) (text : Str) : CompletionResponse :=
  let usage := match Dict.get? items (lit "usage") with
    | some (.dict usage) => usage
    | _ => []
  { text := text
    model := formatted client.text ((Dict.get? items (lit "model")).getD (.str []))
    promptTokens := tokenCount ((Dict.get? usage (lit "prompt_tokens")).getD .none)
    completionTokens := tokenCount ((Dict.get? usage (lit "completion_tokens")).getD .none) }

/-- `_parse_response(body)`. -/
def parseResponse (body : Bytes) : Except Exc CompletionResponse :=
  match client.contentOf body with
  | .error e =>
    if isMalformed e then
      .error (llmError (lit "malformed completion response: " ++ bytesRepr (body.take 200)))
    else .error e
  | .ok (document, .str text) => match document with
    | .dict items => .ok (client.responseOf items text)
    | v => .error (attributeError (lit "'" ++ v.typeName ++ lit "' object has no attribute 'get'"))
  | .ok _ => .error (llmError (lit "completion content is not a string"))

/-- A status after which the request is tried again. -/
def retryable (status : Int) : Bool := retryableStatusFloor ≤ status || status = tooManyRequests

/-- The loop of `complete` from an attempt on, with so many attempts left. -/
def attempts (post : Nat → Behaviour) (attempt : Nat) (lastError : Exc) :
    Nat → Except Exc CompletionResponse
  | 0 => .error lastError
  | left + 1 => do
    if attempt ≠ 0 then let _ ← client.backOff attempt
    match post attempt with
    | .error e => if isLlmError e then attempts post (attempt + 1) e left else .error e
    | .ok (status, body) =>
      if retryable status then
        attempts post (attempt + 1) (llmError (lit "backend error HTTP " ++ Str.ofInt status ++
          lit ": " ++ bytesRepr (body.take 200))) left
      else if status ≠ 200 then
        .error (llmError (lit "request rejected with HTTP " ++ Str.ofInt status ++ lit ": " ++
          bytesRepr (body.take 200)))
      else client.parseResponse body

/-- What the transport answers to a request, attempt by attempt. -/
def answers (transport : HttpJsonTransport K) (request : CompletionRequest K) (attempt : Nat) :
    Behaviour :=
  transport attempt client.endpoint (client.payload request) client.headers client.timeout

/-- `complete(request)`. -/
def complete (transport : HttpJsonTransport K) (request : CompletionRequest K) :
    Except Exc CompletionResponse :=
  client.attempts (client.answers transport request) 0 ⟨lit "AssertionError", []⟩
    (client.maxRetries + 1)

/-- A completion with its accounting, or the one exception that callers handle. -/
def Honest (result : Except Exc CompletionResponse) : Prop :=
  (∃ response, result = .ok response ∧ 0 ≤ response.promptTokens ∧ 0 ≤ response.completionTokens) ∨
    ∃ e, result = .error e ∧ isLlmError e = true

/-- `json.loads` reads the body or finds it malformed. -/
def Readable (body : Bytes) : Prop :=
  ∃ s, decodeBytes body = some s ∧
    ∀ fault, loads (pyHooks K) client.limits s = .error fault → fault = .malformed

omit [PyFloat K] [PyDecimal K] [PyNumber K] in
theorem tokenCount_nonneg (v : PyVal K) : 0 ≤ tokenCount v := by
  unfold tokenCount
  split
  · split <;> omega
  · split <;> omega
  · exact le_rfl

omit [PyFloat K] [PyDecimal K] [PyNumber K] in
/-- A subscript fails with an exception that is handled. -/
theorem subscriptKey_cases (v : PyVal K) (key : Str) :
    (∃ items value, v = .dict items ∧ subscriptKey v key = .ok value) ∨
      ∃ e, subscriptKey v key = .error e ∧ isMalformed e = true := by
  unfold subscriptKey
  cases v with
  | dict items =>
    cases hget : Dict.get? items key with
    | some value => exact Or.inl ⟨items, value, rfl, by dsimp only; rw [hget]⟩
    | none => exact Or.inr ⟨_, by dsimp only; rw [hget], rfl⟩
  | _ => exact Or.inr ⟨_, rfl, rfl⟩

omit [PyFloat K] [PyDecimal K] [PyNumber K] in
theorem subscriptZero_cases (v : PyVal K) : (∃ value, subscriptZero v = .ok value) ∨
    ∃ e, subscriptZero v = .error e ∧ isMalformed e = true := by
  unfold subscriptZero
  split <;> first | exact Or.inl ⟨_, rfl⟩ | exact Or.inr ⟨_, rfl, rfl⟩

omit [PyNumber K] in
/-- A document that was read has its content, or lacks it in a way that is handled. -/
theorem contentOf_cases {body : Bytes} {document : PyVal K}
    (h : loadsBytes K client.limits body = .ok document) :
    (∃ items text, document = .dict items ∧ client.contentOf body = .ok (document, text)) ∨
      ∃ e, client.contentOf body = .error e ∧ isMalformed e = true := by
  unfold contentOf
  rw [h]
  change (∃ items text, _ ∧ (subscriptKey document (lit "choices") >>= _) = _) ∨
    ∃ e, (subscriptKey document (lit "choices") >>= _) = _ ∧ _
  rcases subscriptKey_cases document (lit "choices") with ⟨items, choices, rfl, hc⟩ | ⟨e, he, hm⟩
  · rw [hc]
    change (∃ items text, _ ∧ (subscriptZero choices >>= _) = _) ∨
      ∃ e, (subscriptZero choices >>= _) = _ ∧ _
    rcases subscriptZero_cases choices with ⟨choice, hc'⟩ | ⟨e, he, hm⟩
    · rw [hc']
      change (∃ items text, _ ∧ (subscriptKey choice (lit "message") >>= _) = _) ∨
        ∃ e, (subscriptKey choice (lit "message") >>= _) = _ ∧ _
      rcases subscriptKey_cases choice (lit "message") with ⟨-, message, -, hm'⟩ | ⟨e, he, hm⟩
      · rw [hm']
        change (∃ items text, _ ∧ (subscriptKey message (lit "content") >>= _) = _) ∨
          ∃ e, (subscriptKey message (lit "content") >>= _) = _ ∧ _
        rcases subscriptKey_cases message (lit "content") with ⟨-, text, -, ht⟩ | ⟨e, he, hm⟩
        · rw [ht]
          exact Or.inl ⟨items, text, rfl, rfl⟩
        · exact Or.inr ⟨e, by rw [he]; rfl, hm⟩
      · exact Or.inr ⟨e, by rw [he]; rfl, hm⟩
    · exact Or.inr ⟨e, by rw [he]; rfl, hm⟩
  · exact Or.inr ⟨e, by rw [he]; rfl, hm⟩

omit [PyNumber K] in
/-- A body is parsed honestly exactly when it is readable. -/
theorem parseResponse_honest_iff (body : Bytes) :
    Honest (client.parseResponse body) ↔ client.Readable body := by
  -- an exception of `json.loads` that is not handled
  have hraised : ∀ e, loadsBytes K client.limits body = .error e → isMalformed e = false →
      isLlmError e = false → ¬ Honest (client.parseResponse body) := by
    intro e he hm hllm hhonest
    have hcontent : client.contentOf body = .error e := by
      unfold contentOf
      rw [he]
      rfl
    unfold parseResponse at hhonest
    rw [hcontent] at hhonest
    dsimp only at hhonest
    rw [if_neg (by simp [hm])] at hhonest
    rcases hhonest with ⟨response, hok, -⟩ | ⟨e', he', hllm'⟩
    · cases hok
    · cases he'
      rw [hllm] at hllm'
      cases hllm'
  -- an exception that is handled
  have hhandled : ∀ e, client.contentOf body = .error e → isMalformed e = true →
      Honest (client.parseResponse body) := by
    intro e he hm
    unfold parseResponse
    rw [he]
    dsimp only
    rw [if_pos hm]
    exact Or.inr ⟨_, rfl, rfl⟩
  unfold Readable
  unfold loadsBytes at hraised
  cases hdecode : decodeBytes body with
  | none =>
    rw [hdecode] at hraised
    exact ⟨fun h => absurd h (hraised _ rfl rfl rfl), fun ⟨s, hs, _⟩ => by cases hs⟩
  | some s =>
    rw [hdecode] at hraised
    dsimp only at hraised
    cases hloads : loads (pyHooks K) client.limits s with
    | error fault =>
      rw [hloads] at hraised
      cases fault with
      | malformed =>
        refine ⟨fun _ => ⟨s, rfl, fun fault hfault => ?_⟩,
          fun _ => hhandled (loadsError .malformed) ?_ rfl⟩
        · rw [hloads] at hfault
          cases hfault
          rfl
        · unfold contentOf loadsBytes
          rw [hdecode]
          dsimp only
          rw [hloads]
          rfl
      | fuel => exact absurd rfl (loads_fault hloads).fuel
      | digits | depth =>
        refine ⟨fun h => absurd h (hraised _ rfl rfl rfl), ?_⟩
        rintro ⟨s', hs', hfault⟩
        cases hs'
        cases hfault _ hloads
    | ok document =>
      refine ⟨fun _ => ⟨s, rfl, fun fault hfault => ?_⟩, fun _ => ?_⟩
      · rw [hloads] at hfault
        cases hfault
      · have hbytes : loadsBytes K client.limits body = .ok document := by
          unfold loadsBytes
          rw [hdecode]
          dsimp only
          rw [hloads]
        rcases client.contentOf_cases hbytes with ⟨items, text, rfl, hcontent⟩ | ⟨e, he, hm⟩
        · unfold parseResponse
          rw [hcontent]
          cases text with
          | str text =>
            exact Or.inl ⟨_, rfl, tokenCount_nonneg _, tokenCount_nonneg _⟩
          | _ => exact Or.inr ⟨_, rfl, rfl⟩
        · exact hhandled e he hm

/-- An answer after which the next attempt is made. -/
def Retried : Behaviour → Prop
  | .error e => isLlmError e = true
  | .ok (status, _) => retryable status = true

/-- What the code needs of the answer to an attempt that is made: the number of the attempt is
at most 1024, and the body of a successful answer is readable. -/
def Tractable (attempt : Nat) (answer : Behaviour) : Prop :=
  attempt ≤ 1024 ∧ ∀ body, answer = .ok (200, body) → client.Readable body

omit [PyDecimal K] in
/-- The back-off is computed up to the exponent that a float holds. -/
theorem backOff_cases [IntegerRange K] (attempt : Nat) :
    (attempt ≤ 1024 ∧ ∃ delay, client.backOff attempt = .ok delay) ∨
      1024 < attempt ∧ ∃ e, client.backOff attempt = .error e ∧ isLlmError e = false := by
  have hrange := IntegerRange.ofInt_eq_none (K := K) (2 ^ (attempt - 1))
  rw [Int.natAbs_pow, show Int.natAbs 2 = 2 from rfl, floatLimit_le_two_pow_iff] at hrange
  unfold backOff
  cases hfactor : (PyNumber.ofInt (2 ^ (attempt - 1)) : Option K) with
  | none =>
    have := hrange.mp hfactor
    exact Or.inr ⟨by omega, _, rfl, rfl⟩
  | some factor =>
    have : ¬ 1024 ≤ attempt - 1 := fun h => by
      rw [hrange.mpr h] at hfactor
      cases hfactor
    exact Or.inl ⟨by omega, _, rfl⟩

/-- The answer to one attempt decides the outcome unless it is tried again. -/
theorem attempts_succ (post : Nat → Behaviour) (attempt : Nat) (lastError : Exc) (left : Nat)
    {delay : K} (hdelay : attempt ≠ 0 → client.backOff attempt = .ok delay)
    (hhonours : ∀ e, post attempt = .error e → isLlmError e = true) :
    (Retried (post attempt) ∧ ∃ e, isLlmError e = true ∧
      client.attempts post attempt lastError (left + 1) =
        client.attempts post (attempt + 1) e left) ∨
    ¬ Retried (post attempt) ∧
      (Honest (client.attempts post attempt lastError (left + 1)) ↔
        ∀ body, post attempt = .ok (200, body) → client.Readable body) := by
  have hstep : client.attempts post attempt lastError (left + 1) =
      match post attempt with
      | .error e => if isLlmError e then client.attempts post (attempt + 1) e left else .error e
      | .ok (status, body) =>
        if retryable status then
          client.attempts post (attempt + 1) (llmError (lit "backend error HTTP " ++
            Str.ofInt status ++ lit ": " ++ bytesRepr (body.take 200))) left
        else if status ≠ 200 then
          .error (llmError (lit "request rejected with HTTP " ++ Str.ofInt status ++ lit ": " ++
            bytesRepr (body.take 200)))
        else client.parseResponse body := by
    by_cases hzero : attempt = 0
    · subst hzero
      rfl
    · rw [attempts, if_pos hzero, hdelay hzero]
      rfl
  rw [hstep]
  cases hpost : post attempt with
  | error e =>
    have he := hhonours e hpost
    exact Or.inl ⟨he, e, he, if_pos he⟩
  | ok answer =>
    obtain ⟨status, body⟩ := answer
    dsimp only
    by_cases hretry : retryable status = true
    · rw [if_pos hretry]
      exact Or.inl ⟨hretry, _, rfl, rfl⟩
    · rw [if_neg hretry]
      refine Or.inr ⟨hretry, ?_⟩
      by_cases hstatus : status = 200
      · subst hstatus
        rw [if_neg (by simp), client.parseResponse_honest_iff]
        constructor
        · intro hreadable body' hbody
          cases hbody
          exact hreadable
        · intro h
          exact h body rfl
      · rw [if_pos hstatus]
        constructor
        · intro _ body' hbody
          cases hbody
          exact absurd rfl hstatus
        · intro _
          exact Or.inr ⟨_, rfl, rfl⟩

/-- The loop ends honestly exactly when the answers to the attempts that it makes are
tractable. -/
theorem attempts_honest_iff [IntegerRange K] (post : Nat → Behaviour)
    (hhonours : ∀ k e, post k = .error e → isLlmError e = true) (left attempt : Nat)
    (lastError : Exc) (hlast : left = 0 → isLlmError lastError = true) :
    Honest (client.attempts post attempt lastError left) ↔
      ∀ k, attempt ≤ k → k < attempt + left → (∀ j, attempt ≤ j → j < k → Retried (post j)) →
        client.Tractable k (post k) := by
  induction left generalizing attempt lastError with
  | zero =>
    constructor
    · intro _ k hk hlt
      omega
    · intro _
      exact Or.inr ⟨lastError, rfl, hlast rfl⟩
  | succ left ih =>
    rcases client.backOff_cases attempt with ⟨hle, delay, hdelay⟩ | ⟨hlt, e, he, hllm⟩
    · rcases client.attempts_succ post attempt lastError left (fun _ => hdelay)
          (hhonours attempt) with ⟨hretried, e, he, heq⟩ | ⟨hlast', hiff⟩
      · rw [heq, ih (attempt + 1) e (fun _ => he)]
        constructor
        · intro h k hk hlt hbefore
          rcases Nat.eq_or_lt_of_le hk with rfl | hk'
          · -- a retried answer is no success
            refine ⟨hle, fun body hbody => ?_⟩
            rw [hbody] at hretried
            cases hretried
          · exact h k hk' (by omega) fun j hj => hbefore j (by omega)
        · intro h k hk hlt hbefore
          refine h k (by omega) (by omega) fun j hj hjk => ?_
          rcases Nat.eq_or_lt_of_le hj with rfl | hj'
          · exact hretried
          · exact hbefore j hj' hjk
      · rw [hiff]
        constructor
        · intro h k hk _ hbefore
          rcases Nat.eq_or_lt_of_le hk with rfl | hk'
          · exact ⟨hle, h⟩
          · exact absurd (hbefore attempt le_rfl hk') hlast'
        · intro h
          exact (h attempt le_rfl (by omega) fun j hj hjk => by omega).2
    · have hraises : client.attempts post attempt lastError (left + 1) = .error e := by
        rw [attempts, if_pos (by omega), he]
        rfl
      rw [hraises]
      constructor
      · rintro (⟨response, hok, -⟩ | ⟨e', he', hllm'⟩)
        · cases hok
        · cases he'
          rw [hllm] at hllm'
          cases hllm'
      · intro h
        have := (h attempt le_rfl (by omega) fun j hj hjk => by omega).1
        omega

/-- Over a transport that answers or raises `LlmError`, a completion ends with a response or
`LlmError` exactly when no attempt beyond the 1024th retry is reached and no successful answer
that is reached has a body that `json.loads` fails on with an exception of another kind. -/
theorem complete_honest_iff [IntegerRange K] (transport : HttpJsonTransport K)
    (request : CompletionRequest K)
    (hhonours : ∀ k e, client.answers transport request k = .error e → isLlmError e = true) :
    Honest (client.complete transport request) ↔
      ∀ k ≤ client.maxRetries, (∀ j < k, Retried (client.answers transport request j)) →
        client.Tractable k (client.answers transport request k) := by
  unfold complete
  rw [client.attempts_honest_iff _ hhonours _ _ _ (fun h => by cases h)]
  constructor
  · intro h k hk hbefore
    exact h k (Nat.zero_le k) (by omega) fun j _ hj => hbefore j hj
  · intro h k _ hk hbefore
    exact h k (by omega) fun j hj => hbefore j (Nat.zero_le j) hj

end OpenAICompatibleClient

open OpenAICompatibleClient

/-- A client that makes a second attempt, on an interpreter without limits. -/
def bareClient : OpenAICompatibleClient RangedRat where
  endpoint := lit "http://localhost/chat/completions"
  model := lit "model"
  apiKey := none
  timeout := PyFloat.ofNat 120
  maxRetries := 1
  retryBackoff := PyFloat.zero
  text _ := []
  limits := .unlimited
  namedModel := by decide
  positiveTimeout := by decide +kernel
  forwardBackoff := by decide +kernel

/-- A request with one message. -/
def bareRequest : CompletionRequest RangedRat where
  messages := [⟨lit "user", lit "question", ChatMessage.user_checked⟩]
  temperature := PyFloat.zero
  maxTokens := 16
  nonempty := by decide
  warm := by decide +kernel
  positive := by decide

/-- A transport with these answers. -/
def answering (answer : Nat → Behaviour) : HttpJsonTransport RangedRat :=
  fun attempt _ _ _ _ => answer attempt

/-- An overloaded server answers the second attempt with an empty object, which is no
completion. -/
theorem complete_honest_iff_small :
    Honest (bareClient.complete
      (answering fun attempt => if attempt = 0 then .ok (503, []) else .ok (200, [0x7b, 0x7d]))
      bareRequest) := by
  refine (bareClient.complete_honest_iff _ _ fun k e he => ?_).mpr fun k hk _ => ?_
  · unfold answers answering at he
    dsimp only at he
    split at he <;> cases he
  · have hmax : bareClient.maxRetries = 1 := rfl
    refine ⟨by omega, fun body hbody => ?_⟩
    unfold answers answering at hbody
    dsimp only at hbody
    split at hbody <;> cases hbody
    exact ⟨[123, 125], rfl, fun fault hfault => loads_unlimited_error hfault⟩

/-- The bytes of a successful answer that are no text escape as `UnicodeDecodeError`. -/
theorem complete_raises_on_undecodable_body :
    ¬ Honest (bareClient.complete (answering fun _ => .ok (200, [0xff])) bareRequest) := by
  have hfirst : bareClient.complete (answering fun _ => .ok (200, [0xff])) bareRequest =
      bareClient.parseResponse [0xff] := rfl
  rw [hfirst, bareClient.parseResponse_honest_iff]
  rintro ⟨s, hs, -⟩
  cases hs

end CognitiveTree.Llm
