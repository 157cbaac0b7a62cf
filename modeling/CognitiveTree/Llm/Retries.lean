import Mathlib.Data.ENat.Lattice
import CognitiveTree.Llm.OpenAiCompatible

/-!
# The retry loop

What a completion does outside: it posts the request and sleeps between its attempts. The number
of its posts, the time it sleeps and its outcome are determined by the answers it gets.
-/

namespace CognitiveTree.Llm

open Feedback Json Search

/-- One action of the client. -/
inductive Effect (K : Type) where
  /-- `time.sleep(seconds)` -/
  | sleep (seconds : K)
  /-- `transport.post(url, payload, headers, timeout)` -/
  | post (url : Str) (payload : PyVal K) (headers : Dict Str Str) (timeout : K)

/-- What the loop makes of an answer: another attempt, with the error to raise when none is left,
or the end of the completion. -/
inductive Reaction where
  | retry (error : Exc)
  | settle (result : Except Exc CompletionResponse)

namespace OpenAICompatibleClient

section Conversation

variable {K : Type} [PyFloat K] [PyDecimal K] [PyNumber K] (client : OpenAICompatibleClient K)

/-- The body of the loop of `complete` behind `post`. -/
def react : Behaviour → Reaction
  | .error e => if isLlmError e then .retry e else .settle (.error e)
  | .ok (status, body) =>
    if retryable status then
      .retry (llmError (lit "backend error HTTP " ++ Str.ofInt status ++ lit ": " ++
        bytesRepr (body.take 200)))
    else if status ≠ 200 then
      .settle (.error (llmError (lit "request rejected with HTTP " ++ Str.ofInt status ++
        lit ": " ++ bytesRepr (body.take 200))))
    else .settle (client.parseResponse body)

/-- `_back_off(attempt)`, which attempt 0 does not call: the sleep that it asks for. -/
def pause (attempt : Nat) : Except Exc (List (Effect K)) :=
  if attempt = 0 then .ok []
  else (client.backOff attempt).map fun delay =>
    if PyFloat.lt PyFloat.zero delay then [.sleep delay] else []

/-- The call of `post`. -/
def posting (request : CompletionRequest K) : Effect K :=
  .post client.endpoint (client.payload request) client.headers client.timeout

/-- The loop of `complete` from an attempt on, with so many attempts left: what it does, and what
it ends with. -/
def conversation (transport : HttpJsonTransport K) (request : CompletionRequest K) (attempt : Nat)
    (lastError : Exc) : Nat → List (Effect K) × Except Exc CompletionResponse
  | 0 => ([], .error lastError)
  | left + 1 => match client.pause attempt with
    | .error e => ([], .error e)
    | .ok pause => match client.react (client.answers transport request attempt) with
      | .settle result => (pause ++ [client.posting request], result)
      | .retry e =>
        let rest := conversation transport request (attempt + 1) e left
        (pause ++ client.posting request :: rest.1, rest.2)

/-- `complete(request)` with what it does. -/
def completing (transport : HttpJsonTransport K) (request : CompletionRequest K) :
    List (Effect K) × Except Exc CompletionResponse :=
  client.conversation transport request 0 ⟨lit "AssertionError", []⟩ (client.maxRetries + 1)

/-- One pass of the loop, by the reaction to its answer. -/
theorem attempts_react (post : Nat → Behaviour) (attempt : Nat) (lastError : Exc) (left : Nat) :
    client.attempts post attempt lastError (left + 1) =
      match client.pause attempt with
      | .error e => .error e
      | .ok _ => match client.react (post attempt) with
        | .settle result => result
        | .retry e => client.attempts post (attempt + 1) e left := by
  have hanswer : (match post attempt with
      | .error e => if isLlmError e then client.attempts post (attempt + 1) e left else .error e
      | .ok (status, body) =>
        if retryable status then
          client.attempts post (attempt + 1) (llmError (lit "backend error HTTP " ++
            Str.ofInt status ++ lit ": " ++ bytesRepr (body.take 200))) left
        else if status ≠ 200 then
          .error (llmError (lit "request rejected with HTTP " ++ Str.ofInt status ++ lit ": " ++
            bytesRepr (body.take 200)))
        else client.parseResponse body) =
      match client.react (post attempt) with
      | .settle result => result
      | .retry e => client.attempts post (attempt + 1) e left := by
    unfold react
    cases post attempt with
    | error e => by_cases he : isLlmError e = true <;> simp [he]
    | ok answer =>
      obtain ⟨status, body⟩ := answer
      by_cases hretry : retryable status = true
      · simp [hretry]
      · by_cases hstatus : status = 200
        · subst hstatus
          simp [hretry]
        · simp [hretry, hstatus]
  rw [← hanswer, attempts, pause]
  by_cases hzero : attempt = 0
  · subst hzero
    rfl
  · rw [if_neg hzero, if_pos hzero]
    cases client.backOff attempt with
    | error e => rfl
    | ok delay => rfl

/-- The loop ends as it does without the record of its actions. -/
theorem conversation_result (transport : HttpJsonTransport K) (request : CompletionRequest K)
    (left attempt : Nat) (lastError : Exc) :
    (client.conversation transport request attempt lastError left).2 =
      client.attempts (client.answers transport request) attempt lastError left := by
  induction left generalizing attempt lastError with
  | zero => rfl
  | succ left ih =>
    rw [attempts_react, conversation]
    cases client.pause attempt with
    | error e => rfl
    | ok pause =>
      cases client.react (client.answers transport request attempt) with
      | settle result => rfl
      | retry e => exact ih (attempt + 1) e

theorem completing_result (transport : HttpJsonTransport K) (request : CompletionRequest K) :
    (client.completing transport request).2 = client.complete transport request :=
  client.conversation_result transport request _ _ _

omit [PyNumber K] in
/-- What a retried answer would raise, and what any other one ends with. -/
theorem react_cases (answer : Behaviour) :
    (Retried answer ∧ ∃ e, client.react answer = .retry e) ∨
      ¬ Retried answer ∧ ∃ result, client.react answer = .settle result := by
  unfold react
  cases answer with
  | error e =>
    by_cases he : isLlmError e = true
    · exact Or.inl ⟨he, e, if_pos he⟩
    · exact Or.inr ⟨he, .error e, if_neg he⟩
  | ok answer =>
    obtain ⟨status, body⟩ := answer
    by_cases hretry : retryable status = true
    · exact Or.inl ⟨hretry, _, if_pos hretry⟩
    · refine Or.inr ⟨hretry, ?_⟩
      simp only [hretry]
      by_cases hstatus : status = 200 <;> simp [hstatus]

/-- What a completion ends with when this answer is its last. -/
def outcome (answer : Behaviour) : Except Exc CompletionResponse :=
  match client.react answer with
  | .settle result => result
  | .retry e => .error e

/-- The actions of one attempt. -/
def exchange (request : CompletionRequest K) (pauses : Nat → List (Effect K)) (attempt : Nat) :
    List (Effect K) :=
  pauses attempt ++ [client.posting request]

/-- Without an overflow of the delay the loop makes one attempt after the other, up to the first
answer that is not retried. -/
theorem conversation_eq (transport : HttpJsonTransport K) (request : CompletionRequest K)
    {pauses : Nat → List (Effect K)} (hpauses : ∀ a, client.pause a = .ok (pauses a))
    (left attempt : Nat) (lastError : Exc) : ∃ made,
    client.conversation transport request attempt lastError (left + 1) =
      ((List.range' attempt (made + 1)).flatMap (client.exchange request pauses),
        client.outcome (client.answers transport request (attempt + made))) ∧
    made ≤ left ∧ (∀ j < made, Retried (client.answers transport request (attempt + j))) ∧
    (made < left → ¬ Retried (client.answers transport request (attempt + made))) := by
  induction left generalizing attempt lastError with
  | zero =>
    refine ⟨0, ?_, le_rfl, fun j hj => by omega, fun h => by omega⟩
    rw [conversation, hpauses]
    dsimp only [outcome]
    cases h : client.react (client.answers transport request attempt) <;>
      simp [conversation, exchange]
  | succ left ih =>
    rw [conversation, hpauses]
    dsimp only
    rcases client.react_cases (client.answers transport request attempt) with
      ⟨hretried, e, he⟩ | ⟨hsettled, result, hresult⟩
    · obtain ⟨made, heq, hle, hbefore, hlast⟩ := ih (attempt + 1) e
      refine ⟨made + 1, ?_, by omega, ?_, ?_⟩
      · rw [he]
        dsimp only
        rw [heq, List.range'_succ (n := made + 1), List.flatMap_cons, exchange]
        simp [Nat.add_assoc, Nat.add_comm 1]
      · intro j hj
        cases j with
        | zero => exact hretried
        | succ j =>
          have := hbefore j (by omega)
          rwa [Nat.add_assoc, Nat.add_comm 1] at this
      · intro hmade
        have := hlast (by omega)
        rwa [Nat.add_assoc, Nat.add_comm 1] at this
    · refine ⟨0, ?_, Nat.zero_le _, fun j hj => by omega, fun _ => hsettled⟩
      rw [hresult]
      simp [outcome, hresult, exchange]

end Conversation

open Classical in
/-- How many answers are retried before the first one that is not. -/
noncomputable def leadingRun (answers : Nat → Behaviour) : ℕ∞ :=
  if h : ∃ k, ¬ Retried (answers k) then (Nat.find h : ℕ) else ⊤

theorem le_leadingRun_iff (answers : Nat → Behaviour) (k : ℕ) :
    (k : ℕ∞) ≤ leadingRun answers ↔ ∀ j < k, Retried (answers j) := by
  classical
  unfold leadingRun
  split
  · rename_i h
    rw [Nat.cast_le, Nat.le_find_iff]
    simp
  · rename_i h
    push Not at h
    simp [h]

section Exact

variable (client : OpenAICompatibleClient ℚ)

/-- The sleep before an attempt, which is no call at all when its delay is zero. -/
def nap (attempt : Nat) : List (Effect ℚ) :=
  let delay := smaller (client.retryBackoff * 2 ^ (attempt - 1)) 30
  if attempt = 0 then [] else if 0 < delay then [.sleep delay] else []

/-- The seconds that are slept through. -/
def slept (effects : List (Effect ℚ)) : ℚ :=
  (effects.map fun effect => match effect with
    | .sleep seconds => seconds
    | .post .. => 0).sum

theorem pause_eq (attempt : Nat) : client.pause attempt = .ok (client.nap attempt) := by
  unfold pause nap
  by_cases hzero : attempt = 0
  · simp [hzero]
  · have hfactor : (PyNumber.ofInt (2 ^ (attempt - 1)) : Option ℚ) = some (2 ^ (attempt - 1)) := by
      change some (((2 : Int) ^ (attempt - 1) : Int) : ℚ) = _
      push_cast
      rfl
    have hback : client.backOff attempt =
        .ok (smaller (client.retryBackoff * 2 ^ (attempt - 1)) 30) := by
      unfold backOff
      rw [hfactor]
      rfl
    rw [if_neg hzero, if_neg hzero, hback]
    change Except.ok (if decide (0 < _) = true then _ else _) = _
    simp

theorem smaller_eq_min (a b : ℚ) : smaller a b = min a b := by
  have hsmaller : smaller a b = if b < a then b else a := by
    change (if decide (b < a) = true then b else a) = _
    simp
  rw [hsmaller]
  split
  · rename_i h
    exact (min_eq_right h.le).symm
  · rename_i h
    exact (min_eq_left (not_lt.mp h)).symm

/-- The delay doubles from the base with every retry, up to thirty seconds. -/
theorem slept_nap {attempt : Nat} (h : attempt ≠ 0) :
    slept (client.nap attempt) = min (client.retryBackoff * 2 ^ (attempt - 1)) 30 := by
  have hbase : 0 ≤ client.retryBackoff := by
    have := client.forwardBackoff
    change decide (client.retryBackoff < 0) = false at this
    simpa using this
  have hdelay : 0 ≤ min (client.retryBackoff * 2 ^ (attempt - 1)) 30 :=
    le_min (by positivity) (by norm_num)
  unfold nap
  rw [if_neg h, smaller_eq_min]
  split
  · simp [slept]
  · rename_i hpos
    rw [le_antisymm (not_lt.mp hpos) hdelay]
    rfl

/-- A completion posts the same request once and again after every retried answer but the last
that it may make, sleeps the doubled and capped delay before each retry, and ends as the first
answer that is not retried decides, or else with the error of the last attempt. -/
theorem complete_retry_law (transport : HttpJsonTransport ℚ) (request : CompletionRequest ℚ) :
    ∃ made : ℕ, (client.completing transport request).1 =
        (List.range made).flatMap (client.exchange request client.nap) ∧
      (made : ℕ∞) =
        min ((client.maxRetries : ℕ∞) + 1)
          (1 + leadingRun (client.answers transport request)) ∧
      client.nap 0 = [] ∧
      (∀ a ≠ 0, slept (client.nap a) = min (client.retryBackoff * 2 ^ (a - 1)) 30) ∧
      (∀ a, ∀ effect ∈ client.nap a, ∃ seconds, effect = .sleep seconds) ∧
      (∀ k ≤ client.maxRetries, (∀ j < k, Retried (client.answers transport request j)) →
        ∀ result, client.react (client.answers transport request k) = .settle result →
          client.complete transport request = result) ∧
      ((∀ k ≤ client.maxRetries, Retried (client.answers transport request k)) →
        ∃ e, client.react (client.answers transport request client.maxRetries) = .retry e ∧
          client.complete transport request = .error e) := by
  obtain ⟨made, heq, hle, hbefore, hlast⟩ := client.conversation_eq transport request client.pause_eq
    client.maxRetries 0 ⟨lit "AssertionError", []⟩
  simp only [Nat.zero_add] at heq hbefore hlast
  have hresult : client.complete transport request =
      client.outcome (client.answers transport request made) := by
    rw [← completing_result, completing, heq]
  refine ⟨made + 1, ?_, ?_, rfl, fun a ha => client.slept_nap ha, ?_, ?_, ?_⟩
  · rw [completing, heq, List.range_eq_range']
  · -- one attempt more than answers are retried, unless the attempts run out
    push_cast
    apply le_antisymm
    · apply le_min
      · exact add_le_add_left (Nat.cast_le.mpr hle) 1
      · rw [add_comm]
        exact add_le_add_right ((le_leadingRun_iff _ _).mpr hbefore) 1
    · rcases Nat.eq_or_lt_of_le hle with heq' | hlt
      · rw [heq']
        exact min_le_left _ _
      · have hrun : ¬ ((made + 1 : ℕ) : ℕ∞) ≤ leadingRun (client.answers transport request) := by
          rw [le_leadingRun_iff]
          intro hall
          exact hlast hlt (hall made (by omega))
        rw [not_le, Nat.cast_add, Nat.cast_one] at hrun
        rw [add_comm 1]
        exact (min_le_right _ _).trans (add_le_add_left (Order.le_of_lt_add_one hrun) 1)
  · intro a effect heffect
    unfold nap at heffect
    dsimp only at heffect
    split_ifs at heffect
    · cases heffect
    · exact ⟨_, List.mem_singleton.mp heffect⟩
    · cases heffect
  · intro k hk hretried result hsettle
    have hsettled : ¬ Retried (client.answers transport request k) := by
      rcases client.react_cases (client.answers transport request k) with ⟨-, e, he⟩ | ⟨h, -⟩
      · rw [hsettle] at he
        cases he
      · exact h
    have hmade : made = k := by
      rcases Nat.lt_trichotomy made k with hlt | heq' | hgt
      · exact absurd (hretried made hlt) (hlast (by omega))
      · exact heq'
      · exact absurd (hbefore k hgt) hsettled
    rw [hresult, hmade, outcome, hsettle]
  · intro hretried
    have hmade : made = client.maxRetries := by
      by_contra hne
      exact hlast (by omega) (hretried made hle)
    rcases client.react_cases (client.answers transport request client.maxRetries) with
      ⟨-, e, he⟩ | ⟨h, -⟩
    · exact ⟨e, he, by rw [hresult, hmade, outcome, he]⟩
    · exact absurd (hretried _ le_rfl) h

end Exact

end OpenAICompatibleClient

end CognitiveTree.Llm
