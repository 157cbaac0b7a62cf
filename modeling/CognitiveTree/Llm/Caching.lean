import CognitiveTree.Core.Lru
import CognitiveTree.Llm.Client
import CognitiveTree.Observability.Metrics

/-!
# Completion cache

The store of completions, the client in front of it and the wrapper that tallies tokens. The store
carries the proof that it never holds more entries than it may.
-/

namespace CognitiveTree.Llm

open Observability

variable {K : Type} [PyFloat K]

/-- `CompletionCache`. -/
structure CompletionCache (K : Type) [PyFloat K] where
  maxEntries : Nat
  entries : List (CompletionRequest K × CompletionResponse)
  hits : Nat
  misses : Nat
  positive : 1 ≤ maxEntries
  bounded : entries.length ≤ maxEntries

namespace CompletionCache

/-- A new store. -/
def empty (maxEntries : Nat) (positive : 1 ≤ maxEntries) : CompletionCache K :=
  ⟨maxEntries, [], 0, 0, positive, Nat.zero_le _⟩

/-- `cache.get(request)`, with the store after the recorded lookup. -/
def get (c : CompletionCache K) (request : CompletionRequest K) :
    Option CompletionResponse × CompletionCache K :=
  match Lru.get? c.entries request with
  | none => (none, { c with misses := c.misses + 1 })
  | some cached => (some cached,
    { c with
      entries := Lru.moveToEnd c.entries request
      hits := c.hits + 1
      bounded := (Lru.length_moveToEnd c.entries request).trans_le c.bounded })

/-- `cache.put(request, response)`. -/
def put (c : CompletionCache K) (request : CompletionRequest K) (response : CompletionResponse) :
    CompletionCache K :=
  { c with
    entries := Lru.trim c.maxEntries
      (Lru.moveToEnd (Lru.assign c.entries request response) request)
    bounded := Lru.length_trim_le .. }

/-- `cache.clear()`. -/
def clear (c : CompletionCache K) : CompletionCache K :=
  { c with entries := [], bounded := Nat.zero_le _ }

/-- Each lookup is recorded, as a hit or as a miss. -/
theorem get_counts (c : CompletionCache K) (request : CompletionRequest K) :
    (c.get request).2.hits = c.hits + (if (c.get request).1.isSome then 1 else 0) ∧
      (c.get request).2.misses = c.misses + (if (c.get request).1.isSome then 0 else 1) := by
  unfold get
  split <;> exact ⟨rfl, rfl⟩

/-- A lookup adds no entry. -/
theorem mem_of_mem_get {c : CompletionCache K} {request : CompletionRequest K}
    {entry : CompletionRequest K × CompletionResponse} (h : entry ∈ (c.get request).2.entries) :
    entry ∈ c.entries := by
  unfold get at h
  split at h
  · exact h
  · exact Lru.mem_of_mem_moveToEnd h

/-- What a lookup finds was stored for an equal request. -/
theorem exists_of_get {c : CompletionCache K} {request : CompletionRequest K}
    {cached : CompletionResponse} (h : (c.get request).1 = some cached) :
    ∃ entry ∈ c.entries, (entry.1 == request) = true ∧ entry.2 = cached := by
  unfold get at h
  split at h
  · cases h
  · rename_i hfound
    cases h
    exact Lru.exists_of_get? hfound

/-- A store adds at most its own response, under an equal request. -/
theorem mem_of_mem_put {c : CompletionCache K} {request : CompletionRequest K}
    {response : CompletionResponse} {entry : CompletionRequest K × CompletionResponse}
    (h : entry ∈ (c.put request response).entries) : entry ∈ c.entries ∨
      entry.2 = response ∧ (entry.1 = request ∨ (entry.1 == request) = true) :=
  Lru.mem_of_mem_assign (Lru.mem_of_mem_moveToEnd (Lru.mem_of_mem_trim h))

end CompletionCache

/-- `dataclasses.replace(cached, prompt_tokens=0, completion_tokens=0)`. -/
def CompletionResponse.replayed (cached : CompletionResponse) : CompletionResponse :=
  { cached with promptTokens := 0, completionTokens := 0 }

/-- The condition under which `CachingLlmClient.complete` asks the cache. -/
def cacheable (cacheSampled : Bool) (request : CompletionRequest K) : Bool :=
  cacheSampled || PyFloat.eq request.temperature PyFloat.zero

/-- `AccountingLlmClient.complete` behind a response of its inner client. -/
def account (usage : TokenUsage) (response : CompletionResponse) : TokenUsage :=
  ⟨usage.calls + 1, usage.promptTokens + response.promptTokens,
    usage.completionTokens + response.completionTokens⟩

/-- The tally of an `AccountingLlmClient` that saw these responses. -/
def tallied (responses : List CompletionResponse) : TokenUsage :=
  responses.foldl account ⟨0, 0, 0⟩

/-- The tally adds up what the responses report. -/
theorem tallied_eq (responses : List CompletionResponse) : tallied responses =
    ⟨responses.length, (responses.map (·.promptTokens)).sum,
      (responses.map (·.completionTokens)).sum⟩ := by
  have hfold : ∀ usage, responses.foldl account usage =
      ⟨usage.calls + responses.length, usage.promptTokens + (responses.map (·.promptTokens)).sum,
        usage.completionTokens + (responses.map (·.completionTokens)).sum⟩ := by
    induction responses with
    | nil => simp
    | cons response responses ih =>
      intro usage
      rw [List.foldl_cons, ih]
      simp only [account, List.length_cons, List.map_cons, List.sum_cons, TokenUsage.mk.injEq]
      push_cast
      omega
  rw [tallied, hfold]
  simp

end CognitiveTree.Llm
