import CognitiveTree.Core.Recency
import CognitiveTree.Llm.Caching

/-!
# The store as a least-recently-used cache

Over any sequence of operations the store of completions answers as the reference does and holds
what the reference holds, in the order of the last uses. Its counters are those of its answers.
-/

namespace CognitiveTree.Llm

open Lru

variable {K : Type} [PyFloat K]

/-- An operation on the store. -/
abbrev CacheOp (K : Type) [PyFloat K] := Op (CompletionRequest K) CompletionResponse

namespace CompletionCache

/-- The answers to the lookups among these operations, and the store after them. -/
def perform (c : CompletionCache K) : List (CacheOp K) →
    List (Option CompletionResponse) × CompletionCache K
  | [] => ([], c)
  | .get request :: ops =>
    let rest := perform (c.get request).2 ops
    ((c.get request).1 :: rest.1, rest.2)
  | .put request response :: ops => perform (c.put request response) ops
  | .clear :: ops => perform c.clear ops

/-- The counters grow with the answers, whatever else is done. -/
theorem perform_counts (c : CompletionCache K) (ops : List (CacheOp K)) :
    (c.perform ops).2.hits = c.hits + (c.perform ops).1.countP (·.isSome) ∧
      (c.perform ops).2.misses = c.misses + (c.perform ops).1.countP (·.isNone) := by
  induction ops generalizing c with
  | nil => exact ⟨rfl, rfl⟩
  | cons op ops ih =>
    cases op with
    | get request =>
      obtain ⟨hhits, hmisses⟩ := get_counts c request
      obtain ⟨ihhits, ihmisses⟩ := ih (c.get request).2
      rw [perform]
      dsimp only
      rw [ihhits, ihmisses, hhits, hmisses, List.countP_cons, List.countP_cons]
      cases (c.get request).1 <;> simp <;> omega
    | put request response => exact ih (c.put request response)
    | clear => exact ih c.clear

/-- A lookup answers as the reference does and leaves the store in agreement with it. -/
theorem mirrors_get [FloatEquality K] (c : CompletionCache K)
    {h : History (CompletionRequest K) CompletionResponse}
    (hm : Mirrors h c.maxEntries c.entries) (request : CompletionRequest K) :
    (c.get request).1 = h.answer c.maxEntries request ∧
      (c.get request).2.maxEntries = c.maxEntries ∧
      Mirrors (h.after c.maxEntries (.get request)) c.maxEntries (c.get request).2.entries := by
  rw [← hm.get? request]
  unfold get
  split
  · rename_i hmissing
    exact ⟨hmissing.symm, rfl, by rwa [hm.miss hmissing]⟩
  · rename_i cached hfound
    exact ⟨hfound.symm, rfl, hm.hit c.positive hfound⟩

/-- From a store in agreement, every sequence of operations is answered as by the reference and
leads to a store in agreement. -/
theorem perform_mirrors [FloatEquality K] (ops : List (CacheOp K)) (c : CompletionCache K)
    {h : History (CompletionRequest K) CompletionResponse}
    (hm : Mirrors h c.maxEntries c.entries) :
    (c.perform ops).1 = (h.replay c.maxEntries ops).1 ∧
      Mirrors (h.replay c.maxEntries ops).2 c.maxEntries (c.perform ops).2.entries := by
  induction ops generalizing c h with
  | nil => exact ⟨rfl, hm⟩
  | cons op ops ih =>
    cases op with
    | get request =>
      obtain ⟨hanswer, hlimit, hnext⟩ := c.mirrors_get hm request
      have hrest := ih (c.get request).2 (h := h.after c.maxEntries (.get request))
        (by rw [hlimit]; exact hnext)
      rw [hlimit] at hrest
      exact ⟨congrArg₂ List.cons hanswer hrest.1, hrest.2⟩
    | put request response =>
      exact ih (c.put request response) (hm.put c.positive request response)
    | clear => exact ih c.clear (mirrors_empty c.maxEntries)

end CompletionCache

/-- A new store refines the reference over any sequence of operations: it gives the answers of the
reference, it holds the latest responses of the most recently used requests that were put since the
last clear, least recently used first, and it counts the answers of the whole history. -/
theorem cache_refines_reference [FloatEquality K] (maxEntries : Nat) (positive : 1 ≤ maxEntries)
    (ops : List (CacheOp K)) :
    ((CompletionCache.empty maxEntries positive).perform ops).1 =
        (History.empty.replay maxEntries ops).1 ∧
      Mirrors (History.empty.replay maxEntries ops).2 maxEntries
        ((CompletionCache.empty maxEntries positive).perform ops).2.entries ∧
      ((CompletionCache.empty maxEntries positive).perform ops).2.hits =
        (History.empty.replay maxEntries ops).1.countP (·.isSome) ∧
      ((CompletionCache.empty maxEntries positive).perform ops).2.misses =
        (History.empty.replay maxEntries ops).1.countP (·.isNone) := by
  obtain ⟨hanswers, hentries⟩ := CompletionCache.perform_mirrors ops
    (CompletionCache.empty maxEntries positive) (mirrors_empty maxEntries)
  obtain ⟨hhits, hmisses⟩ := CompletionCache.perform_counts
    (CompletionCache.empty maxEntries positive) ops
  rw [hanswers] at hhits hmisses
  refine ⟨hanswers, hentries, hhits.trans (Nat.zero_add _), hmisses.trans (Nat.zero_add _)⟩

/-- A request that differs from others by its limit on tokens. -/
def limitedRequest (n : Nat) : CompletionRequest ℚ where
  messages := [⟨lit "user", lit "prompt", ChatMessage.user_checked⟩]
  temperature := 1
  maxTokens := n + 1
  nonempty := List.cons_ne_nil _ _
  warm := by decide +kernel
  positive := by omega

/-- In a store for one entry the second request evicts the first one. -/
theorem cache_refines_reference_small :
    ((CompletionCache.empty 1 (Nat.le_refl 1)).perform
      [.put (limitedRequest 1) ⟨lit "a", [], 0, 0⟩, .put (limitedRequest 2) ⟨lit "b", [], 0, 0⟩,
        .get (limitedRequest 1), .get (limitedRequest 2)]).1 = [none, some ⟨lit "b", [], 0, 0⟩] :=
  (cache_refines_reference 1 (Nat.le_refl 1) _).1.trans (by decide +kernel)

end CognitiveTree.Llm
