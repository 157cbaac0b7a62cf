import CognitiveTree.Llm.Caching
import CognitiveTree.Core.Lines

/-!
# Token budgets

A budget compares what a tally grew by since the budget was created with its ceilings. The tally
only grows, so a budget that is spent stays spent.
-/

namespace CognitiveTree.Observability

open Llm

/-- `TokenBudget`: the ceilings, and the tally when it was created. -/
structure TokenBudget where
  maxTotalTokens : Option Int
  maxCalls : Option Int
  baseline : TokenUsage
  tokensPositive : ∀ ceiling, maxTotalTokens = some ceiling → 1 ≤ ceiling
  callsPositive : ∀ ceiling, maxCalls = some ceiling → 1 ≤ ceiling

/-- The note of a token ceiling. -/
def tokensNote (ceiling : Int) (spent : TokenUsage) : Str :=
  lit "token budget of " ++ Str.ofInt ceiling ++ lit " exhausted: " ++ Str.ofInt spent.totalTokens ++
    lit " consumed across " ++ Str.ofInt spent.calls ++ lit " calls"

/-- The note of a call ceiling. -/
def callsNote (ceiling : Int) (spent : TokenUsage) : Str :=
  lit "call budget of " ++ Str.ofInt ceiling ++ lit " exhausted: " ++ Str.ofInt spent.calls ++
    lit " calls consuming " ++ Str.ofInt spent.totalTokens ++ lit " tokens"

namespace TokenBudget

/-- `TokenBudget(client, max_total_tokens, max_calls)` on a client with this tally. -/
def create (maxTotalTokens maxCalls : Option Int) (baseline : TokenUsage) : Except Exc TokenBudget :=
  if tokensPositive : ∀ ceiling, maxTotalTokens = some ceiling → 1 ≤ ceiling then
    if callsPositive : ∀ ceiling, maxCalls = some ceiling → 1 ≤ ceiling then
      .ok ⟨maxTotalTokens, maxCalls, baseline, tokensPositive, callsPositive⟩
    else .error (Search.valueError (lit "max_calls must be a positive integer"))
  else .error (Search.valueError (lit "max_total_tokens must be a positive integer"))

/-- What the tally grew by since the budget was created. -/
def spent (b : TokenBudget) (usage : TokenUsage) : TokenUsage := usage - b.baseline

/-- The ceiling, when it is reached. -/
def reached (ceiling : Option Int) (spent : Int) : Option Int := ceiling.filter fun c => c ≤ spent

/-- `budget.check()` on the live tally. -/
def check (b : TokenBudget) (usage : TokenUsage) : Option Str :=
  match reached b.maxTotalTokens (b.spent usage).totalTokens with
  | some ceiling => some (tokensNote ceiling (b.spent usage))
  | none => match reached b.maxCalls (b.spent usage).calls with
    | some ceiling => some (callsNote ceiling (b.spent usage))
    | none => none

/-- The consumption is strictly below each configured ceiling. -/
structure Below (b : TokenBudget) (usage : TokenUsage) : Prop where
  tokens : ∀ ceiling, b.maxTotalTokens = some ceiling → (b.spent usage).totalTokens < ceiling
  calls : ∀ ceiling, b.maxCalls = some ceiling → (b.spent usage).calls < ceiling

/-- The note names a ceiling that is reached. -/
def Names (b : TokenBudget) (usage : TokenUsage) (note : Str) : Prop :=
  (∃ ceiling, b.maxTotalTokens = some ceiling ∧ ceiling ≤ (b.spent usage).totalTokens ∧
    note = tokensNote ceiling (b.spent usage)) ∨
  ∃ ceiling, b.maxCalls = some ceiling ∧ ceiling ≤ (b.spent usage).calls ∧
    note = callsNote ceiling (b.spent usage)

theorem reached_eq_some {ceiling : Option Int} {spent c : Int} :
    reached ceiling spent = some c ↔ ceiling = some c ∧ c ≤ spent := by
  simp [reached, Option.filter_eq_some_iff]

theorem reached_eq_none {ceiling : Option Int} {spent : Int} :
    reached ceiling spent = none ↔ ∀ c, ceiling = some c → spent < c := by
  cases ceiling <;> simp [reached]

/-- The budget lets the run go on exactly below all of its ceilings. -/
theorem check_eq_none_iff (b : TokenBudget) (usage : TokenUsage) :
    b.check usage = none ↔ b.Below usage := by
  unfold check
  cases htokens : reached b.maxTotalTokens (b.spent usage).totalTokens with
  | some ceiling =>
    obtain ⟨hceiling, hle⟩ := reached_eq_some.mp htokens
    refine ⟨fun h => (by cases h), fun h => ?_⟩
    have hlt := h.tokens ceiling hceiling
    omega
  | none =>
    cases hcalls : reached b.maxCalls (b.spent usage).calls with
    | some ceiling =>
      obtain ⟨hceiling, hle⟩ := reached_eq_some.mp hcalls
      refine ⟨fun h => (by cases h), fun h => ?_⟩
      have hlt := h.calls ceiling hceiling
      omega
    | none => exact ⟨fun _ => ⟨reached_eq_none.mp htokens, reached_eq_none.mp hcalls⟩, fun _ => rfl⟩

/-- A reason names a ceiling that is reached. -/
theorem names_of_check {b : TokenBudget} {usage : TokenUsage} {note : Str}
    (h : b.check usage = some note) : b.Names usage note := by
  unfold check at h
  split at h
  · rename_i ceiling htokens
    cases h
    exact Or.inl ⟨ceiling, (reached_eq_some.mp htokens).1, (reached_eq_some.mp htokens).2, rfl⟩
  · split at h
    · rename_i ceiling hcalls
      cases h
      exact Or.inr ⟨ceiling, (reached_eq_some.mp hcalls).1, (reached_eq_some.mp hcalls).2, rfl⟩
    · cases h

/-- A reason is never blank. -/
theorem check_ne_nil (b : TokenBudget) (usage : TokenUsage) : b.check usage ≠ some [] := by
  intro h
  rcases names_of_check h with ⟨ceiling, -, -, hnote⟩ | ⟨ceiling, -, -, hnote⟩
  · exact absurd (congrArg List.head? hnote) (by simp [tokensNote, lit])
  · exact absurd (congrArg List.head? hnote) (by simp [callsNote, lit])

end TokenBudget

/-- The tally after any number of completions that report non-negative tokens. -/
def Completes (before after : TokenUsage) : Prop :=
  ∃ responses : List CompletionResponse,
    (∀ r ∈ responses, 0 ≤ r.promptTokens ∧ 0 ≤ r.completionTokens) ∧
      after = responses.foldl account before

namespace Completes

theorem refl (usage : TokenUsage) : Completes usage usage := ⟨[], by simp, rfl⟩

theorem trans {a b c : TokenUsage} (h : Completes a b) (h' : Completes b c) : Completes a c := by
  obtain ⟨responses, hnonneg, rfl⟩ := h
  obtain ⟨responses', hnonneg', rfl⟩ := h'
  refine ⟨responses ++ responses', fun r hr => ?_, List.foldl_append.symm⟩
  exact (List.mem_append.mp hr).elim (hnonneg r) (hnonneg' r)

/-- Completions only add to the tally. -/
theorem mono {before after : TokenUsage} (h : Completes before after) :
    before.totalTokens ≤ after.totalTokens ∧ before.calls ≤ after.calls := by
  obtain ⟨responses, hnonneg, rfl⟩ := h
  induction responses generalizing before with
  | nil => exact ⟨le_rfl, le_rfl⟩
  | cons r responses ih =>
    rw [List.forall_mem_cons] at hnonneg
    obtain ⟨htokens, hcalls⟩ := @ih (account before r) hnonneg.2
    have hone : before.totalTokens ≤ (account before r).totalTokens ∧
        before.calls ≤ (account before r).calls := by
      simp only [account, TokenUsage.totalTokens]
      omega
    exact ⟨hone.1.trans htokens, hone.2.trans hcalls⟩

/-- Once the budget gives a reason it gives one after any further completions. -/
theorem check_isSome {before after : TokenUsage} (h : Completes before after) {b : TokenBudget}
    (hspent : (b.check before).isSome = true) : (b.check after).isSome = true := by
  rw [Option.isSome_iff_ne_none, ne_eq, TokenBudget.check_eq_none_iff] at hspent ⊢
  refine fun hbelow => hspent ?_
  obtain ⟨htokens, hcalls⟩ := h.mono
  refine ⟨fun ceiling hc => ?_, fun ceiling hc => ?_⟩
  · have hlt := hbelow.tokens ceiling hc
    simp only [TokenBudget.spent, TokenUsage.totalTokens_sub] at hlt ⊢
    omega
  · have hlt := hbelow.calls ceiling hc
    simp only [TokenBudget.spent, TokenUsage.calls_sub] at hlt ⊢
    omega

end Completes

end CognitiveTree.Observability
