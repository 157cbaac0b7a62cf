import CognitiveTree.Core.Number

/-!
# Completion clients

Requests and responses of a completion backend. A request carries the proof that it passed its
checks, so an invalid one cannot be built. Two requests are one key when their fields compare equal.
-/

namespace CognitiveTree.Llm

/-- Single message in a chat-completion conversation. -/
structure ChatMessage where
  role : Str
  content : Str
  checked : role ∈ [lit "system", lit "user", lit "assistant"]
  deriving DecidableEq

theorem ChatMessage.system_checked : lit "system" ∈ [lit "system", lit "user", lit "assistant"] := by
  simp

theorem ChatMessage.user_checked : lit "user" ∈ [lit "system", lit "user", lit "assistant"] := by
  simp

/-- Parameters of one completion call. -/
structure CompletionRequest (K : Type) [PyFloat K] where
  messages : List ChatMessage
  temperature : K
  maxTokens : Int
  nonempty : messages ≠ []
  warm : (PyFloat.le PyFloat.zero temperature && PyFloat.le temperature (PyFloat.ofNat 2)) = true
  positive : 1 ≤ maxTokens

/-- Completion text together with backend accounting. -/
structure CompletionResponse where
  text : Str
  model : Str
  promptTokens : Int
  completionTokens : Int
  deriving DecidableEq

variable {K : Type} [PyFloat K]

/-- `a == b` on requests. -/
instance : BEq (CompletionRequest K) where
  beq a b := decide (a.messages = b.messages) && PyFloat.eq a.temperature b.temperature &&
    decide (a.maxTokens = b.maxTokens)

theorem CompletionRequest.beq_iff {a b : CompletionRequest K} : (a == b) = true ↔
    a.messages = b.messages ∧ PyFloat.eq a.temperature b.temperature = true ∧
      a.maxTokens = b.maxTokens := by
  change (_ && _ && _) = true ↔ _
  simp only [Bool.and_eq_true, decide_eq_true_eq, and_assoc]

/-- Requests are compared as keys: the checks of a request exclude a NaN. -/
instance [FloatEquality K] : EquivBEq (CompletionRequest K) where
  symm h := by
    obtain ⟨hmessages, htemperature, htokens⟩ := CompletionRequest.beq_iff.mp h
    exact CompletionRequest.beq_iff.mpr
      ⟨hmessages.symm, FloatEquality.symm _ _ htemperature, htokens.symm⟩
  trans h h' := by
    obtain ⟨hmessages, htemperature, htokens⟩ := CompletionRequest.beq_iff.mp h
    obtain ⟨hmessages', htemperature', htokens'⟩ := CompletionRequest.beq_iff.mp h'
    exact CompletionRequest.beq_iff.mpr ⟨hmessages.trans hmessages',
      FloatEquality.trans _ _ _ htemperature htemperature', htokens.trans htokens'⟩
  rfl {a} := CompletionRequest.beq_iff.mpr ⟨rfl, FloatEquality.refl_of_le _ _
    (Bool.and_eq_true_iff.mp a.warm).2, rfl⟩

end CognitiveTree.Llm
