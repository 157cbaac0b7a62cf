import CognitiveTree.Core.Lockstep

/-!
# Programs that are alike on some states

A part of a program may be exchanged for another one that does the same from every state the part
is run from. The rules follow the structure of programs; what is known of the states in the middle
comes from `Triple`.
-/

namespace CognitiveTree

variable {ε σ α β : Type}

/-- Both programs do the same from each state in `P`. -/
def Alike (P : σ → Prop) (x y : EStateM ε σ α) : Prop := ∀ s, P s → x s = y s

namespace Alike

variable {P P' : σ → Prop} {Q : α → σ → Prop} {E : ε → σ → Prop} {x y : EStateM ε σ α}

/-- A program is like itself. -/
theorem refl (P : σ → Prop) (x : EStateM ε σ α) : Alike P x x := fun _ _ => rfl

/-- Programs are alike from fewer states. -/
theorem pre (h : Alike P x y) (hp : ∀ s, P' s → P s) : Alike P' x y := fun s hs => h s (hp s hs)

/-- The second parts run in the states in which the first one returns. -/
theorem bind {f g : α → EStateM ε σ β} (h : Alike P x y) (ht : Triple P y Q E)
    (hf : ∀ a, Alike (Q a) (f a) (g a)) : Alike P (x >>= f) (y >>= g) := by
  intro s hs
  have hend := ht s hs
  rw [bind_run_congr (h s hs)]
  cases hr : y s with
  | ok a t =>
    rw [hr] at hend
    rw [bind_of_ok hr, bind_of_ok hr]
    exact hf a t hend
  | error e t => rw [bind_of_error hr, bind_of_error hr]

/-- The first part is the same program. -/
theorem bind_left {f g : α → EStateM ε σ β} (ht : Triple P x Q E)
    (hf : ∀ a, Alike (Q a) (f a) (g a)) : Alike P (x >>= f) (x >>= g) := (refl P x).bind ht hf

/-- The rest is the same program. -/
theorem bind_right (h : Alike P x y) (f : α → EStateM ε σ β) : Alike P (x >>= f) (y >>= f) :=
  fun s hs => bind_run_congr (h s hs)

/-- Behind the same update programs are alike when they are from its states. -/
theorem modify_bind {f : σ → σ} {Q : σ → Prop} {x y : PUnit → EStateM ε σ β}
    (hf : ∀ s, P s → Q (f s)) (h : Alike Q (x ⟨⟩) (y ⟨⟩)) :
    Alike P (modify f >>= x) (modify f >>= y) := fun s hs => h (f s) (hf s hs)

/-- Branches are alike when both sides are. -/
theorem ite {c : Prop} [Decidable c] {x' y' : EStateM ε σ α} (h : c → Alike P x y)
    (h' : ¬ c → Alike P x' y') : Alike P (if c then x else x') (if c then y else y') := by
  by_cases hc : c
  · rw [if_pos hc, if_pos hc]
    exact h hc
  · rw [if_neg hc, if_neg hc]
    exact h' hc

/-- Handled programs are alike when they are inside. -/
theorem tryCatch (h : Alike P x y) (handler : ε → EStateM ε σ α) :
    Alike P (tryCatch x handler) (tryCatch y handler) := by
  intro s hs
  have hsame := h s hs
  cases hr : y s with
  | ok a t => rw [tryCatch_of_ok (hsame.trans hr), tryCatch_of_ok hr]
  | error e t => rw [tryCatch_of_error (hsame.trans hr), tryCatch_of_error hr]

end Alike

end CognitiveTree
