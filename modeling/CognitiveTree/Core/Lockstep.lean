import CognitiveTree.Core.Program

/-!
# Programs in lockstep

`Lockstep` is `RelTriple` for two programs that return or raise the same value. Its
rules follow the structure of programs. Where a program reads its state, one premise
comes in addition: a first run that has escaped must stay escaped.
-/

namespace CognitiveTree

variable {ε σ τ α β : Type}

/-- A program that returns is not handled. -/
theorem tryCatch_of_ok {x : EStateM ε σ α} {handler : ε → EStateM ε σ α} {s t : σ} {a : α}
    (h : x s = .ok a t) : tryCatch x handler s = .ok a t := by
  change EStateM.tryCatch (δ := PUnit) x handler s = _
  unfold EStateM.tryCatch
  rw [h]

/-- A program that raises goes on in the handler. -/
theorem tryCatch_of_error {x : EStateM ε σ α} {handler : ε → EStateM ε σ α} {s t : σ} {e : ε}
    (h : x s = .error e t) : tryCatch x handler s = handler e t := by
  change EStateM.tryCatch (δ := PUnit) x handler s = _
  unfold EStateM.tryCatch
  rw [h]
  rfl

/-- Escaped runs stay escaped. -/
def Keeps (B : σ → Prop) (x : EStateM ε σ α) : Prop := ∀ s, B s → B (finalState (x s))

namespace Keeps

variable {B : σ → Prop}

/-- A value keeps every property. -/
theorem pure (a : α) : Keeps B (pure a : EStateM ε σ α) := fun _ hs => hs

/-- An exception keeps every property. -/
theorem throw (e : ε) : Keeps B (throw e : EStateM ε σ α) := fun _ hs => hs

/-- An update keeps a property that it keeps from every state. -/
theorem modify {f : σ → σ} (h : ∀ s, B s → B (f s)) :
    Keeps B (modify f : EStateM ε σ PUnit) := h

/-- Two programs keep a property when each does. -/
theorem bind {x : EStateM ε σ α} {f : α → EStateM ε σ β} (hx : Keeps B x)
    (hf : ∀ a, Keeps B (f a)) : Keeps B (x >>= f) := by
  intro s hs
  have h := hx s hs
  change B (finalState (EStateM.bind x f s))
  unfold EStateM.bind
  cases hr : x s with
  | ok a s' =>
    rw [hr] at h
    exact hf a s' h
  | error e s' =>
    rw [hr] at h
    exact h

/-- A program that reads the state keeps a property when it does from every state. -/
theorem get_bind {f : σ → EStateM ε σ β} (hf : ∀ s, B s → B (finalState (f s s))) :
    Keeps B (MonadState.get >>= f) := hf

/-- A branch keeps a property when both sides do. -/
theorem ite {c : Prop} [Decidable c] {x y : EStateM ε σ α} (hx : Keeps B x) (hy : Keeps B y) :
    Keeps B (if c then x else y) := by
  by_cases h : c
  · rwa [if_pos h]
  · rwa [if_neg h]

/-- A handled program keeps a property when it and its handler do. -/
theorem tryCatch {x : EStateM ε σ α} {handler : ε → EStateM ε σ α} (hx : Keeps B x)
    (hh : ∀ e, Keeps B (handler e)) : Keeps B (tryCatch x handler) := by
  intro s hs
  have h := hx s hs
  cases hr : x s with
  | ok a s' =>
    rw [hr] at h
    rwa [tryCatch_of_ok hr]
  | error e s' =>
    rw [hr] at h
    rw [tryCatch_of_error hr]
    exact hh e s' h

end Keeps

/-- Two runs that return or raise the same value and keep their states related. -/
abbrev Lockstep (B : σ → Prop) (R : σ → τ → Prop) (x : EStateM ε σ α) (y : EStateM ε τ α)
    (Q : α → σ → τ → Prop) (E : ε → σ → τ → Prop) : Prop :=
  RelTriple B R x y (fun a b s t => a = b ∧ Q a s t) fun e e' s t => e = e' ∧ E e s t

namespace Lockstep

variable {B : σ → Prop} {R R' : σ → τ → Prop} {Q Q' : α → σ → τ → Prop}
  {E E' : ε → σ → τ → Prop}

/-- The first of two programs in lockstep keeps being astray. -/
theorem keeps {x : EStateM ε σ α} {y : EStateM ε τ α} (h : Lockstep B R x y Q E) : Keeps B x :=
  h.1

/-- Where nothing escapes, both runs return or both raise. -/
theorem outcomes {x : EStateM ε σ α} {y : EStateM ε τ α} (h : Lockstep B R x y Q E)
    (hb : ∀ s, ¬ B s) {s : σ} {t : τ} (hst : R s t) :
    (∃ a s' t', x s = .ok a s' ∧ y t = .ok a t' ∧ Q a s' t') ∨
      ∃ e s' t', x s = .error e s' ∧ y t = .error e t' ∧ E e s' t' := by
  have hxy := (h.2 s t hst).resolve_left (hb _)
  cases hx : x s <;> cases hy : y t <;> simp only [hx, hy] at hxy
  · obtain ⟨rfl, hq⟩ := hxy
    exact Or.inl ⟨_, _, _, rfl, rfl, hq⟩
  · obtain ⟨rfl, he⟩ := hxy
    exact Or.inr ⟨_, _, _, rfl, rfl, he⟩

/-- A stronger relation before. -/
theorem pre {x : EStateM ε σ α} {y : EStateM ε τ α} (h : Lockstep B R x y Q E)
    (hr : ∀ s t, R' s t → R s t) : Lockstep B R' x y Q E :=
  h.conseq hr (fun _ _ _ _ h => h) fun _ _ _ _ h => h

/-- A weaker relation after a return. -/
theorem post {x : EStateM ε σ α} {y : EStateM ε τ α} (h : Lockstep B R x y Q E)
    (hq : ∀ a s t, Q a s t → Q' a s t) : Lockstep B R x y Q' E :=
  h.conseq (fun _ _ h => h) (fun _ _ _ _ h => h.imp_right (hq _ _ _)) fun _ _ _ _ h => h

/-- The same value on both sides. -/
theorem pure (a : α) (h : ∀ s t, R s t → Q a s t) :
    Lockstep B R (pure a : EStateM ε σ α) (pure a : EStateM ε τ α) Q E :=
  RelTriple.pure a a fun s t hst => ⟨rfl, h s t hst⟩

/-- The same exception on both sides. -/
theorem throw (e : ε) (h : ∀ s t, R s t → E e s t) :
    Lockstep B R (throw e : EStateM ε σ α) (throw e : EStateM ε τ α) Q E :=
  RelTriple.throw e e fun s t hst => ⟨rfl, h s t hst⟩

/-- An update on each side. -/
theorem modify {Q : PUnit → σ → τ → Prop} {f : σ → σ} {g : τ → τ} (hb : ∀ s, B s → B (f s))
    (h : ∀ s t, R s t → Q ⟨⟩ (f s) (g t)) :
    Lockstep B R (modify f : EStateM ε σ PUnit) (modify g : EStateM ε τ PUnit) Q E :=
  RelTriple.modify f g hb fun s t hst => ⟨rfl, h s t hst⟩

/-- Sequencing: the value handed on is the same on both sides. -/
theorem bind {x : EStateM ε σ α} {y : EStateM ε τ α} {f : α → EStateM ε σ β}
    {g : α → EStateM ε τ β} {S : β → σ → τ → Prop} (hxy : Lockstep B R x y Q E)
    (hfg : ∀ a, Lockstep B (Q a) (f a) (g a) S E) : Lockstep B R (x >>= f) (y >>= g) S E := by
  refine RelTriple.bind hxy (fun a s hs => (hfg a).1 s hs) fun a b => ⟨(hfg a).1, ?_⟩
  rintro s t ⟨rfl, hq⟩
  exact (hfg a).2 s t hq

/-- Both programs read their states and go on from them. -/
theorem get_bind {f : σ → EStateM ε σ α} {g : τ → EStateM ε τ α}
    (hk : ∀ s, B s → B (finalState (f s s)))
    (h : ∀ s t, R s t → Lockstep B (fun s' t' => s' = s ∧ t' = t) (f s) (g t) Q E) :
    Lockstep B R (MonadState.get >>= f) (MonadState.get >>= g) Q E :=
  ⟨Keeps.get_bind hk, fun s t hst => (h s t hst).2 s t ⟨rfl, rfl⟩⟩

/-- Fixing both states. -/
theorem of_forall {x : EStateM ε σ α} {y : EStateM ε τ α} (hk : Keeps B x)
    (h : ∀ s t, R s t → Lockstep B (fun s' t' => s' = s ∧ t' = t) x y Q E) :
    Lockstep B R x y Q E :=
  ⟨hk, fun s t hst => (h s t hst).2 s t ⟨rfl, rfl⟩⟩

/-- First parts with known outcomes leave the rest to be run. -/
theorem of_ok {x : EStateM ε σ α} {y : EStateM ε τ α} {f : α → EStateM ε σ β}
    {g : α → EStateM ε τ β} {S : β → σ → τ → Prop} {s s' : σ} {t t' : τ} {a b : α}
    (hk : Keeps B (x >>= f)) (hx : x s = .ok a s') (hy : y t = .ok b t')
    (hfg : B (finalState (f a s')) ∨
      Lockstep B (fun s₁ t₁ => s₁ = s' ∧ t₁ = t') (f a) (g b) S E) :
    Lockstep B (fun s₁ t₁ => s₁ = s ∧ t₁ = t) (x >>= f) (y >>= g) S E := by
  refine ⟨hk, ?_⟩
  rintro _ _ ⟨rfl, rfl⟩
  rw [bind_of_ok hx, bind_of_ok hy]
  rcases hfg with hesc | hfg
  · exact Or.inl hesc
  · exact hfg.2 s' t' ⟨rfl, rfl⟩

/-- Handlers of the same exception. -/
theorem tryCatch {x : EStateM ε σ α} {y : EStateM ε τ α} {handler : ε → EStateM ε σ α}
    {handler' : ε → EStateM ε τ α} (hxy : Lockstep B R x y Q E)
    (hh : ∀ e, Lockstep B (E e) (handler e) (handler' e) Q E') :
    Lockstep B R (tryCatch x handler) (tryCatch y handler') Q E' := by
  refine ⟨Keeps.tryCatch hxy.1 fun e => (hh e).1, fun s t hst => ?_⟩
  rcases hxy.2 s t hst with hb | h
  · refine Or.inl ?_
    cases hx : x s with
    | ok a s' =>
      rw [hx] at hb
      rwa [tryCatch_of_ok hx]
    | error e s' =>
      rw [hx] at hb
      rw [tryCatch_of_error hx]
      exact (hh e).1 s' hb
  · cases hx : x s <;> cases hy : y t <;> simp only [hx, hy] at h
    · rw [tryCatch_of_ok hx, tryCatch_of_ok hy]
      exact Or.inr h
    · obtain ⟨rfl, he⟩ := h
      rw [tryCatch_of_error hx, tryCatch_of_error hy]
      exact (hh _).2 _ _ he

/-- The same branch on both sides. -/
theorem ite {c : Prop} [Decidable c] {x x' : EStateM ε σ α} {y y' : EStateM ε τ α}
    (hx : c → Lockstep B R x y Q E) (hy : ¬ c → Lockstep B R x' y' Q E) :
    Lockstep B R (if c then x else x') (if c then y else y') Q E := by
  by_cases h : c
  · rw [if_pos h, if_pos h]
    exact hx h
  · rw [if_neg h, if_neg h]
    exact hy h

end Lockstep

end CognitiveTree
