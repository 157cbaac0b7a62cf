import Mathlib.Data.List.Forall2

/-!
# Stateful programs with exceptions

Programs are core `EStateM` actions without backtracking: a raised exception
keeps every state change made before it, as in the object language. `Triple` is
the one-run logic with a separate postcondition for exceptions. `RelTriple`
relates two runs, possibly over different state types; its escape predicate
names the states after which nothing more is promised.
-/

namespace CognitiveTree

variable {ε σ τ α β γ δ : Type}

/-- The state in which a program stops, whether it returned or raised. -/
def finalState : EStateM.Result ε σ α → σ
  | .ok _ s => s
  | .error _ s => s

/-- The value a program returned, if it did. -/
def returned : EStateM.Result ε σ α → Option α
  | .ok a _ => some a
  | .error _ _ => none

/-- A program whose value is known has returned it. -/
theorem exists_ok_of_returned {x : EStateM.Result ε σ α} {f : α → β} {b : β}
    (h : (returned x).map f = some b) : ∃ a s, x = .ok a s ∧ f a = b := by
  cases x with
  | ok a s => exact ⟨a, s, rfl, Option.some.inj h⟩
  | error e s => cases h

/-- A value that is known was computed. -/
theorem exists_ok_of_toOption {x : Except ε α} {f : α → β} {b : β}
    (h : x.toOption.map f = some b) : ∃ a, x = .ok a ∧ f a = b := by
  cases x with
  | error e => cases h
  | ok a => exact ⟨a, rfl, Option.some.inj h⟩

/-- A pure sequence that returned has returned from both parts. -/
theorem exists_of_bind_eq_ok {x : Except ε α} {f : α → Except ε β} {b : β}
    (h : (x >>= f) = .ok b) : ∃ a, x = .ok a ∧ f a = .ok b := by
  cases x with
  | ok a => exact ⟨a, rfl, h⟩
  | error e => cases h

/-- Once the first part has returned, the rest runs from where it stopped. -/
theorem bind_of_ok {x : EStateM ε σ α} {f : α → EStateM ε σ β} {s t : σ} {a : α}
    (h : x s = .ok a t) : (x >>= f) s = f a t := by
  change EStateM.bind x f s = f a t
  unfold EStateM.bind
  rw [h]

/-- A sequence that returned has returned from both parts. -/
theorem exists_ok_of_bind {x : EStateM ε σ α} {f : α → EStateM ε σ β} {s t : σ} {b : β}
    (h : (x >>= f) s = .ok b t) : ∃ a u, x s = .ok a u ∧ f a u = .ok b t := by
  change EStateM.bind x f s = .ok b t at h
  unfold EStateM.bind at h
  cases hx : x s with
  | ok a u =>
    rw [hx] at h
    exact ⟨a, u, rfl, h⟩
  | error e u =>
    rw [hx] at h
    cases h

/-- An exception of the first part is one of the sequence. -/
theorem bind_of_error {x : EStateM ε σ α} {f : α → EStateM ε σ β} {s t : σ} {e : ε}
    (h : x s = .error e t) : (x >>= f) s = .error e t := by
  change EStateM.bind x f s = .error e t
  unfold EStateM.bind
  rw [h]

/-- What follows a program depends on its result alone. -/
theorem bind_run_congr {x y : EStateM ε σ α} {f : α → EStateM ε σ β} {s t : σ} (h : x s = y t) :
    (x >>= f) s = (y >>= f) t := by
  change EStateM.bind x f s = EStateM.bind y f t
  unfold EStateM.bind
  rw [h]

/-- A program that begins by reading the state runs on with it. -/
theorem get_bind_run {f : σ → EStateM ε σ β} (s : σ) : (MonadState.get >>= f) s = f s s :=
  rfl

/-- Run a program for each element of a list and collect the values. -/
def forEach (f : α → EStateM ε σ β) : List α → EStateM ε σ (List β)
  | [] => pure []
  | x :: xs => do
    let y ← f x
    let ys ← forEach f xs
    pure (y :: ys)

/-- Each collected value is one that its element's program has returned. -/
theorem forall₂_of_forEach {f : α → EStateM ε σ β} {xs : List α} {ys : List β} {s t : σ}
    (h : forEach f xs s = .ok ys t) : List.Forall₂ (fun x y => ∃ u v, f x u = .ok y v) xs ys := by
  induction xs generalizing ys s with
  | nil =>
    cases h
    exact .nil
  | cons x xs ih =>
    obtain ⟨y, u, hy, hrest⟩ := exists_ok_of_bind h
    obtain ⟨zs, v, hzs, hpure⟩ := exists_ok_of_bind hrest
    cases hpure
    exact .cons ⟨s, u, hy⟩ (ih hzs)

/-- Two passes over one list collect related values when each element gives related values. -/
theorem forall₂_of_forEach_both {f : α → EStateM ε σ β} {g : α → EStateM ε σ γ} {R : β → γ → Prop}
    {xs : List α} {ys : List β} {zs : List γ} {s s' t t' : σ} (hy : forEach f xs s = .ok ys s')
    (hz : forEach g xs t = .ok zs t')
    (h : ∀ x ∈ xs, ∀ y z u u' v v', f x u = .ok y u' → g x v = .ok z v' → R y z) :
    List.Forall₂ R ys zs := by
  induction xs generalizing ys zs s t with
  | nil =>
    cases hy
    cases hz
    exact .nil
  | cons x xs ih =>
    obtain ⟨y, u, hyx, hys⟩ := exists_ok_of_bind hy
    obtain ⟨ys, u', hys, hypure⟩ := exists_ok_of_bind hys
    obtain ⟨z, v, hzx, hzs⟩ := exists_ok_of_bind hz
    obtain ⟨zs, v', hzs, hzpure⟩ := exists_ok_of_bind hzs
    cases hypure
    cases hzpure
    exact .cons (h x (List.mem_cons_self ..) _ _ _ _ _ _ hyx hzx)
      (ih hys hzs fun x hx => h x (List.mem_cons_of_mem _ hx))

/-- Every run from a state in `P` returns into `Q` or raises into `E`. -/
def Triple (P : σ → Prop) (x : EStateM ε σ α) (Q : α → σ → Prop) (E : ε → σ → Prop) : Prop :=
  ∀ s, P s → match x s with
    | .ok a s' => Q a s'
    | .error e s' => E e s'

namespace Triple

variable {P P' : σ → Prop} {Q Q' : α → σ → Prop} {E E' : ε → σ → Prop}

/-- Preconditions strengthen, both postconditions weaken. -/
theorem conseq {x : EStateM ε σ α} (h : Triple P x Q E) (hp : ∀ s, P' s → P s)
    (hq : ∀ a s, Q a s → Q' a s) (he : ∀ e s, E e s → E' e s) : Triple P' x Q' E' := by
  intro s hs
  have hx := h s (hp s hs)
  cases hr : x s with
  | ok a s' =>
    rw [hr] at hx
    exact hq a s' hx
  | error e s' =>
    rw [hr] at hx
    exact he e s' hx

/-- A stronger condition before. -/
theorem pre {x : EStateM ε σ α} (h : Triple P x Q E) (hp : ∀ s, P' s → P s) :
    Triple P' x Q E :=
  h.conseq hp (fun _ _ h => h) (fun _ _ h => h)

/-- A weaker condition after a return. -/
theorem post {x : EStateM ε σ α} (h : Triple P x Q E) (hq : ∀ a s, Q a s → Q' a s) :
    Triple P x Q' E :=
  h.conseq (fun _ h => h) hq (fun _ _ h => h)

/-- Two facts about one program hold together. -/
theorem and {x : EStateM ε σ α} (h : Triple P x Q E) (h' : Triple P' x Q' E') :
    Triple (fun s => P s ∧ P' s) x (fun a s => Q a s ∧ Q' a s) fun e s => E e s ∧ E' e s := by
  intro s hs
  have hx := h s hs.1
  have hx' := h' s hs.2
  cases hr : x s with
  | ok a s' =>
    rw [hr] at hx hx'
    exact ⟨hx, hx'⟩
  | error e s' =>
    rw [hr] at hx hx'
    exact ⟨hx, hx'⟩

/-- What holds of the final state holds after either ending, and conversely. -/
theorem iff_finalState {x : EStateM ε σ α} :
    Triple P x (fun _ => P') (fun _ => P') ↔ ∀ s, P s → P' (finalState (x s)) := by
  refine forall₂_congr fun s _ => ?_
  cases x s <;> exact Iff.rfl

/-- A pure fact of the precondition is available to the proof of the triple. -/
theorem assume {φ : Prop} {x : EStateM ε σ α} (h : φ → Triple P x Q E) :
    Triple (fun s => φ ∧ P s) x Q E :=
  fun s hs => h hs.1 s hs.2

/-- Fixing the initial state turns a triple into one about that state alone. -/
theorem of_forall {x : EStateM ε σ α} (h : ∀ s, P s → Triple (· = s) x Q E) :
    Triple P x Q E :=
  fun s hs => h s hs s rfl

/-- A value is returned in the same state. -/
theorem pure (a : α) (h : ∀ s, P s → Q a s) : Triple P (pure a : EStateM ε σ α) Q E :=
  fun s hs => h s hs

/-- An exception is raised in the same state. -/
theorem throw (e : ε) (h : ∀ s, P s → E e s) : Triple P (throw e : EStateM ε σ α) Q E :=
  fun s hs => h s hs

/-- The state is replaced. -/
theorem set {Q : PUnit → σ → Prop} (t : σ) (h : ∀ s, P s → Q ⟨⟩ t) :
    Triple P (set t : EStateM ε σ PUnit) Q E :=
  fun s hs => h s hs

/-- The state is updated. -/
theorem modify {Q : PUnit → σ → Prop} (f : σ → σ) (h : ∀ s, P s → Q ⟨⟩ (f s)) :
    Triple P (modify f : EStateM ε σ PUnit) Q E :=
  fun s hs => h s hs

/-- Sequencing: the exception postcondition is shared by both parts. -/
theorem bind {x : EStateM ε σ α} {f : α → EStateM ε σ β} {R : β → σ → Prop}
    (hx : Triple P x Q E) (hf : ∀ a, Triple (Q a) (f a) R E) : Triple P (x >>= f) R E := by
  intro s hs
  have h := hx s hs
  change match EStateM.bind x f s with
    | .ok b s' => R b s'
    | .error e s' => E e s'
  unfold EStateM.bind
  cases hr : x s with
  | ok a s' =>
    rw [hr] at h
    exact hf a s' h
  | error e s' =>
    rw [hr] at h
    exact h

/-- Reading the state turns the rest into a triple about that one state. -/
theorem get_bind {f : σ → EStateM ε σ β} {R : β → σ → Prop}
    (h : ∀ s, P s → Triple (· = s) (f s) R E) :
    Triple P (MonadState.get >>= f) R E :=
  fun s hs => h s hs s rfl

/-- A known outcome of the first part leaves the rest to be run from there. -/
theorem of_ok {x : EStateM ε σ α} {f : α → EStateM ε σ β} {R : β → σ → Prop} {s t : σ} {a : α}
    (hx : x s = .ok a t) (hf : Triple (· = t) (f a) R E) : Triple (· = s) (x >>= f) R E := by
  rintro _ rfl
  rw [bind_of_ok hx]
  exact hf t rfl

/-- Catching an exception continues from the state in which it was raised. -/
theorem tryCatch {x : EStateM ε σ α} {handler : ε → EStateM ε σ α}
    (hx : Triple P x Q E) (hh : ∀ e, Triple (E e) (handler e) Q E') :
    Triple P (tryCatch x handler) Q E' := by
  intro s hs
  have h := hx s hs
  change match EStateM.tryCatch (δ := PUnit) x handler s with
    | .ok a s' => Q a s'
    | .error e s' => E' e s'
  unfold EStateM.tryCatch
  cases hr : x s with
  | ok a s' =>
    rw [hr] at h
    exact h
  | error e s' =>
    rw [hr] at h
    exact hh e s' h

/-- A branch meets a specification when both sides do. -/
theorem ite {c : Prop} [Decidable c] {x y : EStateM ε σ α} (hx : c → Triple P x Q E)
    (hy : ¬ c → Triple P y Q E) : Triple P (if c then x else y) Q E := by
  by_cases h : c
  · rw [if_pos h]
    exact hx h
  · rw [if_neg h]
    exact hy h

end Triple

/-- Two runs from related states agree on returning or raising and end in
states related by `Q` or `E`, unless the first run reaches an escape state. -/
def RelTriple (B : σ → Prop) (R : σ → τ → Prop) (x : EStateM ε σ α) (y : EStateM ε τ β)
    (Q : α → β → σ → τ → Prop) (E : ε → ε → σ → τ → Prop) : Prop :=
  (∀ s, B s → B (finalState (x s))) ∧
  ∀ s t, R s t → B (finalState (x s)) ∨ match x s, y t with
    | .ok a s', .ok b t' => Q a b s' t'
    | .error e s', .error e' t' => E e e' s' t'
    | _, _ => False

namespace RelTriple

variable {B : σ → Prop} {R R' : σ → τ → Prop} {Q Q' : α → β → σ → τ → Prop}
  {E E' : ε → ε → σ → τ → Prop}

/-- A stronger relation before, and weaker ones after. -/
theorem conseq {x : EStateM ε σ α} {y : EStateM ε τ β} (h : RelTriple B R x y Q E)
    (hr : ∀ s t, R' s t → R s t) (hq : ∀ a b s t, Q a b s t → Q' a b s t)
    (he : ∀ e e' s t, E e e' s t → E' e e' s t) : RelTriple B R' x y Q' E' := by
  refine ⟨h.1, fun s t hst => (h.2 s t (hr s t hst)).imp_right fun hx => ?_⟩
  cases hs : x s <;> cases ht : y t <;> simp only [hs, ht] at hx ⊢
  · exact hq _ _ _ _ hx
  · exact he _ _ _ _ hx

/-- A value on each side. -/
theorem pure (a : α) (b : β) (h : ∀ s t, R s t → Q a b s t) :
    RelTriple B R (pure a : EStateM ε σ α) (pure b : EStateM ε τ β) Q E :=
  ⟨fun _ hb => hb, fun s t hst => Or.inr (h s t hst)⟩

/-- An exception on each side. -/
theorem throw (e e' : ε) (h : ∀ s t, R s t → E e e' s t) :
    RelTriple B R (throw e : EStateM ε σ α) (throw e' : EStateM ε τ β) Q E :=
  ⟨fun _ hb => hb, fun s t hst => Or.inr (h s t hst)⟩

/-- An update on each side. -/
theorem modify {Q : PUnit → PUnit → σ → τ → Prop} (f : σ → σ) (g : τ → τ)
    (hb : ∀ s, B s → B (f s)) (h : ∀ s t, R s t → Q ⟨⟩ ⟨⟩ (f s) (g t)) :
    RelTriple B R (modify f : EStateM ε σ PUnit) (modify g : EStateM ε τ PUnit) Q E :=
  ⟨hb, fun s t hst => Or.inr (h s t hst)⟩

/-- Sequencing two related runs: once the first run escapes, it stays escaped. -/
theorem bind {x : EStateM ε σ α} {y : EStateM ε τ β} {f : α → EStateM ε σ γ}
    {g : β → EStateM ε τ δ} {S : γ → δ → σ → τ → Prop} (hxy : RelTriple B R x y Q E)
    (hb : ∀ a s, B s → B (finalState (f a s)))
    (hfg : ∀ a b, RelTriple B (Q a b) (f a) (g b) S E) :
    RelTriple B R (x >>= f) (y >>= g) S E := by
  have hbind : ∀ s, B (finalState (x s)) →
      B (finalState ((x >>= f) s)) := by
    intro s hs
    change B (finalState (EStateM.bind x f s))
    unfold EStateM.bind
    cases hx : x s with
    | ok a s' =>
      rw [hx] at hs
      exact hb a s' hs
    | error e s' =>
      rw [hx] at hs
      exact hs
  refine ⟨fun s hs => hbind s (hxy.1 s hs), fun s t hst => ?_⟩
  rcases hxy.2 s t hst with hesc | h
  · exact Or.inl (hbind s hesc)
  · change B (finalState (EStateM.bind x f s)) ∨
      match EStateM.bind x f s, EStateM.bind y g t with
      | .ok a s', .ok b t' => S a b s' t'
      | .error e s', .error e' t' => E e e' s' t'
      | _, _ => False
    unfold EStateM.bind
    cases hx : x s <;> cases hy : y t <;> simp only [hx, hy] at h ⊢
    · exact (hfg _ _).2 _ _ h
    · exact Or.inr h

end RelTriple

end CognitiveTree
