import CognitiveTree.Observability.Spending
import CognitiveTree.Search.Carried
import CognitiveTree.Search.Flow

/-!
# Completions of a run

Where only the generator calls the client, and once for an expansion, an iteration makes at most one
completion. A ceiling on the completions, which is asked before every iteration, is then never
passed.
-/

namespace CognitiveTree.Observability

open Search

variable {K W α : Type} [PyFloat K]

/-- The call makes no completion. -/
def Free (calls : W → Int) (call : Call K W α) : Prop :=
  ∀ arena metadata world, calls (call arena metadata world).world = calls world

/-- One more completion, or none. -/
def OneMore (before after : Int) : Prop := before ≤ after ∧ after ≤ before + 1

/-- Only the generator makes completions, at most one for an expansion. -/
structure Thrifty (ctl : TreeSearchController K W) (rt : Runtime K W) (calls : W → Int) : Prop where
  generator : ∀ n k arena metadata world,
    OneMore (calls world) (calls (ctl.generator n k arena metadata world).world)
  evaluator : ∀ n, Free calls (ctl.evaluator n)
  critic : ∀ critic, ctl.critic = some critic → ∀ n, Free calls (critic n)
  revision : ∀ policy, ctl.revisionPolicy = some policy → ∀ n, Free calls (policy n)
  reward : ∀ model, ctl.rewardModel = some model → ∀ n base critique,
    Free calls (model n base critique)
  clock : ∀ world, calls (rt.monotonic world).2 = calls world
  cancel : ∀ isSet, rt.cancelled = some isSet → ∀ world, calls (isSet world).2 = calls world
  condition : ∀ check, ctl.stopCondition = some check → ∀ world, calls (check world).2 = calls world
  sink : ∀ sink, ctl.onEvent = some sink → ∀ event tree world,
    calls (sink event tree world).2 = calls world

section Iterations

variable {ctl : TreeSearchController K W} {rt : Runtime K W} {calls : W → Int}

/-- An iteration does not come back to where its expansion is still to be done. -/
theorem pending_of_step {c c' : Stage K × RunState K W} (hs : Step ctl rt c c')
    (hsame : c'.2.iteration = c.2.iteration) (hpending : c'.1.pending = true) :
    c.1.pending = true := by
  cases hs with
  | advance edge => cases edge <;> first | rfl | cases hpending
  | advanceRaised edge => cases edge <;> first | rfl | cases hpending
  | begin => exact absurd hsame (Nat.succ_ne_self _)
  | pollCancel | pollDeadline =>
    dsimp only at hpending
    split at hpending <;> cases hpending
  | _ => first | rfl | cases hpending

theorem Thrifty.surrounded (h : Thrifty ctl rt calls) (P : Int → Nat → Prop) :
    Surrounded ctl rt fun w i => P (calls w) i where
  clock w i hw := by rwa [h.clock w]
  cancel isSet hset w i hw := by rwa [h.cancel isSet hset w]
  condition check hcheck w i hw := by rwa [h.condition check hcheck w]
  sink sink hsink event tree w i hw := by rwa [h.sink sink hsink event tree w]

/-- A transition makes no completion. -/
theorem Thrifty.mirrored (h : Thrifty ctl rt calls) {s : RunState K W} {target : SearchPhase}
    {node : Option Nat} {detail : Str} (hcan : s.machine.canTransition target = true) :
    calls ((s.transitioned rt target node detail hcan).mirrored ctl rt target node detail).1.world =
      calls s.world :=
  (h.surrounded fun n _ => n = calls s.world).mirrored hcan rfl

/-- A step makes a completion only where it leaves the expansion behind. -/
theorem Thrifty.step (h : Thrifty ctl rt calls) {c c' : Stage K × RunState K W}
    (hs : Step ctl rt c c') : calls c'.2.world = calls c.2.world ∨
      c.1.pending = true ∧ c'.1.pending = false ∧ OneMore (calls c.2.world) (calls c'.2.world) := by
  cases hs with
  | advance edge legal => exact Or.inl (h.mirrored legal)
  | advanceRaised edge legal => exact Or.inl (h.mirrored legal)
  | pollCancel event => exact Or.inl (h.cancel _ event _)
  | pollDeadline limit => exact Or.inl (h.clock _)
  | stop condition | «continue» condition | stopRaised condition =>
    exact Or.inl (h.condition _ condition _)
  | revise _ _ _ hpolicy hreply | reviseRaised _ _ _ hpolicy hreply =>
    subst hreply
    exact Or.inl (h.revision _ hpolicy _ _ _ _)
  | generate hreply | generateRaised hreply =>
    subst hreply
    exact Or.inr ⟨rfl, rfl, h.generator _ _ _ _ _⟩
  | evaluate _ _ hreply =>
    subst hreply
    exact Or.inl (h.evaluator _ _ _ _)
  | uncritiqued hcritic _ hreply | critiqued hcritic _ hreply | critiqueRaised hcritic hreply =>
    subst hreply
    exact Or.inl (h.critic _ hcritic _ _ _ _)
  | shape hmodel hreply | shapeRaised hmodel hreply =>
    subst hreply
    exact Or.inl (h.reward _ hmodel _ _ _ _ _ _)
  | _ => exact Or.inl rfl

/-- An iteration makes at most one completion. -/
theorem Thrifty.iterate (h : Thrifty ctl rt calls) {task : Str} {draws : Nat} {u : RunState K W}
    (hreach : Reach ctl rt task draws (.boundary, u))
    (hbudget : u.iteration < ctl.config.maxIterations) :
    OneMore (calls u.world) (calls (finalState (iterate ctl rt u)).world) ∧
      (finalState (iterate ctl rt u)).iteration = u.iteration + 1 := by
  let G : Stage K → RunState K W → Prop := fun st s => Reach ctl rt task draws (st, s) ∧
    s.iteration = u.iteration + 1 ∧ OneMore (calls u.world) (calls s.world) ∧
      (st.pending = true → calls s.world = calls u.world)
  have hG : Follows ctl rt G := by
    refine ⟨fun hs => hs.1.inv, fun {st s st' s'} hs hstep hsame => ?_⟩
    obtain ⟨hr, hcount, hmore, hnone⟩ := hs
    refine ⟨hr.step hstep, hsame.trans hcount, ?_⟩
    have hback := pending_of_step hstep hsame
    rcases h.step hstep with hkept | ⟨hpending, hdone, hone⟩
    · dsimp only at hkept
      rw [hkept]
      exact ⟨hmore, fun hp => hnone (hback hp)⟩
    · dsimp only at hpending hdone hone
      rw [hnone hpending] at hone
      exact ⟨hone, fun hp => absurd (hdone.symm.trans hp) Bool.false_ne_true⟩
  let Q : RunState K W → Prop := fun s => OneMore (calls u.world) (calls s.world) ∧
    s.iteration = u.iteration + 1
  refine finalState_of_triple (Q := Q) (hG.iterate.conseq (fun _ hs => hs) (fun again s hs => ?_)
    fun e s hs => ?_) ⟨hreach.step (.begin hbudget), rfl, ⟨le_rfl, by simp⟩, fun _ => rfl⟩
  · cases again
    · exact ⟨hs.1.2.2.1, hs.1.2.1⟩
    · exact ⟨hs.2.2.1, hs.2.1⟩
  · cases e with
    | diverged => exact hs.elim
    | raised e => exact hs.elim (fun hs => ⟨hs.2.2.1, hs.2.1⟩) fun hs => ⟨hs.1.2.2.1, hs.1.2.1⟩

end Iterations

section Runs

variable {ctl : TreeSearchController K W} {rt : Runtime K W}

/-- A run makes at most one completion for each of its iterations. -/
theorem Thrifty.run {calls : W → Int} (h : Thrifty ctl rt calls) (task : Str) (draws : Nat)
    (world : W) :
    calls world ≤ calls (finalState (ctl.run rt task draws world)).world ∧
      calls (finalState (ctl.run rt task draws world)).world ≤
        calls world + (finalState (ctl.run rt task draws world)).iteration := by
  have hsurrounded := h.surrounded fun n i => calls world ≤ n ∧ n ≤ calls world + i
  refine @carries_run K W _ ctl rt _ task draws hsurrounded ?_ world ⟨le_rfl, by simp⟩
  rintro deadline s u - hreach hbudget ⟨hleast, hmost⟩
  obtain ⟨hone, hcount⟩ := h.iterate hreach hbudget
  refine ⟨hleast.trans hone.1, ?_⟩
  rw [hcount, Nat.cast_succ]
  have hlast := hone.2
  omega

/-- A run under a budget that has completions left when it starts passes no ceiling on them. -/
theorem Thrifty.ceiling {usage : W → TokenUsage} {budget : TokenBudget}
    (h : Thrifty ctl rt fun w => (usage w).calls) (hcondition : ctl.stopCondition =
      some fun world => (.ok (budget.check (usage world)), world)) {ceiling : Int}
    (hceiling : budget.maxCalls = some ceiling) {world : W}
    (hworld : (budget.spent (usage world)).calls ≤ ceiling) (task : Str) (draws : Nat) :
    (budget.spent (usage (finalState (ctl.run rt task draws world)).world)).calls ≤ ceiling := by
  simp only [TokenBudget.spent, TokenUsage.calls_sub] at hworld ⊢
  refine @carries_run K W _ ctl rt _ task draws
    (h.surrounded fun n _ => n - budget.baseline.calls ≤ ceiling) ?_ world hworld
  intro deadline s u hlimits hreach hbudget _
  have hbelow := (below_of_checkLimits hcondition hlimits).calls ceiling hceiling
  obtain ⟨hone, -⟩ := h.iterate hreach hbudget
  have hlast := hone.2
  simp only [TokenBudget.spent, TokenUsage.calls_sub] at hbelow
  unfold RunState.Bears
  omega

end Runs

end CognitiveTree.Observability
