import CognitiveTree.Observability.Budget
import CognitiveTree.Search.Laps
import CognitiveTree.Search.Outcome
import CognitiveTree.Search.PathPolicy

/-!
# Spending under a budget

The stop condition is polled at the head of the main loop, right before an iteration starts. Only
policies call the client, so what a run consumed is what its iterations consumed, and the last one
is the only one that can pass a ceiling.
-/

namespace CognitiveTree.Observability

open Search

variable {K W α : Type} [PyFloat K]

/-- A policy call makes any number of completions. -/
def Charges (usage : W → TokenUsage) (call : Call K W α) : Prop :=
  ∀ arena metadata world, Completes (usage world) (usage (call arena metadata world).world)

/-- The stop condition is the budget, and only the policies call the client. -/
structure Metered (ctl : TreeSearchController K W) (rt : Runtime K W) (usage : W → TokenUsage)
    (budget : TokenBudget) : Prop where
  condition : ctl.stopCondition = some fun world => (.ok (budget.check (usage world)), world)
  generator : ∀ n k, Charges usage (ctl.generator n k)
  evaluator : ∀ n, Charges usage (ctl.evaluator n)
  critic : ∀ critic, ctl.critic = some critic → ∀ n, Charges usage (critic n)
  revision : ∀ policy, ctl.revisionPolicy = some policy → ∀ n, Charges usage (policy n)
  reward : ∀ model, ctl.rewardModel = some model → ∀ n base critique,
    Charges usage (model n base critique)
  clock : ∀ world, usage (rt.monotonic world).2 = usage world
  cancel : ∀ isSet, rt.cancelled = some isSet → ∀ world, usage (isSet world).2 = usage world
  sink : ∀ sink, ctl.onEvent = some sink → ∀ event tree world,
    usage (sink event tree world).2 = usage world

section Kept

variable {ctl : TreeSearchController K W} {rt : Runtime K W} {usage : W → TokenUsage}
  {budget : TokenBudget}

/-- A transition leaves the tally alone. -/
theorem Metered.mirrored (h : Metered ctl rt usage budget) {s : RunState K W} {target : SearchPhase}
    {node : Option Nat} {detail : Str} (hcan : s.machine.canTransition target = true) :
    usage ((s.transitioned rt target node detail hcan).mirrored ctl rt target node detail).1.world =
      usage s.world := by
  have hclock : usage (s.transitioned rt target node detail hcan).world = usage s.world :=
    h.clock s.world
  rw [← hclock]
  generalize s.transitioned rt target node detail hcan = t
  unfold RunState.mirrored
  cases hsink : ctl.onEvent with
  | none => rfl
  | some sink =>
    have hkept := h.sink sink hsink ⟨t.iteration, target, node.map rt.freshId, detail⟩ t.tree t.world
    dsimp only
    split
    · rename_i hreply
      rw [hreply] at hkept
      exact hkept
    · rename_i hreply
      rw [hreply] at hkept
      exact hkept

/-- Every step makes any number of completions. -/
theorem Metered.step (h : Metered ctl rt usage budget) {c c' : Stage K × RunState K W}
    (hs : Step ctl rt c c') : Completes (usage c.2.world) (usage c'.2.world) := by
  have hsame : ∀ {w w' : W}, usage w' = usage w → Completes (usage w) (usage w') :=
    fun he => he ▸ Completes.refl _
  cases hs with
  | advance edge legal => exact hsame (h.mirrored legal)
  | advanceRaised edge legal => exact hsame (h.mirrored legal)
  | pollCancel event => exact hsame (h.cancel _ event _)
  | pollDeadline limit => exact hsame (h.clock _)
  | stop condition | «continue» condition | stopRaised condition =>
    cases h.condition.symm.trans condition
    exact Completes.refl _
  | revise _ _ _ hpolicy hreply | reviseRaised _ _ _ hpolicy hreply =>
    subst hreply
    exact h.revision _ hpolicy _ _ _ _
  | generate hreply | generateRaised hreply =>
    subst hreply
    exact h.generator _ _ _ _ _
  | evaluate _ _ hreply =>
    subst hreply
    exact h.evaluator _ _ _ _
  | uncritiqued hcritic _ hreply | critiqued hcritic _ hreply | critiqueRaised hcritic hreply =>
    subst hreply
    exact h.critic _ hcritic _ _ _ _
  | shape hmodel hreply | shapeRaised hmodel hreply =>
    subst hreply
    exact h.reward _ hmodel _ _ _ _ _ _
  | _ => exact Completes.refl _

/-- So do any number of steps. -/
theorem Metered.steps (h : Metered ctl rt usage budget) {c c' : Stage K × RunState K W}
    (hs : Steps ctl rt c c') : Completes (usage c.2.world) (usage c'.2.world) := by
  induction hs with
  | refl => exact Completes.refl _
  | tail _ hlast ih => exact ih.trans (h.step hlast)

/-- The tally and the iteration counter. -/
def Spent (usage : W → TokenUsage) (tally : TokenUsage) (iteration : Nat) (s : RunState K W) : Prop :=
  usage s.world = tally ∧ s.iteration = iteration

/-- The program changes neither. -/
def Idle (usage : W → TokenUsage) (x : Run K W α) : Prop :=
  ∀ s, Spent usage (usage s.world) s.iteration (finalState (x s))

/-- A value spends nothing. -/
theorem Idle.pure (a : α) : Idle usage (pure a : Run K W α) := fun _ => ⟨rfl, rfl⟩

/-- Two idle programs spend nothing. -/
theorem Idle.bind {β : Type} {x : Run K W α} {f : α → Run K W β} (hx : Idle usage x)
    (hf : ∀ a, Idle usage (f a)) : Idle usage (x >>= f) := by
  intro s
  have hfirst := hx s
  cases hr : x s with
  | ok a t =>
    rw [hr] at hfirst
    rw [bind_of_ok hr]
    exact ⟨(hf a t).1.trans hfirst.1, (hf a t).2.trans hfirst.2⟩
  | error e t =>
    rw [hr] at hfirst
    rw [bind_of_error hr]
    exact hfirst

/-- A program that reads the state first. -/
theorem Idle.get_bind {β : Type} {f : RunState K W → Run K W β} (hf : ∀ s, Spent usage
    (usage s.world) s.iteration (finalState (f s s))) : Idle usage (MonadState.get >>= f) := hf

/-- A transition spends nothing. -/
theorem Metered.advance (h : Metered ctl rt usage budget) (target : SearchPhase)
    (node : Option Nat) (detail : Str) : Idle usage (advance ctl rt target node detail) := by
  intro s
  cases hcan : s.machine.canTransition target with
  | false =>
    rw [advance_refused ctl rt node detail hcan]
    exact ⟨rfl, rfl⟩
  | true =>
    have hkept : Spent usage (usage s.world) s.iteration
        ((s.transitioned rt target node detail hcan).mirrored ctl rt target node detail).1 :=
      ⟨h.mirrored hcan, (RunState.mirrored_fields ctl rt _ target node detail).2.2.2.1⟩
    rw [advance_run ctl rt node detail hcan]
    cases ((s.transitioned rt target node detail hcan).mirrored ctl rt target node detail).2 <;>
      exact hkept

/-- Starting the clock spends nothing. -/
theorem Metered.startDeadline (h : Metered ctl rt usage budget) : Idle usage (startDeadline ctl rt) := by
  unfold Search.startDeadline
  cases ctl.config.maxWallSeconds with
  | none => exact Idle.pure _
  | some seconds => exact Idle.get_bind fun s => ⟨h.clock s.world, rfl⟩

/-- Opening a run spends nothing. -/
theorem Metered.openRun (h : Metered ctl rt usage budget) : Idle usage (openRun ctl rt) :=
  h.startDeadline.bind fun _ => (h.advance _ _ _).bind fun _ => Idle.pure _

/-- A stop condition that is a budget answers from the tally. -/
theorem stopReason_of_budget (hcondition : ctl.stopCondition =
      some fun world => (.ok (budget.check (usage world)), world)) (s : RunState K W) :
    stopReason ctl s = .ok ((budget.check (usage s.world)).filter fun text => text ≠ [])
      (s.noted (.check (.ok (budget.check (usage s.world))))) := by
  unfold stopReason
  rw [hcondition]
  rfl

/-- The stop condition is the budget's answer. -/
theorem Metered.stopReason_run (h : Metered ctl rt usage budget) (s : RunState K W) :
    stopReason ctl s = .ok ((budget.check (usage s.world)).filter fun text => text ≠ [])
      (s.noted (.check (.ok (budget.check (usage s.world))))) :=
  stopReason_of_budget h.condition s

/-- Checking the limits spends nothing. -/
theorem Metered.checkLimits (h : Metered ctl rt usage budget) (deadline : Option K) :
    Idle usage (checkLimits ctl rt deadline) := by
  have hcancel : Idle usage (cancelRequested rt) := by
    unfold cancelRequested
    cases hc : rt.cancelled with
    | none => exact Idle.pure _
    | some isSet => exact Idle.get_bind fun s => ⟨h.cancel isSet hc s.world, rfl⟩
  have hdeadline : Idle usage (deadlinePassed rt deadline) := by
    unfold deadlinePassed
    cases deadline with
    | none => exact Idle.pure _
    | some limit => exact Idle.get_bind fun s => ⟨h.clock s.world, rfl⟩
  have hstop : Idle usage (stopReason ctl) := by
    intro s
    rw [h.stopReason_run]
    exact ⟨rfl, rfl⟩
  refine Idle.bind (fun s => ⟨rfl, rfl⟩) fun _ => hcancel.bind fun cancelled => ?_
  cases cancelled with
  | true => exact Idle.pure _
  | false =>
    refine hdeadline.bind fun passed => ?_
    cases passed with
    | true => exact Idle.pure _
    | false => exact hstop.bind fun reason => Idle.pure _

/-- Where the limits let an iteration start, the consumption is below every ceiling. -/
theorem below_of_checkLimits (hcondition : ctl.stopCondition =
      some fun world => (.ok (budget.check (usage world)), world)) {deadline : Option K}
    {s u : RunState K W} (hrun : Search.checkLimits ctl rt deadline s = .ok none u) :
    budget.Below (usage u.world) := by
  obtain ⟨-, s₁, -, hrest⟩ := exists_ok_of_bind hrun
  obtain ⟨cancelled, s₂, -, hrest⟩ := exists_ok_of_bind hrest
  cases cancelled with
  | true => cases hrest
  | false =>
    obtain ⟨passed, s₃, -, hrest⟩ := exists_ok_of_bind hrest
    cases passed with
    | true => cases hrest
    | false =>
      obtain ⟨reason, s₄, hreason, hrest⟩ := exists_ok_of_bind hrest
      rw [stopReason_of_budget hcondition] at hreason
      cases reason with
      | some text => cases hrest
      | none =>
        cases hrest
        obtain ⟨hnone, rfl⟩ := EStateM.Result.ok.inj hreason
        rw [← TokenBudget.check_eq_none_iff]
        cases hcheck : budget.check (usage s₃.world) with
        | none => exact hcheck
        | some text =>
          have hblank := budget.check_ne_nil (usage s₃.world)
          rw [hcheck] at hnone hblank
          simp at hnone
          exact absurd (congrArg some hnone) hblank

/-- Where no limit is reached, the budget is not spent. -/
theorem Metered.below (h : Metered ctl rt usage budget) {deadline : Option K} {s u : RunState K W}
    (hrun : Search.checkLimits ctl rt deadline s = .ok none u) : budget.Below (usage u.world) :=
  below_of_checkLimits h.condition hrun

end Kept

section Iterations

variable (ctl : TreeSearchController K W) (rt : Runtime K W) (task : Str) (draws : Nat) (world : W)

/-- A run on `task` executes an iteration after `n` others; it starts in `u` and stops, whether it
returns or raises, in `t`. -/
def Executes (n : Nat) (u t : RunState K W) : Prop :=
  ∃ deadline s₀ s, openRun ctl rt (startState rt task draws world) = .ok deadline s₀ ∧
    laps ctl rt deadline n s₀ = .ok true s ∧ n < ctl.config.maxIterations ∧
    checkLimits ctl rt deadline s = .ok none u ∧ t = finalState (iterate ctl rt u)

/-- The tally of a state grew since the start, and is the one the last iteration left. -/
def Settled (usage : W → TokenUsage) (s : RunState K W) : Prop :=
  Completes (usage world) (usage s.world) ∧ ((s.iteration = 0 ∧ usage s.world = usage world) ∨
    ∃ n u t, s.iteration = n + 1 ∧ Executes ctl rt task draws world n u t ∧
      usage s.world = usage t.world)

variable {ctl rt task draws world} {usage : W → TokenUsage} {budget : TokenBudget}

/-- An idle program leaves a settled state settled. -/
theorem Idle.settled {x : Run K W α} (hx : Idle usage x) {s : RunState K W}
    (hs : Settled ctl rt task draws world usage s) :
    Settled ctl rt task draws world usage (finalState (x s)) := by
  obtain ⟨husage, hiteration⟩ := hx s
  unfold Settled at hs ⊢
  rw [husage, hiteration]
  exact hs

/-- What holds of a result with either ending holds of the final state. -/
theorem finalState_of_triple {P Q : RunState K W → Prop} {x : Run K W α}
    (h : Triple P x (fun _ => Q) fun _ => Q) {s : RunState K W} (hs : P s) : Q (finalState (x s)) := by
  have hend := h s hs
  cases hr : x s <;> rw [hr] at hend <;> exact hend

/-- An iteration makes any number of completions, however it ends. -/
theorem Metered.iterate (h : Metered ctl rt usage budget) {u : RunState K W}
    (hreach : Reach ctl rt task draws (.boundary, u)) (hbudget : u.iteration < ctl.config.maxIterations) :
    Completes (usage u.world) (usage (finalState (iterate ctl rt u)).world) ∧
      (finalState (iterate ctl rt u)).iteration = u.iteration + 1 := by
  let G : Stage K → RunState K W → Prop := fun st s => Reach ctl rt task draws (st, s) ∧
    Completes (usage u.world) (usage s.world) ∧ s.iteration = u.iteration + 1
  have hG : Follows ctl rt G :=
    ⟨fun hs => hs.1.inv, fun hs hstep hsame =>
      ⟨hs.1.step hstep, hs.2.1.trans (h.step hstep), hsame.trans hs.2.2⟩⟩
  let Q : RunState K W → Prop := fun s =>
    Completes (usage u.world) (usage s.world) ∧ s.iteration = u.iteration + 1
  refine finalState_of_triple (Q := Q) (hG.iterate.conseq (fun _ hs => hs) (fun again s hs => ?_)
    fun e s hs => ?_) ⟨hreach.step (.begin hbudget), Completes.refl _, rfl⟩
  · cases again
    · exact hs.1.2
    · exact hs.2
  · cases e with
    | diverged => exact hs.elim
    | raised e => exact hs.elim (fun hs => hs.2) fun hs => hs.1.2

/-- An iteration leaves the state settled. -/
theorem settled_iterate (h : Metered ctl rt usage budget) {deadline : Option K} {n : Nat}
    {s₀ s u : RunState K W}
    (hopen : openRun ctl rt (startState rt task draws world) = .ok deadline s₀)
    (hlaps : laps ctl rt deadline n s₀ = .ok true s) (hbudget : n < ctl.config.maxIterations)
    (hlimits : checkLimits ctl rt deadline s = .ok none u)
    (hreach : Reach ctl rt task draws (.boundary, u)) (hiteration : u.iteration = n)
    (hu : Settled ctl rt task draws world usage u) :
    Settled ctl rt task draws world usage (finalState (iterate ctl rt u)) := by
  subst hiteration
  obtain ⟨hgrows, hcounts⟩ := h.iterate hreach hbudget
  exact ⟨hu.1.trans hgrows, Or.inr ⟨_, u, _, hcounts,
    ⟨deadline, s₀, s, hopen, hlaps, hbudget, hlimits, rfl⟩, rfl⟩⟩

/-- A lap of the main loop leaves the state settled. -/
theorem settled_lap (h : Metered ctl rt usage budget) {deadline : Option K}
    (hseconds : deadline ≠ none → ctl.config.maxWallSeconds ≠ none) {n : Nat} {s₀ s : RunState K W}
    (hopen : openRun ctl rt (startState rt task draws world) = .ok deadline s₀)
    (hlaps : laps ctl rt deadline n s₀ = .ok true s) (hbudget : n < ctl.config.maxIterations)
    (hreach : Reach ctl rt task draws (.boundary, s)) (hiteration : s.iteration = n)
    (hs : Settled ctl rt task draws world usage s) :
    Settled ctl rt task draws world usage (finalState (lap ctl rt deadline s)) := by
  have hlimits := ((Reach.follows ctl rt task draws n).checkLimits deadline hseconds) s
    ⟨hreach, hiteration⟩
  have hkept := (h.checkLimits deadline).settled hs
  unfold lap
  cases hr : checkLimits ctl rt deadline s with
  | error e u =>
    rw [hr] at hkept
    rw [bind_of_error hr]
    exact hkept
  | ok limit u =>
    rw [hr] at hlimits hkept
    rw [bind_of_ok hr]
    cases limit with
    | none => exact settled_iterate h hopen hlaps hbudget hr hlimits.1 hlimits.2 hkept
    | some limit =>
      have hhalt : Idle usage (haltOrIterate ctl rt (some limit)) :=
        (h.advance _ _ _).bind fun _ => Idle.pure _
      exact hhalt.settled hkept

/-- The rest of the main loop leaves the state settled. -/
theorem settled_searchLoop (h : Metered ctl rt usage budget) {deadline : Option K}
    (hseconds : deadline ≠ none → ctl.config.maxWallSeconds ≠ none) {remaining n : Nat}
    {s₀ s : RunState K W}
    (hopen : openRun ctl rt (startState rt task draws world) = .ok deadline s₀)
    (hlaps : laps ctl rt deadline n s₀ = .ok true s)
    (hbudget : n + remaining = ctl.config.maxIterations)
    (hreach : Reach ctl rt task draws (.boundary, s)) (hiteration : s.iteration = n)
    (hs : Settled ctl rt task draws world usage s) :
    Settled ctl rt task draws world usage (finalState (searchLoop ctl rt deadline remaining s)) := by
  induction remaining generalizing n s with
  | zero =>
    have hmark : Idle usage (markBoundary (K := K) (W := W)) := fun s => ⟨rfl, rfl⟩
    exact hmark.settled hs
  | succ remaining ih =>
    have hspec := @lap_spec K W _ ctl rt task draws deadline hseconds n s
      ⟨hreach, hiteration, by omega⟩
    have hlap := settled_lap h hseconds hopen hlaps (by omega) hreach hiteration hs
    rw [searchLoop_succ]
    cases hr : lap ctl rt deadline s with
    | error e t =>
      rw [hr] at hlap
      rw [bind_of_error hr]
      exact hlap
    | ok again t =>
      rw [hr] at hlap hspec
      rw [bind_of_ok hr]
      cases again with
      | false => exact hlap
      | true =>
        obtain ⟨hnext, hcount⟩ := hspec.1 rfl
        exact ih (laps_succ_of_ok hlaps hr) (by omega) hnext hcount hlap

/-- A program after a settled one that changes neither the tally nor the counter. -/
theorem settled_bind {β : Type} {x : Run K W α} {f : α → Run K W β} {s : RunState K W}
    (hx : Settled ctl rt task draws world usage (finalState (x s))) (hf : ∀ a, Idle usage (f a)) :
    Settled ctl rt task draws world usage (finalState ((x >>= f) s)) := by
  cases hr : x s with
  | error e t =>
    rw [hr] at hx
    rw [bind_of_error hr]
    exact hx
  | ok a t =>
    rw [hr] at hx
    rw [bind_of_ok hr]
    exact (hf a).settled hx

/-- The part of a run from its main loop on leaves the state settled. -/
theorem settled_driveRun (h : Metered ctl rt usage budget) {deadline : Option K}
    {s₀ : RunState K W} (hopen : openRun ctl rt (startState rt task draws world) = .ok deadline s₀)
    (hs : Settled ctl rt task draws world usage s₀) :
    Settled ctl rt task draws world usage (finalState (driveRun ctl rt deadline s₀)) := by
  have hspec := @openRun_spec K W _ ctl rt task draws _ ⟨world, rfl⟩
  rw [hopen] at hspec
  obtain ⟨hseconds, hreach, hzero⟩ := hspec
  have hclose : Idle usage (closeBudget ctl rt) := by
    refine Idle.get_bind fun s => ?_
    split
    · exact ⟨rfl, rfl⟩
    · exact h.advance _ _ _ s
  have hfault : ∀ e, Idle usage (onFault ctl rt e) := by
    intro e
    cases e with
    | diverged => exact fun s => ⟨rfl, rfl⟩
    | raised e => exact (h.advance _ _ _).bind fun _ => Idle.pure _
  have hloop := settled_searchLoop h hseconds (n := 0) hopen rfl (Nat.zero_add _) hreach hzero hs
  cases hr : searchLoop ctl rt deadline ctl.config.maxIterations s₀ with
  | ok _ t =>
    rw [hr] at hloop
    rw [driveRun_of_ok hr]
    exact (hclose.bind fun _ => Idle.pure _).settled hloop
  | error e t =>
    rw [hr] at hloop
    rw [driveRun_of_error hr]
    exact ((hfault e).bind fun _ => hclose.bind fun _ => Idle.pure _).settled hloop

/-- A run ends settled. -/
theorem settled_run (h : Metered ctl rt usage budget) :
    Settled ctl rt task draws world usage (finalState (ctl.run rt task draws world)) := by
  have hassemble : ∀ error, Idle usage (assemble (K := K) (W := W) error) := by
    refine fun error => Idle.get_bind fun s => ?_
    cases outcomeByPhase s.machine.phase <;> exact ⟨rfl, rfl⟩
  have hstart : Settled ctl rt task draws world usage (startState rt task draws world) :=
    ⟨Completes.refl _, Or.inl ⟨rfl, rfl⟩⟩
  have hopened := h.openRun.settled hstart
  rw [run_eq_parts]
  refine settled_bind ?_ hassemble
  cases hr : openRun ctl rt (startState rt task draws world) with
  | error e t =>
    rw [hr] at hopened
    rw [bind_of_error hr]
    exact hopened
  | ok deadline s₀ =>
    rw [hr] at hopened
    rw [bind_of_ok hr]
    exact settled_driveRun h hr hopened

end Iterations

section Notes

variable {ctl : TreeSearchController K W} {rt : Runtime K W} {usage : W → TokenUsage}
  {budget : TokenBudget}

/-- Where the run halts for its budget, the note is the reason the budget gives. -/
def Explained (budget : TokenBudget) (usage : W → TokenUsage) : Stage K × RunState K W → Prop
  | (.halting .budgetExhausted note, s) => budget.check (usage s.world) = some note
  | (.ended, s) => s.machine.phase = .budgetExhausted →
    ∃ last, s.machine.history.getLast? = some last ∧ budget.check (usage s.world) = some last.note
  | _ => True

/-- A transition into the end of a run keeps the reason. -/
theorem Metered.explained_edge (h : Metered ctl rt usage budget) {s : RunState K W} {st st' : Stage K}
    {target : SearchPhase} {node : Option Nat} {detail : Str}
    (edge : Edge ctl s st target node detail st') (legal : s.machine.canTransition target = true)
    (hs : Explained budget usage (st, s)) : Explained budget usage (st',
      ((s.transitioned rt target node detail legal).mirrored ctl rt target node detail).1) := by
  have husage := @Metered.mirrored K W _ ctl rt usage budget h s target node detail legal
  have hmachine := (RunState.mirrored_fields ctl rt (s.transitioned rt target node detail legal)
    target node detail).2.1
  generalize ((s.transitioned rt target node detail legal).mirrored ctl rt target node
    detail).1 = t at husage hmachine
  have hphase : t.machine.phase = target := congrArg SearchStateMachine.phase hmachine
  cases edge with
  | halt target note =>
    intro hended
    rw [hphase] at hended
    subst hended
    refine ⟨_, (congrArg (·.history.getLast?) hmachine).trans List.getLast?_concat, ?_⟩
    rw [husage]
    exact hs
  | spent | frontierEmpty | accepted | failed =>
    intro hended
    rw [hphase] at hended
    cases hended
  | _ => trivial

/-- A run whose note is `BUDGET_EXHAUSTED` explains it. -/
theorem Metered.explained (h : Metered ctl rt usage budget) {task : Str} {draws : Nat}
    {c : Stage K × RunState K W} (hc : Reach ctl rt task draws c) : Explained budget usage c := by
  refine hc.invariant (P := Explained budget usage) (fun world => trivial) fun c c' hP hs => ?_
  cases hs with
  | advance edge legal => exact h.explained_edge edge legal hP
  | @advanceRaised s st st' target node detail e edge legal =>
    have hedge := h.explained_edge edge legal hP
    cases st' <;> first | exact hedge | trivial
  | refuse => exact hP
  | pollCancel | pollDeadline | revise => split <;> trivial
  | stop condition answer =>
    cases h.condition.symm.trans condition
    exact Except.ok.inj answer
  | _ => trivial

end Notes

section Budgets

variable {ctl : TreeSearchController K W} {rt : Runtime K W} {usage : W → TokenUsage}
  {budget : TokenBudget}

/-- The final tally passes each ceiling by less than what was consumed since `started`. -/
structure Overshoots (budget : TokenBudget) (started final : TokenUsage) : Prop where
  tokens : ∀ ceiling, budget.maxTotalTokens = some ceiling →
    (budget.spent final).totalTokens - ceiling < (final - started).totalTokens
  calls : ∀ ceiling, budget.maxCalls = some ceiling →
    (budget.spent final).calls - ceiling < (final - started).calls

/-- What started below the ceilings passes them by less than what was consumed since. -/
theorem TokenBudget.Below.overshoots {started : TokenUsage} (h : budget.Below started)
    (final : TokenUsage) : Overshoots budget started final := by
  constructor
  · intro ceiling hceiling
    have hlt := h.tokens ceiling hceiling
    simp only [TokenBudget.spent, TokenUsage.totalTokens_sub] at hlt ⊢
    omega
  · intro ceiling hceiling
    have hlt := h.calls ceiling hceiling
    simp only [TokenBudget.spent, TokenUsage.calls_sub] at hlt ⊢
    omega

/-- What a budget guarantees about a run that starts in `world`. -/
structure WithinBudget (ctl : TreeSearchController K W) (rt : Runtime K W) (usage : W → TokenUsage)
    (budget : TokenBudget) (task : Str) (draws : Nat) (world : W) : Prop where
  /-- every iteration starts below every ceiling -/
  started : ∀ n u t, Executes ctl rt task draws world n u t → budget.Below (usage u.world)
  /-- a reason stays one after any further completions -/
  latched : ∀ before after, Completes before after → (budget.check before).isSome = true →
    (budget.check after).isSome = true
  /-- and a run makes nothing but completions, from each of its states to each later one -/
  grows : (∀ c c', Steps ctl rt c c' → Completes (usage c.2.world) (usage c'.2.world)) ∧
    Completes (usage world) (usage (finalState (ctl.run rt task draws world)).world)
  /-- a run without an iteration consumes nothing -/
  unspent : (finalState (ctl.run rt task draws world)).iteration = 0 →
    usage (finalState (ctl.run rt task draws world)).world = usage world
  /-- another passes a ceiling by less than its last iteration consumed -/
  overshoot : ∀ n, (finalState (ctl.run rt task draws world)).iteration = n + 1 →
    ∃ u t, Executes ctl rt task draws world n u t ∧
      usage (finalState (ctl.run rt task draws world)).world = usage t.world ∧
      Overshoots budget (usage u.world) (usage t.world)
  /-- the note names a ceiling that is reached -/
  note : ∀ r s, ctl.run rt task draws world = .ok r s → r.outcome = .budgetExhausted →
    ∃ last, r.phaseHistory.getLast? = some last ∧ last.target = .budgetExhausted ∧
      budget.Names (usage s.world) last.note

/-- Every run under a token budget stays within it, but for its last iteration. -/
theorem run_within_budget (ctl : TreeSearchController K W) (rt : Runtime K W)
    (usage : W → TokenUsage) (budget : TokenBudget) (hmetered : Metered ctl rt usage budget)
    (task : Str) (draws : Nat) (world : W) :
    WithinBudget ctl rt usage budget task draws world := by
  have hstarted : ∀ n u t, Executes ctl rt task draws world n u t →
      budget.Below (usage u.world) := by
    rintro n u t ⟨deadline, s₀, s, -, -, -, hlimits, -⟩
    exact hmetered.below hlimits
  obtain ⟨hgrows, hsettled⟩ := @settled_run K W _ ctl rt task draws world usage budget hmetered
  refine ⟨hstarted, fun _ _ h => h.check_isSome, ⟨fun c c' => hmetered.steps, hgrows⟩, ?_, ?_, ?_⟩
  · intro hzero
    rcases hsettled with ⟨-, hsame⟩ | ⟨n, u, t, hn, -⟩
    · exact hsame
    · omega
  · intro n hn
    rcases hsettled with ⟨hzero, -⟩ | ⟨m, u, t, hm, hexecutes, hfinal⟩
    · omega
    · obtain rfl : m = n := by omega
      exact ⟨u, t, hexecutes, hfinal, (hstarted m u t hexecutes).overshoots _⟩
  · intro r s hrun houtcome
    have hreport := run_spec ctl rt task draws world
    rw [hrun] at hreport
    have hphase := hreport.outcome
    rw [houtcome] at hphase
    have hexhausted : s.machine.phase = .budgetExhausted := by
      cases hp : s.machine.phase <;> rw [hp] at hphase <;> first | rfl | cases hphase
    obtain ⟨last, hlast, hcheck⟩ := hmetered.explained hreport.reach hexhausted
    have htarget := s.machine.chained.last
    rw [hlast] at htarget
    exact ⟨last, hreport.phaseHistory ▸ hlast, htarget.trans hexhausted,
      TokenBudget.names_of_check hcheck⟩

/-- A budget of five tokens. -/
def fiveTokens : TokenBudget where
  maxTotalTokens := some 5
  maxCalls := none
  baseline := ⟨0, 0, 0⟩
  tokensPositive ceiling h := by
    cases h
    decide
  callsPositive ceiling h := by cases h

/-- A controller whose generator makes one completion of three tokens, under that budget. -/
def meteredController : TreeSearchController ℚ TokenUsage :=
  { pathController smallConfig (fun _ => []) (fun _ => halfway) with
    generator := fun _ _ _ metadata world =>
      ⟨.ok [lit "go on"], metadata, Llm.account world ⟨lit "go on", lit "model", 2, 1⟩⟩
    stopCondition := some fun world => (.ok (fiveTokens.check world), world) }

/-- The same for a small run. -/
theorem run_within_budget_small : WithinBudget meteredController (Runtime.still fun _ _ => 0) id
    fiveTokens (lit "task") 0 ⟨0, 0, 0⟩ := by
  refine run_within_budget meteredController (Runtime.still fun _ _ => 0) id fiveTokens
    ⟨rfl, fun n k arena metadata world => ?_, fun n arena metadata world => Completes.refl _, ?_, ?_,
      ?_, fun world => rfl, ?_, ?_⟩ (lit "task") 0 ⟨0, 0, 0⟩
  · exact ⟨[⟨lit "go on", lit "model", 2, 1⟩], by simp, rfl⟩
  · intro critic hcritic
    cases hcritic
  · intro policy hpolicy
    cases hpolicy
  · intro model hmodel
    cases hmodel
  · intro isSet hset
    cases hset
  · intro sink hsink
    cases hsink

end Budgets

end CognitiveTree.Observability
