import CognitiveTree.Search.Outcome
import CognitiveTree.Search.TwinIteration

/-!
# Whole runs in lockstep

Controllers whose evaluators and worker schedules agree collect the same verdicts. When
the limits of two runs agree as well, the runs stay twins to the end, and an exception
ends both of them.
-/

namespace CognitiveTree.Search

open Arena

variable {K W W' : Type} [PyFloat K] {R : W → W' → Prop} {offset : Nat} {watched : Prop}
  {ctl : TreeSearchController K W} {ctl' : TreeSearchController K W'} {rt : Runtime K W}
  {rt' : Runtime K W'} {F : RunState K W → RunState K W' → Prop}

section Verdicts

/-- The evaluators cannot be told apart and the workers are scheduled alike. -/
structure SameWorkers (R : W → W' → Prop) (ctl : TreeSearchController K W)
    (ctl' : TreeSearchController K W') (rt : Runtime K W) (rt' : Runtime K W') : Prop where
  evaluator : ∀ n, CallsAgree R (ctl.evaluator n) (ctl'.evaluator n)
  workers : ctl'.config.evaluationWorkers = ctl.config.evaluationWorkers
  schedule : ∀ arena batch w w', R w w' → rt'.schedule arena batch w' = rt.schedule arena batch w

namespace SameWorkers

variable (h : SameWorkers R ctl ctl' rt rt')

include h

/-- Both runs ask for the same verdicts. -/
theorem evaluateAll (batch : List Nat)
    (hF : ∀ s t, Twins R SameMetadata offset watched rt rt' s t → F s t) :
    Lockstep (Astray offset ctl ctl' rt rt') (Twins R SameMetadata offset watched rt rt')
      (evaluateAll ctl batch) (evaluateAll ctl' batch)
      (fun _ => Twins R SameMetadata offset watched rt rt') fun _ => F := by
  induction batch with
  | nil => exact Lockstep.pure _ fun _ _ h => h
  | cons c cs ih =>
    exact Lockstep.bind ((Agreeing.consult (φ := fun _ => True) (h.evaluator c) (.evaluate c) hF).pre
      fun _ _ h => ⟨h, trivial⟩) fun v =>
      Lockstep.bind (ih.pre fun _ _ h => h.1) fun vs => Lockstep.pure _ fun _ _ h => h

/-- Both pools complete the same candidate. -/
theorem complete (p : Pool K) (c : Nat) :
    Lockstep (Astray offset ctl ctl' rt rt') (Twins R SameMetadata offset watched rt rt')
      (p.complete ctl c) (p.complete ctl' c)
      (fun _ => Twins R SameMetadata offset watched rt rt') fun _ => F :=
  Lockstep.bind ((Agreeing.attempt (φ := fun _ => True) (h.evaluator c) (.evaluate c)).pre
    fun _ _ h => ⟨h, trivial⟩) fun _ => Lockstep.pure _ fun _ _ h => h.1

/-- Both pools take the same event. -/
theorem poolStep (workers : Nat) (batch : List Nat) (p : Pool K) (event : PoolEvent) :
    Lockstep (Astray offset ctl ctl' rt rt') (Twins R SameMetadata offset watched rt rt')
      (p.step ctl workers batch event) (p.step ctl' workers batch event)
      (fun _ => Twins R SameMetadata offset watched rt rt') fun _ => F := by
  cases event with
  | start =>
    dsimp only [Pool.step]
    cases p.queue with
    | nil => exact Lockstep.pure _ fun _ _ h => h
    | cons c queue =>
      exact Lockstep.ite (fun _ => Lockstep.pure _ fun _ _ h => h) fun _ =>
        Lockstep.pure _ fun _ _ h => h
  | finish i =>
    dsimp only [Pool.step]
    cases p.running[i]? with
    | none => exact Lockstep.pure _ fun _ _ h => h
    | some c => exact h.complete p c
  | cancel =>
    exact Lockstep.ite (fun _ => Lockstep.pure _ fun _ _ h => h) fun _ =>
      Lockstep.pure _ fun _ _ h => h

/-- Both pools follow the same events. -/
theorem follow (workers : Nat) (batch : List Nat) (events : List PoolEvent) (p : Pool K) :
    Lockstep (Astray offset ctl ctl' rt rt') (Twins R SameMetadata offset watched rt rt')
      (Pool.follow ctl workers batch events p) (Pool.follow ctl' workers batch events p)
      (fun _ => Twins R SameMetadata offset watched rt rt') fun _ => F := by
  induction events generalizing p with
  | nil => exact Lockstep.pure _ fun _ _ h => h
  | cons event events ih => exact Lockstep.bind (h.poolStep workers batch p event) fun q => ih q

/-- Both pools run what is left. -/
theorem shutdown (left : List Nat) (p : Pool K) :
    Lockstep (Astray offset ctl ctl' rt rt') (Twins R SameMetadata offset watched rt rt')
      (Pool.shutdown ctl left p) (Pool.shutdown ctl' left p)
      (fun _ => Twins R SameMetadata offset watched rt rt') fun _ => F := by
  induction left generalizing p with
  | nil => exact Lockstep.pure _ fun _ _ h => h
  | cons c cs ih => exact Lockstep.bind (h.complete p c) fun q => ih q

omit h in
/-- The same answer on both sides. -/
theorem answered {α : Type} (answer : Except Exc α)
    (hF : ∀ s t, Twins R SameMetadata offset watched rt rt' s t → F s t) :
    Lockstep (Astray offset ctl ctl' rt rt') (Twins R SameMetadata offset watched rt rt')
      (answered answer) (answered answer)
      (fun _ => Twins R SameMetadata offset watched rt rt') fun _ => F := by
  cases answer with
  | ok a => exact Lockstep.pure _ fun _ _ h => h
  | error e => exact Lockstep.throw _ hF

/-- `_collect_verdicts` collects the same. -/
theorem collectVerdicts (n : Nat) (batch : List Nat)
    (hF : ∀ s t, Twins R SameMetadata offset watched rt rt' s t → F s t) :
    Lockstep (Astray offset ctl ctl' rt rt') (TwinsOn R offset watched rt rt' (Agreeing.Batch n batch))
      (collectVerdicts ctl rt batch) (collectVerdicts ctl' rt' batch)
      (fun _ => Twins R SameMetadata offset watched rt rt') fun _ => F := by
  unfold Search.collectVerdicts
  rw [h.workers]
  refine Lockstep.ite (fun _ => (h.evaluateAll batch hF).pre fun _ _ h => h.1) fun _ => ?_
  have hrest : ∀ workers events, Lockstep (Astray offset ctl ctl' rt rt')
      (Twins R SameMetadata offset watched rt rt')
      (do
        let p ← Pool.follow ctl workers batch events ⟨batch, [], []⟩
        let left := p.running ++ p.queue
        let p ← Pool.shutdown ctl left { p with queue := [], running := left }
        Search.answered (p.gather batch))
      (do
        let p ← Pool.follow ctl' workers batch events ⟨batch, [], []⟩
        let left := p.running ++ p.queue
        let p ← Pool.shutdown ctl' left { p with queue := [], running := left }
        Search.answered (p.gather batch))
      (fun _ => Twins R SameMetadata offset watched rt rt') fun _ => F := fun workers events =>
    Lockstep.bind (h.follow workers batch events _) fun p =>
      Lockstep.bind (h.shutdown _ _) fun q => answered (q.gather batch) hF
  refine Lockstep.get_bind (fun s hs => (hrest _ _).keeps s hs) fun s t hst => ?_
  rw [hst.1.arena, h.schedule _ _ _ _ hst.1.world]
  refine (hrest _ _).pre ?_
  rintro _ _ ⟨rfl, rfl⟩
  exact hst.1

end SameWorkers

end Verdicts

section Runs

/-- The result is assembled from the state, when the phase has an outcome. -/
theorem assemble_run (error : Str) (s : RunState K W) : assemble error s =
    ((outcomeByPhase s.machine.phase).elim (raise ⟨lit "KeyError", s.machine.phase.value⟩)
      fun outcome => pure (s.report outcome error) : Run K W (SearchResult K)) s :=
  rfl

/-- Results that agree in everything but identifiers, times and metadata. -/
structure SameResult (r r' : SearchResult K) : Prop where
  outcome : r'.outcome = r.outcome
  error : r'.error = r.error
  iterations : r'.iterations = r.iterations
  bestPath : r'.bestPath = r.bestPath
  history : r'.phaseHistory.map PhaseTransition.untimed = r.phaseHistory.map PhaseTransition.untimed
  arena : r'.tree.arena = r.tree.arena

variable {M : Footprint K → Footprint K → Prop}

/-- A run that is astray stays so when its result is assembled. -/
theorem keeps_assemble (error : Str) :
    Keeps (Astray offset ctl ctl' rt rt') (assemble error : Run K W (SearchResult K)) := by
  intro s hs
  rw [assemble_run]
  cases outcomeByPhase s.machine.phase <;> exact hs

/-- Both runs assemble the same result. -/
theorem assemble_twins (error : Str) :
    RelTriple (Astray offset ctl ctl' rt rt') (Twins R M offset watched rt rt')
      (assemble error) (assemble error)
      (fun r r' s t => SameResult r r' ∧ Twins R M offset watched rt rt' s t)
      fun e e' _ _ => e = e' := by
  refine ⟨keeps_assemble error, fun s t h => Or.inr ?_⟩
  rw [assemble_run, assemble_run, h.phase]
  cases outcomeByPhase s.machine.phase with
  | none => exact rfl
  | some outcome =>
    refine ⟨⟨rfl, rfl, h.iteration, ?_, h.history, h.arena⟩, h⟩
    change t.tree.arena.bestPath = s.tree.arena.bestPath
    rw [h.arena]

/-- Programs that end in twin states lead to the same result. -/
theorem assembled {S : RunState K W → RunState K W' → Prop} {x : Run K W Str} {y : Run K W' Str}
    (h : Lockstep (Astray offset ctl ctl' rt rt') S x y (fun _ => Twins R M offset watched rt rt')
      fun _ => Twins R M offset watched rt rt') :
    RelTriple (Astray offset ctl ctl' rt rt') S (x >>= assemble) (y >>= assemble)
      (fun r r' s t => SameResult r r' ∧ Twins R M offset watched rt rt' s t)
      fun e e' _ _ => e = e' := by
  refine RelTriple.bind (h.conseq (fun _ _ h => h) (fun _ _ _ _ h => h) fun _ _ _ _ h => h.1)
    keeps_assemble fun error error' => ⟨keeps_assemble error, ?_⟩
  rintro s t ⟨rfl, hst⟩
  exact (assemble_twins error).2 s t hst

section Exit

variable (hA : Agreeing R ctl ctl' rt rt')

include hA

/-- The handlers report the same exception. -/
theorem Agreeing.onFault (e : Signal) :
    Lockstep (Astray offset ctl ctl' rt rt') (Twins R M offset watched rt rt')
      (onFault ctl rt e) (onFault ctl' rt' e) (fun _ => Twins R M offset watched rt rt')
      fun _ => Twins R M offset watched rt rt' := by
  cases e with
  | diverged => exact Lockstep.throw _ fun _ _ h => h
  | raised e =>
    exact Lockstep.bind ((hA.advance (φ := fun _ => True) _ _ _ fun _ _ h => h).pre
      fun _ _ h => ⟨h, trivial⟩) fun _ => Lockstep.pure _ fun _ _ h => h.1

/-- A spent budget is closed on both sides. -/
theorem Agreeing.closeBudget :
    Lockstep (Astray offset ctl ctl' rt rt') (Twins R M offset watched rt rt')
      (closeBudget ctl rt) (closeBudget ctl' rt') (fun _ => Twins R M offset watched rt rt')
      fun _ => Twins R M offset watched rt rt' := by
  have hend : Lockstep (Astray offset ctl ctl' rt rt') (Twins R M offset watched rt rt')
      (Search.advance ctl rt .exhausted none (lit "iteration budget spent"))
      (Search.advance ctl' rt' .exhausted none (lit "iteration budget spent"))
      (fun _ => Twins R M offset watched rt rt') fun _ => Twins R M offset watched rt rt' :=
    ((hA.advance (φ := fun _ => True) _ _ _ fun _ _ h => h).pre fun _ _ h => ⟨h, trivial⟩).post
      fun _ _ _ h => h.1
  refine Lockstep.get_bind (fun s hs => Keeps.ite (Keeps.pure _) hend.keeps s hs) fun s t hst => ?_
  rw [show t.machine.isTerminal = s.machine.isTerminal from
    congrArg SearchPhase.isTerminal hst.phase]
  refine Lockstep.ite (fun _ => Lockstep.pure _ ?_) fun _ => hend.pre ?_ <;>
    rintro _ _ ⟨rfl, rfl⟩ <;> exact hst

end Exit

/-- One poll of a stop condition, kept as a value. -/
def poll (check : W → Except Exc (Option Str) × W) : Run K W (Except Exc (Option Str)) := do
  let s ← get
  set ((s.inWorld (check s.world).2).noted (.check (check s.world).1))
  pure (check s.world).1

/-- What the loop makes of the answer. -/
def reasonOf (answer : Except Exc (Option Str)) : Run K W (Option Str) := do
  let reason ← answered answer
  pure (reason.filter fun text => text ≠ [])

/-- The stop condition is polled, and its answer read. -/
theorem stopReason_eq {check : W → Except Exc (Option Str) × W}
    (h : ctl.stopCondition = some check) : stopReason ctl = poll check >>= reasonOf := by
  unfold stopReason
  rw [h]
  rfl

/-- The limits of two runs say the same at the same time. -/
structure Synchronous (R : W → W' → Prop) (ctl : TreeSearchController K W)
    (ctl' : TreeSearchController K W') (rt : Runtime K W) (rt' : Runtime K W') : Prop where
  maxIterations : ctl'.config.maxIterations = ctl.config.maxIterations
  maxWallSeconds : ctl'.config.maxWallSeconds = ctl.config.maxWallSeconds
  reading : ∀ w w', R w w' → (rt'.monotonic w').1 = (rt.monotonic w).1
  cancelled : Option.Rel (fun f f' => ∀ w w', R w w' → (f' w').1 = (f w).1 ∧ R (f w).2 (f' w').2)
    rt.cancelled rt'.cancelled
  stopCondition : Option.Rel (fun f f' => ∀ w w', R w w' → (f' w').1 = (f w).1 ∧
    R (f w).2 (f' w').2) ctl.stopCondition ctl'.stopCondition

namespace Synchronous

variable (h : Synchronous R ctl ctl' rt rt') (hA : Agreeing R ctl ctl' rt rt')

include h

/-- Both runs are cancelled or not. -/
theorem cancelRequested :
    Lockstep (Astray offset ctl ctl' rt rt') (Twins R M offset watched rt rt')
      (cancelRequested rt) (cancelRequested rt') (fun _ => Twins R M offset watched rt rt')
      fun _ => F := by
  have hc := h.cancelled
  unfold Search.cancelRequested
  generalize rt.cancelled = c at hc
  generalize rt'.cancelled = c' at hc
  cases hc with
  | none => exact Lockstep.pure _ fun _ _ h => h
  | some hc =>
    refine ⟨fun s hs => hs, fun s t hst => Or.inr ?_⟩
    obtain ⟨hanswer, hworld⟩ := hc _ _ hst.world
    exact ⟨hanswer.symm, hst.inWorld hworld⟩

include hA

/-- Both runs are past their deadline or not. -/
theorem deadlinePassed (deadline : Option K) :
    Lockstep (Astray offset ctl ctl' rt rt') (Twins R M offset watched rt rt')
      (deadlinePassed rt deadline) (deadlinePassed rt' deadline)
      (fun _ => Twins R M offset watched rt rt') fun _ => F := by
  cases deadline with
  | none => exact Lockstep.pure _ fun _ _ h => h
  | some limit =>
    refine ⟨fun s hs => hs, fun s t hst => Or.inr ⟨?_, hst.inWorld (hA.clock _ _ hst.world)⟩⟩
    rw [h.reading _ _ hst.world]

/-- Both runs have the same deadline. -/
theorem startDeadline :
    Lockstep (Astray offset ctl ctl' rt rt') (Twins R M offset watched rt rt')
      (startDeadline ctl rt) (startDeadline ctl' rt') (fun _ => Twins R M offset watched rt rt')
      fun _ => F := by
  unfold Search.startDeadline
  rw [h.maxWallSeconds]
  cases ctl.config.maxWallSeconds with
  | none => exact Lockstep.pure _ fun _ _ h => h
  | some seconds =>
    refine ⟨fun s hs => hs, fun s t hst => Or.inr ⟨?_, hst.inWorld (hA.clock _ _ hst.world)⟩⟩
    rw [h.reading _ _ hst.world]

omit hA in
/-- Both runs have the same reason to stop. -/
theorem stopReason (hF : ∀ s t, Twins R SameMetadata offset watched rt rt' s t → F s t) :
    Lockstep (Astray offset ctl ctl' rt rt') (Twins R SameMetadata offset watched rt rt')
      (stopReason ctl) (stopReason ctl') (fun _ => Twins R SameMetadata offset watched rt rt')
      fun _ => F := by
  have hreason : ∀ answer : Except Exc (Option Str), Lockstep (Astray offset ctl ctl' rt rt')
      (Twins R SameMetadata offset watched rt rt') (reasonOf answer) (reasonOf answer)
      (fun _ => Twins R SameMetadata offset watched rt rt') fun _ => F := fun answer =>
    Lockstep.bind (SameWorkers.answered answer hF) fun _ => Lockstep.pure _ fun _ _ h => h
  have hc := h.stopCondition
  cases hs : ctl.stopCondition <;> cases hs' : ctl'.stopCondition <;> rw [hs, hs'] at hc
  · unfold Search.stopReason
    rw [hs, hs']
    exact Lockstep.pure _ fun _ _ h => h
  · cases hc
  · cases hc
  · cases hc with
    | some hc =>
      rw [stopReason_eq hs, stopReason_eq hs']
      refine Lockstep.bind (Q := fun _ => Twins R SameMetadata offset watched rt rt') ?_ hreason
      refine ⟨fun s hs => Strays.cons hs _, fun s t hst => Or.inr ?_⟩
      obtain ⟨hanswer, hworld⟩ := hc _ _ hst.world
      exact ⟨hanswer.symm, (hst.inWorld hworld).noted rfl rfl⟩

variable (hcollect : ∀ n batch, Lockstep (Astray offset ctl ctl' rt rt')
    (TwinsOn R offset watched rt rt' (Agreeing.Batch n batch)) (collectVerdicts ctl rt batch)
    (collectVerdicts ctl' rt' batch) (fun _ => Twins R SameMetadata offset watched rt rt')
    fun _ => Twins R M offset watched rt rt')
  (hM : ∀ f f', SameMetadata f f' → M f f')

include hM in
omit h hA in
/-- Twins with equal metadata are twins. -/
theorem weaken {s : RunState K W} {t : RunState K W'}
    (hst : Twins R SameMetadata offset watched rt rt' s t) : Twins R M offset watched rt rt' s t :=
  Twins.weaken hst (hM _ _ hst.footprint)

include hcollect hM in
/-- The main loops stay together. -/
theorem searchLoop (deadline : Option K) (remaining : Nat) :
    Lockstep (Astray offset ctl ctl' rt rt') (Twins R SameMetadata offset watched rt rt')
      (searchLoop ctl rt deadline remaining) (searchLoop ctl' rt' deadline remaining)
      (fun _ => Twins R SameMetadata offset watched rt rt')
      fun _ => Twins R M offset watched rt rt' := by
  have hF : ∀ s t, Twins R SameMetadata offset watched rt rt' s t → Twins R M offset watched rt rt' s t :=
    fun _ _ hst => weaken hM hst
  have hmark : Lockstep (Astray offset ctl ctl' rt rt') (Twins R SameMetadata offset watched rt rt')
      markBoundary markBoundary (fun _ => Twins R SameMetadata offset watched rt rt')
      fun _ => Twins R M offset watched rt rt' :=
    Lockstep.modify (fun _ hs => Strays.cons hs _) fun _ _ hst => hst.noted rfl rfl
  induction remaining with
  | zero => exact hmark
  | succ remaining ih =>
    unfold Search.searchLoop
    rw [h.maxWallSeconds]
    refine Lockstep.bind hmark fun _ => Lockstep.bind h.cancelRequested fun cancelled =>
      Lockstep.ite (fun _ => hA.step hF _ _ _) fun _ =>
        Lockstep.bind (h.deadlinePassed hA deadline) fun passed =>
          Lockstep.ite (fun _ => hA.step hF _ _ _) fun _ =>
            Lockstep.bind (h.stopReason hF) fun reason => ?_
    cases reason with
    | some reason => exact hA.step hF _ _ _
    | none =>
      exact Lockstep.bind (hA.iterate hF hcollect) fun again =>
        Lockstep.ite (fun _ => ih) fun _ => Lockstep.pure _ fun _ _ hst => hst

include hcollect hM

/-- Everything up to the result. -/
theorem conduct :
    Lockstep (Astray offset ctl ctl' rt rt') (Twins R SameMetadata offset watched rt rt')
      (openRun ctl rt >>= driveRun ctl rt) (openRun ctl' rt' >>= driveRun ctl' rt')
      (fun _ => Twins R M offset watched rt rt')
      fun _ => Twins R M offset watched rt rt' := by
  have hF : ∀ s t, Twins R SameMetadata offset watched rt rt' s t → Twins R M offset watched rt rt' s t :=
    fun _ _ hst => weaken hM hst
  have hloop : ∀ deadline, Lockstep (Astray offset ctl ctl' rt rt')
      (Twins R SameMetadata offset watched rt rt') (guardedLoop ctl rt deadline)
      (guardedLoop ctl' rt' deadline) (fun _ => Twins R M offset watched rt rt')
      fun _ => Twins R M offset watched rt rt' := by
    intro deadline
    unfold guardedLoop
    rw [h.maxIterations]
    exact Lockstep.tryCatch (Lockstep.bind (h.searchLoop hA hcollect hM deadline _) fun _ =>
      Lockstep.pure _ hF) hA.onFault
  exact Lockstep.bind (Lockstep.bind (h.startDeadline hA) fun deadline =>
    Lockstep.bind (hA.step hF _ _ _) fun _ => Lockstep.pure _ fun _ _ h => h) fun deadline =>
      Lockstep.bind (hloop deadline) fun _ => Lockstep.bind hA.closeBudget fun _ =>
        Lockstep.pure _ fun _ _ h => h

/-- Twin runs return the same result or raise the same exception. -/
theorem run {task : Str} {draws draws' : Nat} {world : W} {world' : W'} (hw : R world world')
    (hdraws : draws = draws' + offset) :
    Astray offset ctl ctl' rt rt' (finalState (ctl.run rt task draws world)) ∨
      (∃ r r' s t, ctl.run rt task draws world = .ok r s ∧ ctl'.run rt' task draws' world' = .ok r' t ∧
        SameResult r r' ∧ Twins R M offset watched rt rt' s t) ∨
      ∃ e s t, ctl.run rt task draws world = .error e s ∧
        ctl'.run rt' task draws' world' = .error e t := by
  have hstart : Twins R SameMetadata offset watched rt rt' (startState rt task draws world)
      (startState rt' task draws' world') := .start task hdraws hw
  have hend := (assembled (h.conduct hA hcollect hM)).2 _ _ hstart
  rw [← run_eq_parts, ← run_eq_parts] at hend
  refine hend.imp_right fun hend => ?_
  cases hr : ctl.run rt task draws world <;> cases hr' : ctl'.run rt' task draws' world' <;>
    simp only [hr, hr'] at hend
  · exact Or.inl ⟨_, _, _, _, rfl, rfl, hend⟩
  · exact Or.inr ⟨_, _, _, rfl, by rw [hend]⟩

end Synchronous

end Runs

end CognitiveTree.Search
