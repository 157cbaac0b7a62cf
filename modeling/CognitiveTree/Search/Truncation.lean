import CognitiveTree.Search.Synchrony
import CognitiveTree.Search.Totality

/-!
# Early stopping

The policies of a run have a state of their own; what surrounds the run may watch that
state but not change it. A run with a smaller budget, a deadline, a cancel signal and a
stop condition then does what the unlimited run does, lap by lap, until one of its limits
ends it at the head of the main loop.
-/

namespace CognitiveTree.Search

open Arena

variable {K P E E' : Type} [PyFloat K] {α : Type}

/-- Policies with a state of their own. -/
structure Policies (K P : Type) [PyFloat K] where
  generator : Nat → Nat → Call K P (List Str)
  evaluator : Nat → Call K P (Evaluation K)
  critic : Option (Nat → Call K P (Option (Critique K)))
  revisionPolicy : Option (Nat → Call K P Bool)
  rewardModel : Option (Nat → K → Option (Critique K) → Call K P K)

/-- What surrounds a run: it sees the policies' state and changes only its own. -/
structure Surroundings (K P E : Type) where
  monotonic : P → E → K × E
  freshId : Nat → Str
  cancelled : Option (P → E → Bool × E)
  stopCondition : Option (P → E → Except Exc (Option Str) × E)
  onEvent : Option (SearchEvent → ThoughtTree K → P → E → E)

/-- A policy call in a world that holds more than the policies' state. -/
def Call.within (f : Call K P α) : Call K (P × E) α := fun arena metadata w =>
  let reply := f arena metadata w.1
  ⟨reply.answer, reply.metadata, (reply.world, w.2)⟩

/-- A controller with these policies in these surroundings. -/
def Policies.controller (p : Policies K P) (config : SearchConfig K) (env : Surroundings K P E) :
    TreeSearchController K (P × E) where
  config := config
  generator node k := (p.generator node k).within
  evaluator node := (p.evaluator node).within
  critic := p.critic.map fun f node => (f node).within
  revisionPolicy := p.revisionPolicy.map fun f node => (f node).within
  rewardModel := p.rewardModel.map fun f node base critique => (f node base critique).within
  onEvent := env.onEvent.map fun f event tree w => (.ok (), (w.1, f event tree w.1 w.2))
  stopCondition := env.stopCondition.map fun f w => ((f w.1 w.2).1, (w.1, (f w.1 w.2).2))

/-- The runtime of a run in these surroundings. -/
def Surroundings.runtime (env : Surroundings K P E) (random : Option Int → Nat → K)
    (schedule : Arena K → List Nat → P → List PoolEvent) : Runtime K (P × E) where
  monotonic w := ((env.monotonic w.1 w.2).1, (w.1, (env.monotonic w.1 w.2).2))
  random := random
  freshId := env.freshId
  cancelled := env.cancelled.map fun f w => ((f w.1 w.2).1, (w.1, (f w.1 w.2).2))
  schedule arena batch w := schedule arena batch w.1

/-- Seeded configurations that differ in their budgets at most. -/
structure SearchConfig.SameSearch (c c' : SearchConfig K) : Prop where
  seeded : c.seed ≠ none
  maxDepth : c'.maxDepth = c.maxDepth
  branchingFactor : c'.branchingFactor = c.branchingFactor
  explorationWeight : c'.explorationWeight = c.explorationWeight
  acceptThreshold : c'.acceptThreshold = c.acceptThreshold
  pruneThreshold : c'.pruneThreshold = c.pruneThreshold
  seed : c'.seed = c.seed
  evaluationWorkers : c'.evaluationWorkers = c.evaluationWorkers

/-- The policies' states are equal; the rest of the worlds is unrelated. -/
def SamePolicies (w : P × E) (w' : P × E') : Prop := w'.1 = w.1

section Agreement

variable {p : Policies K P} {c c' : SearchConfig K} {env : Surroundings K P E}
  {env' : Surroundings K P E'} {random : Option Int → Nat → K}
  {schedule : Arena K → List Nat → P → List PoolEvent}

omit [PyFloat K] in
theorem callsAgree_within (f : Call K P α) :
    CallsAgree SamePolicies (Call.within f : Call K (P × E) α) (Call.within f : Call K (P × E') α) := by
  rintro arena metadata ⟨q, e⟩ ⟨q', e'⟩ hq
  cases (show q' = q from hq)
  exact ⟨rfl, rfl, rfl⟩

theorem optionRel_map {β γ δ : Type} {r : γ → δ → Prop} {f : β → γ} {g : β → δ}
    (h : ∀ b, r (f b) (g b)) (x : Option β) : Option.Rel r (x.map f) (x.map g) := by
  cases x with
  | none => exact .none
  | some b => exact .some (h b)

/-- The same policies in two surroundings. -/
theorem Agreeing.within (h : c.SameSearch c') : Agreeing SamePolicies (p.controller c env)
    (p.controller c' env') (env.runtime random schedule) (env'.runtime random schedule) where
  maxDepth := h.maxDepth
  branchingFactor := h.branchingFactor
  explorationWeight := h.explorationWeight
  acceptThreshold := h.acceptThreshold
  pruneThreshold := h.pruneThreshold
  generator _ _ := callsAgree_within _
  critic := optionRel_map (fun _ _ => callsAgree_within _) _
  revisionPolicy := optionRel_map (fun _ _ => callsAgree_within _) _
  rewardModel := optionRel_map (fun _ _ _ _ => callsAgree_within _) _
  clock _ _ h := h
  sink := by
    intro iteration phase node detail tree tree' w w' _ _ hw
    dsimp only [Policies.controller, react]
    cases env.onEvent <;> cases env'.onEvent <;> exact ⟨rfl, hw⟩

theorem SameWorkers.within (h : c.SameSearch c') : SameWorkers SamePolicies (p.controller c env)
    (p.controller c' env') (env.runtime random schedule) (env'.runtime random schedule) where
  evaluator _ := callsAgree_within _
  workers := h.evaluationWorkers
  schedule := by
    rintro arena batch ⟨q, e⟩ ⟨q', e'⟩ hq
    cases (show q' = q from hq)
    rfl

end Agreement

section Limits

variable {W : Type} {ctl : TreeSearchController K W} {rt : Runtime K W} {task : Str} {world : W}
  {k : Nat} {deadline : Option K} {s : RunState K W} {phase : SearchPhase}

/-- The head of the loop as the log has it. -/
def RunState.marked (s : RunState K W) : RunState K W :=
  s.noted (.boundary s.iteration s.tree.arena s.machine.history)

/-- A run without limits passes every stop check. -/
theorem checkLimits_unlimited (hc : rt.cancelled = none) (hs : ctl.stopCondition = none)
    (s : RunState K W) : checkLimits ctl rt none s = .ok none s.marked := by
  unfold checkLimits cancelRequested stopReason
  rw [hc, hs]
  rfl

/-- The head of the loop is a reachable one. -/
theorem AtHead.reach (h : AtHead ctl rt task world k deadline s)
    (hk : k ≤ ctl.config.maxIterations) : Reach ctl rt task 0 (.boundary, s) ∧ s.iteration = k ∧
      (deadline ≠ none → ctl.config.maxWallSeconds ≠ none) := by
  obtain ⟨s₀, hopen, hlaps⟩ := h
  have hspec : Triple _ (openRun ctl rt) _ (Escaped ctl rt task 0) := openRun_spec
  have h₀ := hspec _ ⟨world, rfl⟩
  rw [hopen] at h₀
  obtain ⟨hseconds, hreach, hiter⟩ := h₀
  have h₁ := laps_spec deadline hseconds k 0 s₀ ⟨hreach, hiter, by omega⟩
  rw [hlaps] at h₁
  exact ⟨(h₁ rfl).1, by simpa using (h₁ rfl).2, hseconds⟩

/-- A limit ends the run with one transition, into its phase. What holds of the state after
the stop checks, whatever they did, holds before that transition. -/
theorem Stops.ends {Q : RunState K W → Prop} (hstop : Stops ctl rt k deadline s phase)
    (hhead : AtHead ctl rt task world k deadline s) (quiet : ctl.QuietSink) (hmark : Q s.marked)
    (hcheck : Q (finalState (checkLimits ctl rt deadline s))) :
    ∃ u note h w error, Q u ∧ u.iteration = k ∧
      (openRun ctl rt >>= driveRun ctl rt) (startState rt task 0 world) =
        .ok error ((u.transitioned rt phase none note h).inWorld w) := by
  have hk : k ≤ ctl.config.maxIterations := by
    cases hstop <;> omega
  obtain ⟨hreach, hiter, hseconds⟩ := hhead.reach hk
  obtain ⟨s₀, hopen, hlaps⟩ := hhead
  -- the rest of the main loop starts here
  have hloop : ∀ n, searchLoop ctl rt deadline (k + n) s₀ = searchLoop ctl rt deadline n s := by
    intro n
    rw [searchLoop_add, bind_of_ok hlaps]
    rfl
  rw [bind_of_ok hopen]
  have hcheckSpec := (Reach.follows ctl rt task 0 k).checkLimits deadline hseconds s ⟨hreach, hiter⟩
  cases hstop with
  | budget hbudget =>
    have hphase : s.marked.machine.phase = .selection := hreach.inv.phase
    have hcan : s.marked.machine.canTransition .exhausted = true := by
      rw [SearchStateMachine.canTransition, hphase]
      decide
    obtain ⟨w, hw⟩ := quiet.advance rt none (lit "iteration budget spent") hcan
    have hspent : searchLoop ctl rt deadline ctl.config.maxIterations s₀ = .ok ⟨⟩ s.marked := by
      rw [← hbudget]
      exact hloop 0
    refine ⟨s.marked, lit "iteration budget spent", hcan, w, [], hmark, hiter, ?_⟩
    have hopen' : s.marked.machine.isTerminal = false := by
      rw [SearchStateMachine.isTerminal, hphase]
      rfl
    rw [driveRun_of_ok hspent]
    exact (bind_of_ok ((closeBudget_open hopen').trans hw)).trans rfl
  | @limit _ note u hlt hlimit =>
    rw [hlimit] at hcheck hcheckSpec
    obtain ⟨hu, hiter'⟩ := hcheckSpec
    obtain ⟨hphase, hm⟩ : u.machine.phase = .selection ∧
      phase ∈ [SearchPhase.cancelled, .timedOut, .budgetExhausted] := hu.inv.phase
    have hcan : u.machine.canTransition phase = true := by
      rw [SearchStateMachine.canTransition, hphase]
      simp only [List.mem_cons, List.not_mem_nil, or_false] at hm
      rcases hm with rfl | rfl | rfl <;> decide
    obtain ⟨w, hw⟩ := quiet.advance rt none note hcan
    obtain ⟨n, hn⟩ : ∃ n, ctl.config.maxIterations = k + (n + 1) :=
      ⟨ctl.config.maxIterations - k - 1, by omega⟩
    have hlap : lap ctl rt deadline s = .ok false ((u.transitioned rt phase none note hcan).inWorld w) := by
      rw [lap, bind_of_ok hlimit]
      exact (bind_of_ok hw).trans rfl
    have hhalt : searchLoop ctl rt deadline ctl.config.maxIterations s₀ =
        .ok ⟨⟩ ((u.transitioned rt phase none note hcan).inWorld w) := by
      rw [hn, hloop, searchLoop_succ, bind_of_ok hlap]
      rfl
    refine ⟨u, note, hcan, w, [], hcheck, hiter', ?_⟩
    have hterm : ((u.transitioned rt phase none note hcan).inWorld w).machine.isTerminal = true := by
      change phase.isTerminal = true
      simp only [List.mem_cons, List.not_mem_nil, or_false] at hm
      rcases hm with rfl | rfl | rfl <;> rfl
    rw [driveRun_of_ok hhalt]
    exact (bind_of_ok (closeBudget_terminal hterm)).trans rfl
  | @raised e u hlt hraised =>
    rw [hraised] at hcheck hcheckSpec
    cases e with
    | diverged => exact hcheckSpec.elim
    | raised x =>
      obtain ⟨hu, hiter'⟩ := hcheckSpec.resolve_right fun h => by
        obtain ⟨⟨hended, -⟩, x', hx'⟩ := h
        exact hended.no_sinkRaised quiet x' (List.mem_of_head? hx')
      have hphase : u.machine.phase.isTerminal = false := hu.inv.phase
      have hcan : u.machine.canTransition .failed = true :=
        decide_eq_true (SearchPhase.failed_mem_transitions hphase)
      obtain ⟨w, hw⟩ := quiet.advance rt none x.describe hcan
      obtain ⟨n, hn⟩ : ∃ n, ctl.config.maxIterations = k + (n + 1) :=
        ⟨ctl.config.maxIterations - k - 1, by omega⟩
      have hfault : searchLoop ctl rt deadline ctl.config.maxIterations s₀ =
          .error (.raised x) u := by
        rw [hn, hloop, searchLoop_succ]
        exact bind_of_error (bind_of_error hraised)
      have hhandler : onFault ctl rt (.raised x) u = .ok x.describe
          ((u.transitioned rt .failed none x.describe hcan).inWorld w) := (bind_of_ok hw).trans rfl
      refine ⟨u, x.describe, hcan, w, x.describe, hcheck, hiter', ?_⟩
      rw [driveRun_of_error hfault, bind_of_ok hhandler]
      exact (bind_of_ok (closeBudget_terminal rfl)).trans rfl

end Limits

section Pairs

variable {p : Policies K P} {c c' : SearchConfig K} {env : Surroundings K P E}
  {env' : Surroundings K P E'} {random : Option Int → Nat → K}
  {schedule : Arena K → List Nat → P → List PoolEvent}

variable (env env' random schedule) in
/-- Two runs of the same policies that have done the same so far. -/
abbrev Paired (s : RunState K (P × E)) (t : RunState K (P × E')) : Prop :=
  Twins SamePolicies SameMetadata 0 True (env.runtime random schedule)
    (env'.runtime random schedule) s t

/-- The world of the second run may move on alone as long as the policies do not. -/
theorem Paired.outside {s : RunState K (P × E)} {t : RunState K (P × E')}
    (h : Paired env env' random schedule s t) (e : E') :
    Paired env env' random schedule s (t.inWorld (t.world.1, e)) :=
  h.inWorld (show SamePolicies s.world (t.world.1, e) from h.world)

variable (p c') in
/-- The stop checks of the second run leave the policies alone. -/
theorem Paired.checkLimits {s : RunState K (P × E)} {t : RunState K (P × E')}
    (h : Paired env env' random schedule s t) (deadline : Option K) :
    Paired env env' random schedule s.marked
      (finalState (checkLimits (p.controller c' env') (env'.runtime random schedule) deadline t)) := by
  have hstop : Triple (Paired env env' random schedule s.marked)
      (stopReason (p.controller c' env')) (fun _ => Paired env env' random schedule s.marked)
      fun _ => Paired env env' random schedule s.marked := by
    cases hs : env'.stopCondition with
    | none =>
      have hnone : (p.controller c' env').stopCondition = none := by
        simp [Policies.controller, hs]
      unfold stopReason
      rw [hnone]
      exact Triple.pure _ fun _ ht => ht
    | some check =>
      have hsome : (p.controller c' env').stopCondition =
          some fun w => ((check w.1 w.2).1, (w.1, (check w.1 w.2).2)) := by
        simp [Policies.controller, hs]
      rw [stopReason_eq hsome]
      refine Triple.bind (Q := fun _ => Paired env env' random schedule s.marked)
        (fun u hu => ?_) fun answer => ?_
      · exact (hu.outside _).noted_right rfl
      · cases answer with
        | ok reason => exact fun _ hu => hu
        | error e => exact fun _ hu => hu
  have hcheck : Triple (Paired env env' random schedule s)
      (Search.checkLimits (p.controller c' env') (env'.runtime random schedule) deadline)
      (fun _ => Paired env env' random schedule s.marked)
      fun _ => Paired env env' random schedule s.marked := by
    refine Triple.bind (Q := fun _ => Paired env env' random schedule s.marked)
      (Triple.modify _ fun u hu => hu.noted rfl rfl) fun _ => ?_
    refine Triple.bind (Q := fun _ => Paired env env' random schedule s.marked) ?_ fun cancelled =>
      Triple.ite (fun _ => Triple.pure _ fun _ hu => hu) fun _ =>
        Triple.bind (Q := fun _ => Paired env env' random schedule s.marked) ?_ fun passed =>
          Triple.ite (fun _ => Triple.pure _ fun _ hu => hu) fun _ =>
            Triple.bind hstop fun _ => Triple.pure _ fun _ hu => hu
    · unfold cancelRequested
      dsimp only [Surroundings.runtime]
      cases env'.cancelled with
      | none => exact Triple.pure _ fun _ hu => hu
      | some isSet => exact fun u hu => hu.outside _
    · cases deadline with
      | none => exact Triple.pure _ fun _ hu => hu
      | some limit => exact fun u hu => hu.outside _
  have hrun := hcheck t h
  cases hr : Search.checkLimits (p.controller c' env') (env'.runtime random schedule) deadline t <;>
    rw [hr] at hrun <;> exact hrun

variable (same : c.SameSearch c')

include same

/-- With one seed no run makes a choice of its own. -/
theorem SearchConfig.SameSearch.never (s : RunState K (P × E)) :
    ¬ Astray 0 (p.controller c env) (p.controller c' env') (env.runtime random schedule)
      (env'.runtime random schedule) s := by
  have hseed : (p.controller c' env').config.seed = (p.controller c env).config.seed := same.seed
  unfold Astray
  rw [hseed]
  exact not_strays_self _ _

variable (p) in
/-- An iteration ends alike. -/
theorem Paired.iterate {s : RunState K (P × E)} {t : RunState K (P × E')}
    (h : Paired env env' random schedule s t) :
    (∃ again s' t', iterate (p.controller c env) (env.runtime random schedule) s = .ok again s' ∧
      iterate (p.controller c' env') (env'.runtime random schedule) t = .ok again t' ∧
      Paired env env' random schedule s' t') ∨
    ∃ e s' t', iterate (p.controller c env) (env.runtime random schedule) s = .error e s' ∧
      iterate (p.controller c' env') (env'.runtime random schedule) t = .error e t' ∧
      Paired env env' random schedule s' t' :=
  ((Agreeing.within same).iterate (fun _ _ h => h) fun n batch =>
    (SameWorkers.within same).collectVerdicts n batch fun _ _ h => h).outcomes same.never h

variable (unlimited : env.cancelled = none ∧ env.stopCondition = none ∧ c.maxWallSeconds = none)

include unlimited

omit same in
/-- The unlimited run goes straight into its iteration. -/
theorem lap_unlimited (s : RunState K (P × E)) :
    lap (p.controller c env) (env.runtime random schedule) none s =
      Search.iterate (p.controller c env) (env.runtime random schedule) s.marked := by
  obtain ⟨hc, hs, -⟩ := unlimited
  rw [lap, bind_of_ok (checkLimits_unlimited (by simp [Surroundings.runtime, hc])
    (by simp [Policies.controller, hs]) s)]
  rfl

/-- Laps that the limited run completes, the unlimited run completes as well. -/
theorem Paired.laps {s : RunState K (P × E)} {t t' : RunState K (P × E')}
    (h : Paired env env' random schedule s t) {deadline : Option K} {k : Nat}
    (hlaps : laps (p.controller c' env') (env'.runtime random schedule) deadline k t = .ok true t') :
    ∃ s', laps (p.controller c env) (env.runtime random schedule) none k s = .ok true s' ∧
      Paired env env' random schedule s' t' := by
  induction k generalizing s t with
  | zero =>
    cases hlaps
    exact ⟨s, rfl, h⟩
  | succ k ih =>
    obtain ⟨again, u, hlap, hrest⟩ := exists_ok_of_bind hlaps
    cases again with
    | false => cases hrest
    | true =>
      obtain ⟨limit, v, hcheck, hgo⟩ := exists_ok_of_bind hlap
      have hv : Paired env env' random schedule s.marked v := by
        have hfinal := h.checkLimits p c' deadline
        rwa [hcheck] at hfinal
      cases limit with
      | some limit =>
        obtain ⟨_, _, -, hfalse⟩ := exists_ok_of_bind hgo
        cases hfalse
      | none =>
        have hgo : Search.iterate (p.controller c' env') (env'.runtime random schedule) v =
          .ok true u := hgo
        rcases hv.iterate p same with ⟨again, s₁, t₁, hs₁, ht₁, h₁⟩ | ⟨e, s₁, t₁, -, ht₁, -⟩
        · rw [hgo] at ht₁
          cases ht₁
          obtain ⟨s', hs', h'⟩ := ih h₁ hrest
          refine ⟨s', ?_, h'⟩
          rw [Search.laps, bind_of_ok ((lap_unlimited unlimited s).trans hs₁)]
          exact hs'
        · rw [hgo] at ht₁
          cases ht₁

/-- Without a limit in its way the main loop ends alike under the larger budget. -/
theorem Paired.searchLoop {s : RunState K (P × E)} {t : RunState K (P × E')}
    (h : Paired env env' random schedule s t) {deadline : Option K} {n m : Nat} (hle : n ≤ m)
    (free : ∀ k t', k ≤ n →
      Search.laps (p.controller c' env') (env'.runtime random schedule) deadline k t = .ok true t' →
      k < n ∧ ∃ u, Search.checkLimits (p.controller c' env') (env'.runtime random schedule) deadline
        t' = .ok none u) :
    (∃ s' t', searchLoop (p.controller c env) (env.runtime random schedule) none m s = .ok ⟨⟩ s' ∧
      searchLoop (p.controller c' env') (env'.runtime random schedule) deadline n t = .ok ⟨⟩ t' ∧
      Paired env env' random schedule s' t') ∨
    ∃ e s' t', searchLoop (p.controller c env) (env.runtime random schedule) none m s = .error e s' ∧
      searchLoop (p.controller c' env') (env'.runtime random schedule) deadline n t = .error e t' ∧
      Paired env env' random schedule s' t' := by
  induction n generalizing m s t with
  | zero => exact absurd (free 0 t le_rfl rfl).1 (lt_irrefl 0)
  | succ n ih =>
    obtain ⟨m, rfl⟩ : ∃ m', m = m' + 1 := ⟨m - 1, by omega⟩
    obtain ⟨-, v, hcheck⟩ := free 0 t (Nat.zero_le _) rfl
    have hv : Paired env env' random schedule s.marked v := by
      have hfinal := h.checkLimits p c' deadline
      rwa [hcheck] at hfinal
    have hlap : lap (p.controller c' env') (env'.runtime random schedule) deadline t =
        Search.iterate (p.controller c' env') (env'.runtime random schedule) v := by
      rw [lap, bind_of_ok hcheck]
      rfl
    rw [searchLoop_succ, searchLoop_succ]
    rcases hv.iterate p same with ⟨again, s₁, t₁, hs₁, ht₁, h₁⟩ | ⟨e, s₁, t₁, hs₁, ht₁, h₁⟩
    · rw [bind_of_ok ((lap_unlimited unlimited s).trans hs₁), bind_of_ok (hlap.trans ht₁)]
      cases again with
      | false => exact Or.inl ⟨s₁, t₁, rfl, rfl, h₁⟩
      | true =>
        refine ih h₁ (by omega) fun k t' hk hlaps => ?_
        have hnext := free (k + 1) t' (by omega) (by
          rw [Search.laps, bind_of_ok (hlap.trans ht₁)]
          exact hlaps)
        exact ⟨by omega, hnext.2⟩
    · rw [bind_of_error ((lap_unlimited unlimited s).trans hs₁),
        bind_of_error (hlap.trans ht₁)]
      exact Or.inr ⟨e, s₁, t₁, rfl, rfl, h₁⟩

variable (p env env' random schedule) in
/-- Two runs of a task open alike. -/
theorem paired_openRun (task : Str) (q : P) (e : E) (e' : E') :
    (∃ deadline s t, openRun (p.controller c env) (env.runtime random schedule)
        (startState (env.runtime random schedule) task 0 (q, e)) = .ok none s ∧
      openRun (p.controller c' env') (env'.runtime random schedule)
        (startState (env'.runtime random schedule) task 0 (q, e')) = .ok deadline t ∧
      Paired env env' random schedule s t) ∨
    ∃ x s t, openRun (p.controller c env) (env.runtime random schedule)
        (startState (env.runtime random schedule) task 0 (q, e)) = .error x s ∧
      openRun (p.controller c' env') (env'.runtime random schedule)
        (startState (env'.runtime random schedule) task 0 (q, e')) = .error x t := by
  have hstart : Paired env env' random schedule
      (startState (env.runtime random schedule) task 0 (q, e))
      (startState (env'.runtime random schedule) task 0 (q, e')) := .start task rfl rfl
  have hunlimited : startDeadline (p.controller c env) (env.runtime random schedule)
      (startState (env.runtime random schedule) task 0 (q, e)) =
        .ok none (startState (env.runtime random schedule) task 0 (q, e)) := by
    unfold startDeadline
    rw [show (p.controller c env).config.maxWallSeconds = none from unlimited.2.2]
    rfl
  obtain ⟨deadline, t₀, ht₀, h₀⟩ : ∃ deadline t₀,
      startDeadline (p.controller c' env') (env'.runtime random schedule)
        (startState (env'.runtime random schedule) task 0 (q, e')) = .ok deadline t₀ ∧
      Paired env env' random schedule (startState (env.runtime random schedule) task 0 (q, e)) t₀ := by
    unfold startDeadline
    cases (p.controller c' env').config.maxWallSeconds with
    | none => exact ⟨_, _, rfl, hstart⟩
    | some seconds => exact ⟨_, _, rfl, hstart.outside _⟩
  rw [openRun, openRun, bind_of_ok hunlimited, bind_of_ok ht₀]
  have hA : Agreeing SamePolicies (p.controller c env) (p.controller c' env')
      (env.runtime random schedule) (env'.runtime random schedule) := .within same
  have hadvance := hA.step (F := Paired env env' random schedule) (fun _ _ h => h) .selection none
    (lit "search started")
  rcases hadvance.outcomes same.never h₀ with ⟨_, s, t, hs, ht, h⟩ | ⟨x, s, t, hs, ht, -⟩
  · rw [bind_of_ok hs, bind_of_ok ht]
    exact Or.inl ⟨deadline, s, t, rfl, rfl, h⟩
  · rw [bind_of_error hs, bind_of_error ht]
    exact Or.inr ⟨x, s, t, rfl, rfl⟩

/-- A head that the limited run reaches is one that the unlimited run reaches. -/
theorem AtHead.paired {task : Str} {q : P} (e : E) {e' : E'} {k : Nat} {deadline : Option K}
    {t : RunState K (P × E')} (h : AtHead (p.controller c' env') (env'.runtime random schedule) task
      (q, e') k deadline t) : ∃ s, AtHead (p.controller c env) (env.runtime random schedule) task
        (q, e) k none s ∧ Paired env env' random schedule s t := by
  obtain ⟨t₀, hopen, hlaps⟩ := h
  rcases paired_openRun p env env' random schedule same unlimited task q e e' with
    ⟨_, s₀, t₁, hs₀, ht₁, h₀⟩ | ⟨x, s₀, t₁, -, ht₁⟩
  · rw [hopen] at ht₁
    cases ht₁
    obtain ⟨s, hs, hst⟩ := h₀.laps same unlimited hlaps
    exact ⟨s, ⟨s₀, hs₀, hs⟩, hst⟩
  · rw [hopen] at ht₁
    cases ht₁

end Pairs

section EarlyStops

/-- The stopped run is the unlimited run up to its head in state `s`, and one more transition. -/
structure Truncated {W W' : Type} (s : RunState K W) (k : Nat) (phase : SearchPhase)
    (r : SearchResult K) (t : RunState K W') : Prop where
  calls : policyCalls t.log = policyCalls s.log
  arena : r.tree.arena = s.tree.arena
  metadata : r.metadata = s.metadata
  history : ∃ last, last.2.1 = phase ∧ r.phaseHistory.map PhaseTransition.untimed =
    s.machine.history.map PhaseTransition.untimed ++ [last]
  iterations : r.iterations = k
  outcome : outcomeByPhase phase = some r.outcome

variable {p : Policies K P} {c c' : SearchConfig K} {env : Surroundings K P E}
  {env' : Surroundings K P E'} {random : Option Int → Nat → K}
  {schedule : Arena K → List Nat → P → List PoolEvent}

theorem Policies.quietSink : (p.controller c env).QuietSink := by
  intro sink hsink event tree world e
  obtain ⟨f, -, rfl⟩ := Option.map_eq_some_iff.mp hsink
  exact fun h => by cases h

/-- The phases that end a run at the head of its main loop. -/
theorem Stops.phase_mem {W : Type} {ctl : TreeSearchController K W} {rt : Runtime K W} {task : Str}
    {world : W} {k : Nat} {deadline : Option K} {s : RunState K W} {phase : SearchPhase}
    (h : Stops ctl rt k deadline s phase) (hhead : AtHead ctl rt task world k deadline s) :
    phase ∈ [SearchPhase.exhausted, .cancelled, .timedOut, .budgetExhausted, .failed] := by
  have hk : k ≤ ctl.config.maxIterations := by
    cases h <;> omega
  obtain ⟨hreach, hiter, hseconds⟩ := hhead.reach hk
  have hcheck := (Reach.follows ctl rt task 0 k).checkLimits deadline hseconds s ⟨hreach, hiter⟩
  cases h with
  | budget => simp
  | raised => simp
  | @limit _ note u hlt hlimit =>
    rw [hlimit] at hcheck
    have hm : phase ∈ [SearchPhase.cancelled, .timedOut, .budgetExhausted] := hcheck.1.inv.phase.2
    simp only [List.mem_cons, List.not_mem_nil, or_false] at hm ⊢
    tauto

theorem Stops.terminal {W : Type} {ctl : TreeSearchController K W} {rt : Runtime K W} {task : Str}
    {world : W} {k : Nat} {deadline : Option K} {s : RunState K W} {phase : SearchPhase}
    (h : Stops ctl rt k deadline s phase) (hhead : AtHead ctl rt task world k deadline s) :
    phase.isTerminal = true := by
  have hm := h.phase_mem hhead
  simp only [List.mem_cons, List.not_mem_nil, or_false] at hm
  rcases hm with rfl | rfl | rfl | rfl | rfl <;> rfl

/-- A run that a limit stops is a truncation of the unlimited run. -/
theorem truncated_of_stops (same : c.SameSearch c')
    (unlimited : env.cancelled = none ∧ env.stopCondition = none ∧ c.maxWallSeconds = none)
    {task : Str} {q : P} {e : E} {e' : E'} {k : Nat} {deadline : Option K}
    {t : RunState K (P × E')} {phase : SearchPhase}
    (hhead : AtHead (p.controller c' env') (env'.runtime random schedule) task (q, e') k deadline t)
    (hstop : Stops (p.controller c' env') (env'.runtime random schedule) k deadline t phase) :
    ∃ s r u, AtHead (p.controller c env) (env.runtime random schedule) task (q, e) k none s ∧
      policyCalls t.log = policyCalls s.log ∧
      (p.controller c' env').run (env'.runtime random schedule) task 0 (q, e') = .ok r u ∧
      Truncated s k phase r u := by
  obtain ⟨s, hs, hst⟩ := hhead.paired same unlimited e
  have hterm := hstop.terminal hhead
  obtain ⟨u, note, hcan, w, error, hu, hiter, hrun⟩ := hstop.ends (Q := Paired env env' random schedule
    s.marked) hhead Policies.quietSink (hst.noted rfl rfl) (hst.checkLimits p c' deadline)
  obtain ⟨outcome, houtcome⟩ := outcomeByPhase_of_terminal hterm
  refine ⟨s, ((u.transitioned (env'.runtime random schedule) phase none note hcan).inWorld w).report
    outcome error, (u.transitioned (env'.runtime random schedule) phase none note hcan).inWorld w, hs,
    hst.calls trivial, ?_, ?_⟩
  · rw [run_eq_parts, bind_of_ok hrun, assemble_run]
    change ((outcomeByPhase phase).elim _ _ : Run K (P × E') (SearchResult K)) _ = _
    rw [houtcome]
    rfl
  · refine ⟨hu.calls trivial, hu.arena, hu.metadata.symm, ⟨(u.machine.phase, phase, note), rfl, ?_⟩, hiter,
      houtcome⟩
    change (u.machine.history ++ [_]).map _ = _
    rw [List.map_append, hu.history]
    rfl

/-- A run that no limit stops ends like the unlimited run. -/
theorem same_of_not_stops (same : c.SameSearch c')
    (unlimited : env.cancelled = none ∧ env.stopCondition = none ∧ c.maxWallSeconds = none)
    (budget : c'.maxIterations ≤ c.maxIterations) (task : Str) (q : P) (e : E) (e' : E')
    (free : ∀ k deadline t phase,
      AtHead (p.controller c' env') (env'.runtime random schedule) task (q, e') k deadline t →
      ¬ Stops (p.controller c' env') (env'.runtime random schedule) k deadline t phase) :
    ∃ r r' s t, (p.controller c env).run (env.runtime random schedule) task 0 (q, e) = .ok r s ∧
      (p.controller c' env').run (env'.runtime random schedule) task 0 (q, e') = .ok r' t ∧
      SameResult r r' ∧ r'.metadata = r.metadata ∧ policyCalls t.log = policyCalls s.log := by
  have hA : Agreeing SamePolicies (p.controller c env) (p.controller c' env')
      (env.runtime random schedule) (env'.runtime random schedule) := .within same
  obtain ⟨r, s, hr, hreport⟩ := run_ok_of_quiet (p.controller c env) (env.runtime random schedule) task 0
    (q, e) Policies.quietSink
  obtain ⟨r', t, hr', hreport'⟩ := run_ok_of_quiet (p.controller c' env') (env'.runtime random schedule) task
    0 (q, e') Policies.quietSink
  refine ⟨r, r', s, t, hr, hr', ?_⟩
  -- from twin states on, the same exit leads to the same result
  have hexit : ∀ {x y s₁ t₁}, Lockstep (Astray 0 (p.controller c env) (p.controller c' env')
      (env.runtime random schedule) (env'.runtime random schedule))
      (Paired env env' random schedule) x y (fun _ => Paired env env' random schedule)
      (fun _ => Paired env env' random schedule) → Paired env env' random schedule s₁ t₁ →
      (p.controller c env).run (env.runtime random schedule) task 0 (q, e) = (x >>= assemble) s₁ →
      (p.controller c' env').run (env'.runtime random schedule) task 0 (q, e') =
        (y >>= assemble) t₁ → SameResult r r' ∧ Paired env env' random schedule s t := by
    intro x y s₁ t₁ hxy h₁ hx hy
    have hend := ((assembled hxy).2 s₁ t₁ h₁).resolve_left (same.never _)
    rw [← hx, ← hy, hr, hr'] at hend
    exact hend
  have hlock : ∀ error : Str, Lockstep (Astray 0 (p.controller c env) (p.controller c' env')
      (env.runtime random schedule) (env'.runtime random schedule))
      (Paired env env' random schedule)
      (closeBudget (p.controller c env) (env.runtime random schedule) >>= fun _ => pure error)
      (closeBudget (p.controller c' env') (env'.runtime random schedule) >>= fun _ => pure error)
      (fun _ => Paired env env' random schedule) fun _ => Paired env env' random schedule := fun _ =>
    Lockstep.bind hA.closeBudget fun _ => Lockstep.pure _ fun _ _ h => h
  suffices hsame : SameResult r r' ∧ Paired env env' random schedule s t by
    refine ⟨hsame.1, ?_, hsame.2.calls trivial⟩
    rw [hreport.metadata, hreport'.metadata]
    exact hsame.2.metadata.symm
  rcases paired_openRun p env env' random schedule same unlimited task q e e' with
    ⟨deadline, s₀, t₀, hs₀, ht₀, h₀⟩ | ⟨x, s₀, t₀, hs₀, -⟩
  · have hfree : ∀ k t', k ≤ c'.maxIterations →
        laps (p.controller c' env') (env'.runtime random schedule) deadline k t₀ = .ok true t' →
        k < c'.maxIterations ∧ ∃ u, checkLimits (p.controller c' env') (env'.runtime random schedule)
          deadline t' = .ok none u := by
      intro k t' hk hlaps
      have hnever := fun phase => free k deadline t' phase ⟨t₀, ht₀, hlaps⟩
      have hlt : k < c'.maxIterations := lt_of_le_of_ne hk fun he => hnever _ (.budget he)
      refine ⟨hlt, ?_⟩
      cases hcheck : checkLimits (p.controller c' env') (env'.runtime random schedule) deadline t' with
      | error x u => exact absurd (.raised hlt hcheck) (hnever _)
      | ok limit u =>
        cases limit with
        | none => exact ⟨u, rfl⟩
        | some limit => exact absurd (.limit hlt hcheck) (hnever _)
    rcases h₀.searchLoop same unlimited budget hfree with ⟨s₁, t₁, hs₁, ht₁, h₁⟩ |
      ⟨x, s₁, t₁, hs₁, ht₁, h₁⟩
    · refine hexit (hlock []) h₁ ?_ ?_
      · rw [run_eq_parts]
        exact bind_run_congr ((bind_of_ok hs₀).trans (driveRun_of_ok hs₁))
      · rw [run_eq_parts]
        exact bind_run_congr ((bind_of_ok ht₀).trans (driveRun_of_ok ht₁))
    · refine hexit (Lockstep.bind (hA.onFault x) hlock) h₁ ?_ ?_
      · rw [run_eq_parts]
        exact bind_run_congr ((bind_of_ok hs₀).trans (driveRun_of_error hs₁))
      · rw [run_eq_parts]
        exact bind_run_congr ((bind_of_ok ht₀).trans (driveRun_of_error ht₁))
  · rw [run_eq_parts, bind_of_error (bind_of_error hs₀)] at hr
    cases hr

end EarlyStops

end CognitiveTree.Search
