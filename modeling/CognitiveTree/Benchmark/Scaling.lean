import CognitiveTree.Benchmark.Runner
import CognitiveTree.Core.Rational
import CognitiveTree.Search.PathPolicy
import CognitiveTree.Search.Truncation

/-!
# Scaling curves

When every build creates its policies afresh, and they do not depend on the iteration
budget, a run under a smaller budget is a truncation of the run under a larger one. So a
benchmark run that is solved stays solved as the budget grows.
-/

namespace CognitiveTree.Benchmark

open Search

variable {K P E E' : Type} [PyFloat K]

/-- Configurations that differ in `max_iterations` at most. -/
def OnlyBudget (c c' : SearchConfig K) : Prop :=
  c'.toConfigFields = { c.toConfigFields with maxIterations := c'.maxIterations }

theorem OnlyBudget.sameSearch {c c' : SearchConfig K} (h : OnlyBudget c c') (seeded : c.seed ≠ none) :
    c.SameSearch c' := by
  unfold OnlyBudget at h
  constructor
  case seeded => exact seeded
  all_goals rw [h]

/-- The surroundings of a benchmark: those of its runs and a performance counter. -/
def benchRuntime (env : Surroundings K P E) (random : Option Int → Nat → K)
    (schedule : Arena K → List Nat → P → List PoolEvent) (counter : P → E → K × E)
    (elapsed : K → K → K) : BenchRuntime K (P × E) where
  runtime := env.runtime random schedule
  perfCounter w := ((counter w.1 w.2).1, (w.1, (counter w.1 w.2).2))
  elapsed := elapsed

/-- The task's controllers have policies of their own in a new state, a sink that does not
raise and no stop condition; the policies do not depend on the iteration budget. -/
def BuildsAfresh (task : BenchmarkTask K (P × E)) : Prop :=
  ∃ (policies : SearchConfig K → Policies K P) (start : SearchConfig K → P)
    (sink : SearchConfig K → Option (SearchEvent → ThoughtTree K → P → E → E)),
    (∀ c c', OnlyBudget c c' → policies c' = policies c ∧ start c' = start c) ∧
    ∀ c w setup w', task.build c w = .ok setup w' → w'.1 = start c ∧
      ∀ env : Surroundings K P E, setup.controller =
        (policies c).controller c { env with onEvent := sink c, stopCondition := none }

/-- The same run under another budget, solved if it was solved before. -/
structure Kept (r r' : TaskResult K) : Prop where
  task : r'.task = r.task
  seed : r'.seed = r.seed
  solved : r.solved = true → r'.solved = true

section Runs

variable {env : Surroundings K P E} {random : Option Int → Nat → K}
  {schedule : Arena K → List Nat → P → List PoolEvent} {counter : P → E → K × E}
  {elapsed : K → K → K} {task : BenchmarkTask K (P × E)}

/-- Seeding a repeat keeps everything but the seed. -/
theorem seeded_eq {c d : SearchConfig K} {i : Nat} (h : seeded c i = .ok d) :
    ∃ seed, d.toConfigFields = { c.toConfigFields with seed := seed } ∧
      (c.seed ≠ none → seed ≠ none) := by
  unfold seeded at h
  cases hs : c.seed with
  | none =>
    rw [hs] at h
    cases h
    exact ⟨c.seed, rfl, fun hn => absurd rfl hn⟩
  | some seed =>
    rw [hs] at h
    exact ⟨some (seed + i), ConfigFields.of_create h, fun _ => by simp⟩

theorem seeded_onlyBudget {c c' d d' : SearchConfig K} {i : Nat} (h : OnlyBudget c c')
    (hd : seeded c i = .ok d) (hd' : seeded c' i = .ok d') :
    OnlyBudget d d' ∧ d.maxIterations = c.maxIterations ∧ d'.maxIterations = c'.maxIterations := by
  have hseed : c'.seed = c.seed := by
    unfold OnlyBudget at h
    rw [h]
  unfold seeded at hd hd'
  rw [hseed] at hd'
  cases hs : c.seed with
  | none =>
    rw [hs] at hd hd'
    cases hd
    cases hd'
    exact ⟨h, rfl, rfl⟩
  | some seed =>
    rw [hs] at hd hd'
    have he := ConfigFields.of_create hd
    have he' := ConfigFields.of_create hd'
    refine ⟨?_, by rw [he], by rw [he']⟩
    unfold OnlyBudget at h ⊢
    rw [he, he', h]

/-- What a repeat reports comes from a run in the world that the build has left. -/
theorem exists_run {base : SearchConfig K} {i : Nat} {w w' : P × E} {r : TaskResult K}
    (h : runTask (benchRuntime env random schedule counter elapsed) task base i w = .ok r w') :
    ∃ effective setup w₁ w₂ result s, seeded base i = .ok effective ∧
      task.build effective w = .ok setup w₁ ∧ w₂.1 = w₁.1 ∧
      setup.controller.run ({ env with cancelled := none }.runtime random schedule) task.statement 0 w₂ =
        .ok result s ∧
      r.task = task.name ∧ r.seed = effective.seed ∧
      r.solved = task.isSolvedBy (result.outcome == .succeeded) result.solution := by
  unfold runTask at h
  obtain ⟨effective, w₀, hseeded, hafter⟩ := exists_ok_of_bind h
  obtain ⟨hseeded, hw₀⟩ := accepted_ok hseeded
  obtain ⟨setup, w₁, hbuild, hafter⟩ := exists_ok_of_bind hafter
  obtain ⟨started, w₂, hcounter, hafter⟩ := exists_ok_of_bind hafter
  obtain ⟨result, w₃, hrun, hafter⟩ := exists_ok_of_bind hafter
  obtain ⟨finished, w₄, -, hafter⟩ := exists_ok_of_bind hafter
  obtain ⟨world, w₅, -, hafter⟩ := exists_ok_of_bind hafter
  cases hafter
  rw [hw₀] at hbuild
  have hw₂ : w₂.1 = w₁.1 := by
    cases hcounter
    rfl
  unfold runController at hrun
  cases hr : setup.controller.run { (benchRuntime env random schedule counter elapsed).runtime with
    cancelled := none } task.statement 0 w₂ with
  | error x s =>
    rw [hr] at hrun
    cases hrun
  | ok r s =>
    rw [hr] at hrun
    cases hrun
    exact ⟨effective, setup, w₁, w₂, result, s, hseeded, hbuild, hw₂, hr, rfl, rfl, rfl⟩

omit [PyFloat K] in
/-- Only a successful run is solved. -/
theorem isSolvedBy_eq_true {W : Type} [PyFloat K] {task : BenchmarkTask K W} {succeeded : Bool}
    {solution : Option Str} (h : task.isSolvedBy succeeded solution = true) : succeeded = true := by
  cases succeeded with
  | true => rfl
  | false => cases h

omit [PyFloat K] in
/-- Equal results have equal solutions. -/
theorem solution_of_sameResult [PyFloat K] {r r' : SearchResult K} (h : SameResult r r') :
    r'.solution = r.solution := by
  rw [SearchResult.solution, SearchResult.solution, h.outcome, h.bestPath, h.arena]

/-- A run that is solved under the smaller budget is solved under the larger one. -/
theorem solved_of_solved {p : Policies K P} {c c' : SearchConfig K} (env env' : Surroundings K P E)
    (same : c.SameSearch c')
    (unlimited : env.cancelled = none ∧ env.stopCondition = none ∧ c.maxWallSeconds = none)
    (budget : c'.maxIterations ≤ c.maxIterations) {statement : Str} {q : P} {e e' : E}
    {r r' : SearchResult K} {s t : RunState K (P × E)}
    (hr : (p.controller c env).run (env.runtime random schedule) statement 0 (q, e) = .ok r s)
    (hr' : (p.controller c' env').run (env'.runtime random schedule) statement 0 (q, e') = .ok r' t)
    (hsolved : task.isSolvedBy (r'.outcome == .succeeded) r'.solution = true) :
    task.isSolvedBy (r.outcome == .succeeded) r.solution = true := by
  by_cases hfree : ∀ k deadline u phase,
      AtHead (p.controller c' env') (env'.runtime random schedule) statement (q, e') k deadline u →
      ¬ Stops (p.controller c' env') (env'.runtime random schedule) k deadline u phase
  · obtain ⟨r₀, r₀', s₀, t₀, hrun, hrun', hsame, -, -⟩ :=
      same_of_not_stops same unlimited budget statement q e e' hfree
    rw [hr] at hrun
    rw [hr'] at hrun'
    cases hrun
    cases hrun'
    rw [← hsame.outcome, ← solution_of_sameResult hsame]
    exact hsolved
  · -- a run that a limit stopped did not succeed
    push Not at hfree
    obtain ⟨k, deadline, u, phase, hhead, hstop⟩ := hfree
    have hphase := hstop.phase_mem hhead
    obtain ⟨s₀, r₀', t₀, -, -, hrun', htruncated⟩ :=
      truncated_of_stops (e := e) same unlimited hhead hstop
    rw [hr'] at hrun'
    cases hrun'
    have hsucceeded : r'.outcome = .succeeded := by
      simpa using isSolvedBy_eq_true hsolved
    have houtcome := htruncated.outcome
    rw [hsucceeded] at houtcome
    simp only [List.mem_cons, List.not_mem_nil, or_false] at hphase
    rcases hphase with rfl | rfl | rfl | rfl | rfl <;> cases houtcome

/-- A repeat that is solved under the smaller budget is solved under the larger one. -/
theorem kept_of_onlyBudget (afresh : BuildsAfresh task) {c c' : SearchConfig K} (h : OnlyBudget c c')
    (hle : c'.maxIterations ≤ c.maxIterations) (hseed : c.seed ≠ none)
    (hwall : c.maxWallSeconds = none) {i : Nat} {u u' w w' : P × E} {r r' : TaskResult K}
    (hr : runTask (benchRuntime env random schedule counter elapsed) task c i u = .ok r w)
    (hr' : runTask (benchRuntime env random schedule counter elapsed) task c' i u' = .ok r' w') :
    Kept r' r := by
  obtain ⟨policies, start, sink, hsame, hbuilds⟩ := afresh
  obtain ⟨d, setup, v, x, result, s, hd, hbuild, hx, hrun, ht, hs, hsolved⟩ := exists_run hr
  obtain ⟨d', setup', v', x', result', s', hd', hbuild', hx', hrun', ht', hs', hsolved'⟩ :=
    exists_run hr'
  obtain ⟨hdd, hmax, hmax'⟩ := seeded_onlyBudget h hd hd'
  obtain ⟨seed, hfields, hsome⟩ := seeded_eq hd
  have hdseed : d.seed ≠ none := by
    rw [hfields]
    exact hsome hseed
  have hdwall : d.maxWallSeconds = none := by
    rw [hfields]
    exact hwall
  have hds : d.SameSearch d' := hdd.sameSearch hdseed
  obtain ⟨hv, hctl⟩ := hbuilds _ _ _ _ hbuild
  obtain ⟨hv', hctl'⟩ := hbuilds _ _ _ _ hbuild'
  obtain ⟨hpolicies, hstart⟩ := hsame d d' hdd
  refine ⟨ht.trans ht'.symm, ?_, ?_⟩
  · rw [hs, hs', hds.seed]
  rw [hsolved, hsolved']
  obtain ⟨q, e⟩ := x
  obtain ⟨q', e'⟩ := x'
  have hq : q' = q := by
    rw [show q = v.1 from hx, show q' = v'.1 from hx', hv, hv', hstart]
  subst hq
  rw [hctl { env with cancelled := none }] at hrun
  rw [hctl' { env with cancelled := none }, hpolicies] at hrun'
  exact solved_of_solved { env with cancelled := none, onEvent := sink d, stopCondition := none }
    { env with cancelled := none, onEvent := sink d', stopCondition := none }
    hds ⟨rfl, rfl, hdwall⟩ (by omega) hrun hrun'

/-- A task's configuration is seeded and has no wall-clock budget. -/
def Steady (task : BenchmarkTask K (P × E)) (base : SearchConfig K) : Prop :=
  (task.configOverrides.apply base.toConfigFields).seed ≠ none ∧
    (task.configOverrides.apply base.toConfigFields).maxWallSeconds = none

/-- A task that fixes its own budget runs alike under every other. -/
theorem resolved_onlyBudget {base : SearchConfig K} {b b' : Nat} (hle : b' ≤ b)
    {c c' d d' : SearchConfig K}
    (hc : ConfigFields.create { base.toConfigFields with maxIterations := b } = .ok c)
    (hc' : ConfigFields.create { base.toConfigFields with maxIterations := b' } = .ok c')
    (hd : task.resolveConfig c = .ok d) (hd' : task.resolveConfig c' = .ok d')
    (steady : Steady task base) : OnlyBudget d d' ∧ d'.maxIterations ≤ d.maxIterations ∧
      d.seed ≠ none ∧ d.maxWallSeconds = none := by
  have he := ConfigFields.of_create hd
  have he' := ConfigFields.of_create hd'
  rw [ConfigFields.of_create hc] at he
  rw [ConfigFields.of_create hc'] at he'
  obtain ⟨hseed, hwall⟩ := steady
  refine ⟨?_, ?_, ?_, ?_⟩
  · unfold OnlyBudget
    rw [he, he']
    rfl
  · rw [he, he']
    dsimp only [ConfigOverrides.apply]
    cases task.configOverrides.maxIterations with
    | none => exact hle
    | some n => exact le_rfl
  · rw [he]
    exact hseed
  · rw [he]
    exact hwall

/-- Under a larger budget a benchmark keeps its solved runs. -/
theorem runBudget_kept {base : SearchConfig K} {tasks : Option (List (BenchmarkTask K (P × E)))}
    (hafresh : ∀ task ∈ tasks.getD defaultSuite, BuildsAfresh task ∧ Steady task base)
    {repeats b b' : Nat} (hle : b' ≤ b) {u u' w w' : P × E} {r r' : BenchmarkReport K}
    (hr : runBudget (benchRuntime env random schedule counter elapsed) base tasks repeats b u = .ok r w)
    (hr' : runBudget (benchRuntime env random schedule counter elapsed) base tasks repeats b' u' =
      .ok r' w') : List.Forall₂ Kept r'.results r.results := by
  unfold runBudget at hr hr'
  obtain ⟨c, u₁, hc, hr⟩ := exists_ok_of_bind hr
  obtain ⟨c', u₁', hc', hr'⟩ := exists_ok_of_bind hr'
  unfold runBenchmark at hr hr'
  by_cases hrepeats : repeats < 1
  · rw [if_pos hrepeats] at hr
    cases hr
  rw [if_neg hrepeats] at hr hr'
  obtain ⟨results, u₂, hresults, hr⟩ := exists_ok_of_bind hr
  obtain ⟨results', u₂', hresults', hr'⟩ := exists_ok_of_bind hr'
  cases hr
  cases hr'
  refine List.rel_flatten (forall₂_of_forEach_both hresults' hresults ?_)
  intro task hmem rs' rs v v' x x' hrs' hrs
  obtain ⟨hbuild, hsteady⟩ := hafresh task hmem
  obtain ⟨d, v₁, hd, hrs⟩ := exists_ok_of_bind hrs
  obtain ⟨d', v₁', hd', hrs'⟩ := exists_ok_of_bind hrs'
  obtain ⟨honly, hmax, hseed, hwall⟩ := resolved_onlyBudget hle (accepted_ok hc).1 (accepted_ok hc').1
    (accepted_ok hd).1 (accepted_ok hd').1 hsteady
  refine forall₂_of_forEach_both hrs' hrs fun i _ y z _ _ _ _ hy hz => ?_
  exact kept_of_onlyBudget hbuild honly hmax hseed hwall hz hy

end Runs

section Reports

/-- The second report solves every run that the first one does, so it solves no fewer. -/
structure Grows (r r' : BenchmarkReport K) : Prop where
  kept : List.Forall₂ Kept r.results r'.results
  solvedSet : r.solvedSet ⊆ r'.solvedSet
  solveRate : PyFloat.lt r'.solveRate r.solveRate = false

omit [PyFloat K] in
theorem countP_le_of_kept {rs rs' : List (TaskResult K)} (h : List.Forall₂ Kept rs rs') :
    rs.countP (fun result => result.solved) ≤ rs'.countP fun result => result.solved := by
  induction h with
  | nil => exact le_rfl
  | @cons r r' rs rs' hr _ ih =>
    rw [List.countP_cons, List.countP_cons]
    cases hs : r.solved with
    | false =>
      simp only [Bool.false_eq_true, if_false]
      omega
    | true =>
      rw [hr.solved hs]
      simpa using ih

theorem grows_of_kept [MonotoneRatio K] {r r' : BenchmarkReport K}
    (h : List.Forall₂ Kept r.results r'.results) : Grows r r' := by
  refine ⟨h, ?_, ?_⟩
  · rintro x ⟨result, hmem, hsolved, rfl⟩
    obtain ⟨i, hi, rfl⟩ := List.getElem_of_mem hmem
    have hi' : i < r'.results.length := h.length_eq ▸ hi
    have hk : Kept r.results[i] r'.results[i] := List.forall₂_iff_get.mp h |>.2 i hi hi'
    exact ⟨_, List.getElem_mem hi', hk.solved hsolved, by rw [hk.task, hk.seed]⟩
  · unfold BenchmarkReport.solveRate
    by_cases hnil : r.results = []
    · have hnil' : r'.results = [] := by
        rw [hnil] at h
        exact List.forall₂_nil_left_iff.mp h
      rw [if_pos hnil, if_pos hnil']
      exact MonotoneRatio.zero_not_lt
    · have hnil' : r'.results ≠ [] := by
        intro he
        rw [he] at h
        exact hnil (List.forall₂_nil_right_iff.mp h)
      rw [if_neg hnil, if_neg hnil', BenchmarkReport.runs, BenchmarkReport.runs, h.length_eq]
      exact MonotoneRatio.not_lt _ _ _ (countP_le_of_kept h)

/-- Along a scaling curve no report solves less than one under a smaller budget. -/
theorem scalingCurve_grows [MonotoneRatio K] {env : Surroundings K P E} {random : Option Int → Nat → K}
    {schedule : Arena K → List Nat → P → List PoolEvent} {counter : P → E → K × E}
    {elapsed : K → K → K} {budgets : List Nat} {base : SearchConfig K}
    {tasks : Option (List (BenchmarkTask K (P × E)))} {repeats : Nat}
    (hafresh : ∀ task ∈ tasks.getD defaultSuite, BuildsAfresh task ∧ Steady task base)
    {w w' : P × E} {reports : List (BenchmarkReport K)}
    (hrun : scalingCurve (benchRuntime env random schedule counter elapsed) budgets base tasks repeats w =
      .ok reports w') :
    ∀ x ∈ budgets.zip reports, ∀ y ∈ budgets.zip reports, x.1 ≤ y.1 → Grows x.2 y.2 := by
  obtain ⟨-, hpoint⟩ := List.forall₂_iff_zip.mp (forall₂_of_forEach hrun)
  rintro ⟨b, r⟩ hr ⟨b', r'⟩ hr' hle
  obtain ⟨u, v, hu⟩ := hpoint hr
  obtain ⟨u', v', hu'⟩ := hpoint hr'
  exact grows_of_kept (runBudget_kept hafresh hle hu' hu)

omit [PyFloat K] in
/-- The tasks of the default suite keep nothing between builds. -/
theorem sequenceTask_buildsAfresh [PyFloat K] (target : List Str) :
    BuildsAfresh (sequenceTask target : BenchmarkTask K (Unit × E)) := by
  refine ⟨fun _ => ⟨sequenceGenerate vocabulary, terminalOnlyEvaluate target, none, none, none⟩,
    fun _ => (), fun _ => none, fun _ _ _ => ⟨rfl, rfl⟩, ?_⟩
  intro c w setup w' h
  cases h
  exact ⟨rfl, fun env => rfl⟩

end Reports

section Curves

/-- Stopping early truncates a run, and so solved runs stay solved along a scaling curve. -/
theorem early_stopping_truncates [MonotoneRatio K] (p : Policies K P) {c c' : SearchConfig K}
    (env : Surroundings K P E) (env' : Surroundings K P E') (random : Option Int → Nat → K)
    (schedule : Arena K → List Nat → P → List PoolEvent) (same : c.SameSearch c')
    (unlimited : env.cancelled = none ∧ env.stopCondition = none ∧ c.maxWallSeconds = none)
    (budget : c'.maxIterations ≤ c.maxIterations) (task : Str) (q : P) (e : E) (e' : E') :
    (∀ k deadline t phase,
      AtHead (p.controller c' env') (env'.runtime random schedule) task (q, e') k deadline t →
      Stops (p.controller c' env') (env'.runtime random schedule) k deadline t phase →
      ∃ s r u, AtHead (p.controller c env) (env.runtime random schedule) task (q, e) k none s ∧
        policyCalls t.log = policyCalls s.log ∧
        (p.controller c' env').run (env'.runtime random schedule) task 0 (q, e') = .ok r u ∧
        Truncated s k phase r u) ∧
    ((∀ k deadline t phase,
        AtHead (p.controller c' env') (env'.runtime random schedule) task (q, e') k deadline t →
        ¬ Stops (p.controller c' env') (env'.runtime random schedule) k deadline t phase) →
      ∃ r r' s t, (p.controller c env).run (env.runtime random schedule) task 0 (q, e) = .ok r s ∧
        (p.controller c' env').run (env'.runtime random schedule) task 0 (q, e') = .ok r' t ∧
        SameResult r r' ∧ r'.metadata = r.metadata ∧ policyCalls t.log = policyCalls s.log) ∧
    ∀ (counter : P → E → K × E) (elapsed : K → K → K) (budgets : List Nat) (base : SearchConfig K)
      (tasks : Option (List (BenchmarkTask K (P × E)))) (repeats : Nat),
      (∀ task ∈ tasks.getD defaultSuite, BuildsAfresh task ∧ Steady task base) →
      ∀ w reports w', scalingCurve (benchRuntime env random schedule counter elapsed) budgets base tasks
          repeats w = .ok reports w' →
        ∀ x ∈ budgets.zip reports, ∀ y ∈ budgets.zip reports, x.1 ≤ y.1 → Grows x.2 y.2 :=
  ⟨fun _ _ _ _ hhead hstop => truncated_of_stops same unlimited hhead hstop,
    same_of_not_stops same unlimited budget task q e e',
    fun _ _ _ _ _ _ hafresh _ _ _ hrun => scalingCurve_grows hafresh hrun⟩

/-- One iteration of the budget of two. -/
def shorterConfig : SearchConfig ℚ where
  toConfigFields := { smallConfig.toConfigFields with maxIterations := 1 }
  checked := by decide +kernel

/-- Surroundings that neither stop nor watch a run. -/
def stillSurroundings : Surroundings ℚ Unit Unit where
  monotonic _ e := (0, e)
  freshId n := List.replicate n (CodePoint.ofChar 'n')
  cancelled := none
  stopCondition := none
  onEvent := none

/-- The policies of a sequence task. -/
def sequencePolicies : Policies ℚ Unit where
  generator := sequenceGenerate vocabulary
  evaluator := terminalOnlyEvaluate [lit "north", lit "east"]
  critic := none
  revisionPolicy := none
  rewardModel := none

/-- One iteration of a sequence task is the first of two, and no task of the default suite is
lost when a second iteration is allowed. -/
theorem early_stopping_truncates_small :
    (∃ s r, ∃ u : RunState ℚ (Unit × Unit),
      AtHead (sequencePolicies.controller smallConfig stillSurroundings)
        (stillSurroundings.runtime (fun _ _ => 0) fun _ _ _ => []) taskStatement ((), ()) 1 none s ∧
      Truncated s 1 .exhausted r u) ∧
    ∀ w reports w', scalingCurve (benchRuntime stillSurroundings (fun _ _ => 0) (fun _ _ _ => [])
        (fun _ e => (0, e)) fun a b => a - b) [1, 2] smallConfig none 1 w = .ok reports w' →
      ∀ x ∈ [1, 2].zip reports, ∀ y ∈ [1, 2].zip reports, x.1 ≤ y.1 → Grows x.2 y.2 := by
  have hsame : smallConfig.SameSearch shorterConfig :=
    ⟨by decide, rfl, rfl, rfl, rfl, rfl, rfl, rfl⟩
  obtain ⟨htruncated, -, hcurve⟩ := early_stopping_truncates sequencePolicies stillSurroundings
    stillSurroundings (fun _ _ => 0) (fun _ _ _ => []) hsame ⟨rfl, rfl, rfl⟩ (by decide) taskStatement
    () () ()
  constructor
  · -- the first lap of the shorter run, evaluated
    obtain ⟨again, t, hrun, htrue⟩ := exists_ok_of_returned (show (returned
      ((openRun (sequencePolicies.controller shorterConfig stillSurroundings)
          (stillSurroundings.runtime (fun _ _ => 0) fun _ _ _ => []) >>= fun deadline =>
        laps (sequencePolicies.controller shorterConfig stillSurroundings)
          (stillSurroundings.runtime (fun _ _ => 0) fun _ _ _ => []) deadline 1)
        (startState (stillSurroundings.runtime (fun _ _ => 0) fun _ _ _ => []) taskStatement 0
          ((), ())))).map id = some true by decide +kernel)
    subst htrue
    obtain ⟨deadline, s₀, hopen, hlaps⟩ := exists_ok_of_bind hrun
    obtain ⟨s, r, u, hhead, -, -, h⟩ := htruncated 1 deadline t _ ⟨s₀, hopen, hlaps⟩ (.budget rfl)
    exact ⟨s, r, u, hhead, h⟩
  · refine hcurve _ _ _ smallConfig none 1 fun task hmem => ?_
    obtain ⟨target, -, rfl⟩ := List.mem_map.mp hmem
    refine ⟨sequenceTask_buildsAfresh target, ?_, rfl⟩
    change smallConfig.seed ≠ none
    decide

end Curves

end CognitiveTree.Benchmark
