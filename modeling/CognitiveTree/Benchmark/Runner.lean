import CognitiveTree.Benchmark.Suite
import Mathlib.Data.Set.Defs

/-!
# Running benchmarks

Every repeat of every task runs on a controller of its own. A scaling curve repeats the
whole benchmark under several iteration budgets.
-/

namespace CognitiveTree.Benchmark

open Search

variable {K W α : Type} [PyFloat K]

/-- Outcome of one task under one seed. -/
structure TaskResult (K : Type) where
  task : Str
  seed : Option Int
  outcome : Str
  solved : Bool
  iterations : Nat
  nodes : Nat
  wallSeconds : K
  tokens : Option Int

/-- Aggregate of every task and seed in one benchmark run. -/
structure BenchmarkReport (K : Type) where
  label : Str
  results : List (TaskResult K)

namespace BenchmarkReport

omit [PyFloat K] in
/-- `report.runs`. -/
def runs (r : BenchmarkReport K) : Nat := r.results.length

omit [PyFloat K] in
/-- `report.solved`. -/
def solved (r : BenchmarkReport K) : Nat := r.results.countP fun result => result.solved

/-- `report.solve_rate`. -/
def solveRate (r : BenchmarkReport K) : K :=
  if r.results = [] then PyFloat.zero
  else PyFloat.div (PyFloat.ofNat r.solved) (PyFloat.ofNat r.runs)

omit [PyFloat K] in
/-- The tasks and seeds of the solved runs. -/
def solvedSet (r : BenchmarkReport K) : Set (Str × Option Int) :=
  {x | ∃ result ∈ r.results, result.solved = true ∧ (result.task, result.seed) = x}

end BenchmarkReport

/-- What the benchmark asks of its surroundings besides the runs' own runtime. -/
structure BenchRuntime (K W : Type) where
  runtime : Runtime K W
  /-- `time.perf_counter()` -/
  perfCounter : W → K × W
  /-- `a - b` on its readings -/
  elapsed : K → K → K

/-- A program of the benchmark. -/
abbrev Bench (W α : Type) := EStateM Signal W α

/-- An answer or an exception of a constructor. -/
def accepted : Except Exc α → Bench W α
  | .ok a => pure a
  | .error e => throw (.raised e)

theorem accepted_ok {x : Except Exc α} {a : α} {w w' : W}
    (h : accepted x w = .ok a w') : x = .ok a ∧ w' = w := by
  cases x with
  | ok b =>
    cases h
    exact ⟨rfl, rfl⟩
  | error e => cases h

variable (env : BenchRuntime K W)

/-- `setup.controller.run(task.statement)` on a new controller, without a cancel event. -/
def runController (ctl : TreeSearchController K W) (statement : Str) : Bench W (SearchResult K) :=
  fun world => match ctl.run { env.runtime with cancelled := none } statement 0 world with
    | .ok r s => .ok r s.world
    | .error e s => .error e s.world

/-- `time.perf_counter()`. -/
def readCounter : Bench W K := fun world => .ok (env.perfCounter world).1 (env.perfCounter world).2

/-- `_seeded(config, repeat)`. -/
def seeded (config : SearchConfig K) (repeatIndex : Nat) : Except Exc (SearchConfig K) :=
  match config.seed with
  | none => .ok config
  | some seed => ConfigFields.create { config.toConfigFields with seed := some (seed + repeatIndex) }

/-- One repeat of a task. -/
def runTask (task : BenchmarkTask K W) (base : SearchConfig K) (repeatIndex : Nat) :
    Bench W (TaskResult K) := do
  let effective ← accepted (seeded base repeatIndex)
  let setup ← task.build effective
  let started ← readCounter env
  let result ← runController env setup.controller task.statement
  let finished ← readCounter env
  let world ← get
  pure {
    task := task.name
    seed := effective.seed
    outcome := result.outcome.value
    solved := task.isSolvedBy (result.outcome == .succeeded) result.solution
    iterations := result.iterations
    nodes := result.nodeCount
    wallSeconds := env.elapsed finished started
    tokens := setup.usage.map fun usage => (usage world).totalTokens }

/-- `run_benchmark(config, tasks, label, repeats)` without an archive directory. -/
def runBenchmark (config : SearchConfig K) (tasks : Option (List (BenchmarkTask K W)))
    (label : Str) (repeats : Nat) : Bench W (BenchmarkReport K) := do
  if repeats < 1 then throw (.raised (valueError (lit "repeats must be a positive integer")))
  else
    let results ← forEach (fun task => do
      let base ← accepted (task.resolveConfig config)
      forEach (runTask env task base) (List.range repeats)) (tasks.getD defaultSuite)
    pure ⟨label, results.flatten⟩

/-- One point of a scaling curve. -/
def runBudget (base : SearchConfig K) (tasks : Option (List (BenchmarkTask K W))) (repeats : Nat)
    (budget : Nat) : Bench W (BenchmarkReport K) := do
  let config ← accepted
    (ConfigFields.create { base.toConfigFields with maxIterations := budget })
  runBenchmark env config tasks (lit "budget=" ++ Str.ofNat budget) repeats

/-- `scaling_curve(budgets, config, tasks, repeats)`. -/
def scalingCurve (budgets : List Nat) (base : SearchConfig K)
    (tasks : Option (List (BenchmarkTask K W))) (repeats : Nat) :
    Bench W (List (BenchmarkReport K)) :=
  forEach (runBudget env base tasks repeats) budgets

end CognitiveTree.Benchmark
