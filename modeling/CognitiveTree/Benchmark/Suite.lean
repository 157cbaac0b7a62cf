import CognitiveTree.Observability.Metrics

/-!
# Benchmark tasks

A task builds a new controller for each of its runs. The sequence tasks hide a sequence of
words: the generator offers every word of a vocabulary and the evaluator looks at finished
sequences only.
-/

namespace CognitiveTree.Benchmark

open Search Observability

variable {K W : Type} [PyFloat K]

/-- One task instantiated for a single run. -/
structure TaskSetup (K W : Type) [PyFloat K] where
  controller : TreeSearchController K W
  usage : Option (W → TokenUsage)

/-- The fields a task forces onto a configuration. -/
structure ConfigOverrides (K : Type) where
  maxIterations : Option Nat
  maxDepth : Option Nat
  branchingFactor : Option Nat
  explorationWeight : Option K
  acceptThreshold : Option K
  pruneThreshold : Option K
  seed : Option (Option Int)
  maxWallSeconds : Option (Option K)
  evaluationWorkers : Option Nat

omit [PyFloat K] in
/-- The fields of `replace(base, **overrides)`. -/
def ConfigOverrides.apply (o : ConfigOverrides K) (c : ConfigFields K) : ConfigFields K where
  maxIterations := o.maxIterations.getD c.maxIterations
  maxDepth := o.maxDepth.getD c.maxDepth
  branchingFactor := o.branchingFactor.getD c.branchingFactor
  explorationWeight := o.explorationWeight.getD c.explorationWeight
  acceptThreshold := o.acceptThreshold.getD c.acceptThreshold
  pruneThreshold := o.pruneThreshold.getD c.pruneThreshold
  seed := o.seed.getD c.seed
  maxWallSeconds := o.maxWallSeconds.getD c.maxWallSeconds
  evaluationWorkers := o.evaluationWorkers.getD c.evaluationWorkers

/-- A single benchmark case. -/
structure BenchmarkTask (K W : Type) [PyFloat K] where
  name : Str
  statement : Str
  build : SearchConfig K → EStateM Signal W (TaskSetup K W)
  configOverrides : ConfigOverrides K
  expectedSolution : Option Str

namespace BenchmarkTask

/-- `task.resolve_config(base)`. -/
def resolveConfig (task : BenchmarkTask K W) (base : SearchConfig K) :
    Except Exc (SearchConfig K) :=
  (task.configOverrides.apply base.toConfigFields).create

/-- `task.is_solved_by(outcome_succeeded, solution)`. -/
def isSolvedBy (task : BenchmarkTask K W) (outcomeSucceeded : Bool) (solution : Option Str) :
    Bool :=
  if outcomeSucceeded then
    match task.expectedSolution with
    | none => true
    | some expected => solution == some expected
  else false

end BenchmarkTask

section Sequences

/-- `VOCABULARY`. -/
def vocabulary : List Str := [lit "north", lit "south", lit "east", lit "west"]

/-- `TASK_STATEMENT`. -/
def taskStatement : Str := lit "Recover the hidden movement sequence."

/-- `SequencePuzzleGenerator(vocabulary).generate(node, k)`. -/
def sequenceGenerate (words : List Str) (node k : Nat) : Call K W (List Str) :=
  fun arena metadata world =>
    let before := if node = 0 then [] else (arena.node node).content
    ⟨.ok ((words.map fun token => Str.strip (before ++ lit " " ++ token)).take k), metadata, world⟩

/-- `TerminalOnlyEvaluator(target).evaluate(node)`. -/
def terminalOnlyEvaluate (target : List Str) (node : Nat) : Call K W (Evaluation K) :=
  fun arena metadata world =>
    let tokens := Str.split (arena.node node).content
    let verdict :=
      if tokens.length < target.length then
        Evaluation.create (PyFloat.div PyFloat.one (PyFloat.ofNat 2)) false
          (lit "incomplete sequence")
      else if tokens = target then Evaluation.create PyFloat.one true (lit "exact match")
      else Evaluation.create PyFloat.zero true (lit "wrong sequence")
    ⟨verdict, metadata, world⟩

/-- The controller that `sequence_task` builds. -/
def sequenceController (target : List Str) (config : SearchConfig K) :
    TreeSearchController K W where
  config := config
  generator := sequenceGenerate vocabulary
  evaluator := terminalOnlyEvaluate target
  onEvent := none
  critic := none
  revisionPolicy := none
  rewardModel := none
  stopCondition := none

/-- `sequence_task(target)`. -/
def sequenceTask (target : List Str) : BenchmarkTask K W where
  name := lit "sequence-" ++ Str.ofNat target.length ++ lit "-" ++
    Str.join (lit "-") (target.map (List.take 1))
  statement := taskStatement
  build config := pure ⟨sequenceController target config, none⟩
  configOverrides := ⟨none, some target.length, some vocabulary.length, none, none, none, none,
    none, none⟩
  expectedSolution := some (Str.join (lit " ") target)

/-- `DEFAULT_TARGETS`. -/
def defaultTargets : List (List Str) :=
  [[lit "north", lit "east"], [lit "south", lit "west"],
    [lit "west", lit "north", lit "east"], [lit "east", lit "south", lit "south"],
    [lit "west", lit "north", lit "east", lit "south"],
    [lit "east", lit "east", lit "west", lit "north"]]

/-- `default_suite()`. -/
def defaultSuite : List (BenchmarkTask K W) := defaultTargets.map sequenceTask

end Sequences

end CognitiveTree.Benchmark
