import CognitiveTree.Core.Rational
import CognitiveTree.Search.Controller

/-!
# Policies that answer from the root path

The policies of the benchmark suite look at nothing but the contents along the path
from the root. `PathGenerator` and `PathEvaluator` say so of a controller; the
plain controllers built here have no optional policy and no other input.
-/

namespace CognitiveTree.Search

variable {K W : Type} [PyFloat K]

namespace TreeSearchController

/-- The generator never raises and its candidates depend on the root path alone. -/
def PathGenerator (ctl : TreeSearchController K W) (children : List Str → List Str) : Prop :=
  ∀ node arena metadata world,
    (ctl.generator node ctl.config.branchingFactor arena metadata world).answer =
      .ok (children (arena.pathContents node))

/-- The evaluator never raises and its verdict depends on the root path alone. -/
def PathEvaluator (ctl : TreeSearchController K W) (verdict : List Str → Evaluation K) : Prop :=
  ∀ node arena metadata world,
    (ctl.evaluator node arena metadata world).answer = .ok (verdict (arena.pathContents node))

end TreeSearchController

/-- The controller with these two policies and no other. -/
def pathController (config : SearchConfig K) (children : List Str → List Str)
    (verdict : List Str → Evaluation K) : TreeSearchController K W where
  config := config
  generator node _ arena metadata world :=
    ⟨.ok (children (arena.pathContents node)), metadata, world⟩
  evaluator node arena metadata world :=
    ⟨.ok (verdict (arena.pathContents node)), metadata, world⟩
  onEvent := none
  critic := none
  revisionPolicy := none
  rewardModel := none
  stopCondition := none

theorem pathController_generator (config : SearchConfig K) (children : List Str → List Str)
    (verdict : List Str → Evaluation K) :
    (pathController config children verdict : TreeSearchController K W).PathGenerator children :=
  fun _ _ _ _ => rfl

theorem pathController_evaluator (config : SearchConfig K) (children : List Str → List Str)
    (verdict : List Str → Evaluation K) :
    (pathController config children verdict : TreeSearchController K W).PathEvaluator verdict :=
  fun _ _ _ _ => rfl

/-- A runtime whose clock stands still and whose caller never cancels. -/
def Runtime.still (random : Option Int → Nat → K) : Runtime K W where
  monotonic world := (PyFloat.zero, world)
  random := random
  freshId n := List.replicate n (CodePoint.ofChar 'n')
  cancelled := none
  schedule _ _ _ := []

theorem Runtime.still_freshId_injective (random : Option Int → Nat → K) :
    Function.Injective (Runtime.still random : Runtime K W).freshId := by
  intro m n h
  simpa [Runtime.still] using congrArg List.length h

/-- The configuration of the concrete runs: two iterations of two candidates. -/
def smallConfig : SearchConfig ℚ where
  maxIterations := 2
  maxDepth := 2
  branchingFactor := 2
  explorationWeight := 0
  acceptThreshold := 19 / 20
  pruneThreshold := 1 / 5
  seed := some 1
  maxWallSeconds := none
  evaluationWorkers := 1
  checked := by decide +kernel

/-- A verdict on an unfinished candidate. -/
def halfway : Evaluation ℚ := ⟨1 / 2, false, [], by decide +kernel⟩

end CognitiveTree.Search
