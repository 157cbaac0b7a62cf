import CognitiveTree.Search.Controller
import Mathlib.Logic.Relation

/-!
# The controller as a transition system

`Stage` names the control points of a run together with the local variables that
are alive there; `Step` lists, once, everything a run can do at each of them. All
invariants of runs are proved over these steps. The steps change the state by the
same updates the controller's methods use.
-/

namespace CognitiveTree.Search

/-- A control point of `run`, with the local variables still needed there. -/
inductive Stage (K : Type) [PyFloat K] where
  /-- before the first transition -/
  | starting
  /-- head of the main loop -/
  | boundary
  /-- a limit fired; its terminal phase is about to be entered -/
  | halting (target : SearchPhase) (note : Str)
  /-- inside `_select` -/
  | selecting
  /-- a saturated node was not revived and is about to be pruned -/
  | refused (n : Nat)
  /-- `_select` returned this node -/
  | opened (n : Nat) (revived : Bool)
  /-- between the two notifications of a revision -/
  | reviving (n : Nat)
  /-- the generator is about to be called -/
  | expanding (n : Nat)
  /-- inside the candidate loop of `_expand` -/
  | attaching (n : Nat) (todo seen : List Str) (batch : List Nat)
  /-- an expansion without children, before its prune -/
  | barren (n : Nat)
  /-- and after its prune -/
  | retreated
  /-- inside `_collect_verdicts`, with the evaluator's answers so far -/
  | collecting (n : Nat) (batch : List Nat)
      (results : List (Nat × Except Exc (Evaluation K)))
  /-- head of the verdict loop of `_evaluate` -/
  | judging (n : Nat) (todo : List (Nat × Evaluation K)) (solution : Option Nat)
      (valued : List (Nat × K))
  /-- the verdict of one child is stored -/
  | diagnosing (n c : Nat) (v : Evaluation K) (todo : List (Nat × Evaluation K))
      (solution : Option Nat) (valued : List (Nat × K))
  /-- and its critique, if any, obtained -/
  | shaping (n c : Nat) (v : Evaluation K) (critique : Option (Critique K))
      (todo : List (Nat × Evaluation K)) (solution : Option Nat) (valued : List (Nat × K))
  /-- before `_backpropagate` -/
  | propagating (n : Nat) (solution : Option Nat) (valued : List (Nat × K))
  /-- and after it -/
  | settled (n : Nat) (solution : Option Nat)
  /-- an exception reached the handler of `run` -/
  | faulted (e : Exc)
  /-- a terminal phase was entered -/
  | ended

variable {K W : Type} [PyFloat K]

/-- Where an exception raised by the event sink leads: a run already over stays over. -/
def Stage.afterFault (st : Stage K) (e : Exc) : Stage K :=
  match st with
  | .ended => .ended
  | _ => .faulted e

/-- The solution after one more verdict of the given status. -/
def nextSolution (status : NodeStatus) (c : Nat) (solution : Option Nat) : Option Nat :=
  if status = .terminal ∧ solution = none then some c else solution

section Steps

variable (ctl : TreeSearchController K W) (rt : Runtime K W)

/-- The calls of `_advance`: from a stage, with these arguments, into a stage. -/
inductive Edge (s : RunState K W) :
    Stage K → SearchPhase → Option Nat → Str → Stage K → Prop
  | start : Edge s .starting .selection none (lit "search started") .boundary
  | halt (target : SearchPhase) (note : Str) : Edge s (.halting target note) target none note .ended
  | spent : ctl.config.maxIterations ≤ s.iteration →
      Edge s .boundary .exhausted none (lit "iteration budget spent") .ended
  | frontierEmpty : (s.tree.arena.node 0).isLive = false →
      Edge s .selecting .exhausted none (lit "frontier empty") .ended
  | reopen (n : Nat) : Edge s (.opened n true) .backtracking (some n)
      (lit "reopened node for revision attempt") (.reviving n)
  | prepared (n : Nat) : Edge s (.reviving n) .selection (some n)
      (lit "revision notes prepared") (.opened n false)
  | expand (n : Nat) : Edge s (.opened n false) .expansion (some n) [] (.expanding n)
  | deadEnd (n : Nat) (seen : List Str) : Edge s (.attaching n [] seen []) .backtracking (some n)
      (lit "expansion produced no candidates") (.barren n)
  | backtracked : Edge s .retreated .selection none (lit "backtracked") .boundary
  | candidates (n : Nat) (seen : List Str) (batch : List Nat) : batch ≠ [] →
      Edge s (.attaching n [] seen batch) .evaluation (some n)
        (Str.ofNat batch.length ++ lit " candidates") (.collecting n batch [])
  | valued (n : Nat) (solution : Option Nat) (values : List (Nat × K)) :
      Edge s (.judging n [] solution values) .backpropagation (some n) []
        (.propagating n solution values)
  | iterated (n : Nat) :
      Edge s (.settled n none) .selection none (lit "iteration complete") .boundary
  | accepted (n c : Nat) : Edge s (.settled n (some c)) .succeeded (some c)
      (lit "accepted with score " ++ PyFloat.fixed3 (s.tree.arena.node c).score) .ended
  | failed (e : Exc) : Edge s (.faulted e) .failed none e.describe .ended

section Mirrored

variable (s : RunState K W) (target : SearchPhase) (node : Option Nat) (detail : Str)

/-- The sink reads the run but changes nothing of it. -/
theorem RunState.mirrored_fields : (s.mirrored ctl rt target node detail).1.tree = s.tree ∧
    (s.mirrored ctl rt target node detail).1.machine = s.machine ∧
    (s.mirrored ctl rt target node detail).1.metadata = s.metadata ∧
    (s.mirrored ctl rt target node detail).1.iteration = s.iteration ∧
    (s.mirrored ctl rt target node detail).1.draws = s.draws := by
  unfold mirrored
  split
  · exact ⟨rfl, rfl, rfl, rfl, rfl⟩
  · split <;> exact ⟨rfl, rfl, rfl, rfl, rfl⟩

/-- Its only trace in the log is the exception it raised, if any. -/
theorem RunState.mirrored_log : (s.mirrored ctl rt target node detail).1.log =
    ((s.mirrored ctl rt target node detail).2.map Obs.sinkRaised).toList ++ s.log := by
  unfold mirrored
  split
  · rfl
  · split <;> rfl

/-- A reaction that raises is an answer of the sink. -/
theorem RunState.mirrored_raised {e : Exc}
    (h : (s.mirrored ctl rt target node detail).2 = some e) :
    ∃ sink event tree world, ctl.onEvent = some sink ∧
      (sink event tree world).1 = .error e ∧ event.phase = target := by
  unfold mirrored at h
  split at h
  · cases h
  · rename_i sink hsink
    split at h
    · cases h
    · rename_i answer
      cases h
      exact ⟨sink, _, _, _, hsink, congrArg Prod.fst answer, rfl⟩

end Mirrored

/-- A node from which selection cannot descend: it has children and none is live. -/
def Saturated (a : Arena K) (n : Nat) : Prop :=
  (a.node n).children ≠ [] ∧ a.liveChildren n = []

/-- Everything a run can do, one constructor for each action of the controller. -/
inductive Step : Stage K × RunState K W → Stage K × RunState K W → Prop
  /-- `_advance` succeeds -/
  | advance {s : RunState K W} {st st' : Stage K} {target node detail}
      (edge : Edge ctl s st target node detail st') (h : s.machine.canTransition target = true)
      (quiet : ((s.transitioned rt target node detail h).mirrored ctl rt target node detail).2 =
        none) :
      Step (st, s)
        (st', ((s.transitioned rt target node detail h).mirrored ctl rt target node detail).1)
  /-- the transition is made and the event sink raises -/
  | advanceRaised {s : RunState K W} {st st' : Stage K} {target node detail} {e : Exc}
      (edge : Edge ctl s st target node detail st') (h : s.machine.canTransition target = true)
      (raised : ((s.transitioned rt target node detail h).mirrored ctl rt target node detail).2 =
        some e) :
      Step (st, s) (st'.afterFault e,
        ((s.transitioned rt target node detail h).mirrored ctl rt target node detail).1)
  /-- after a sink that raised at the end the handler asks for a transition that the table
  forbids -/
  | refuse {s : RunState K W} {e : Exc} (source target : SearchPhase)
      (sink : s.log.head? = some (.sinkRaised e)) :
      Step (.ended, s) (.ended, s.noted (.refused source target))
  | mark {s : RunState K W} :
      Step (.boundary, s)
        (.boundary, s.noted (.boundary s.iteration s.tree.arena s.machine.history))
  /-- the cancel event is polled -/
  | pollCancel {s : RunState K W} {isSet} (event : rt.cancelled = some isSet) :
      Step (.boundary, s) (if (isSet s.world).1 then
        .halting .cancelled (lit "run cancelled by its caller") else .boundary,
        s.inWorld (isSet s.world).2)
  /-- the deadline is compared with the clock -/
  | pollDeadline {s : RunState K W} (limit : K) (budget : ctl.config.maxWallSeconds ≠ none) :
      Step (.boundary, s) (if PyFloat.le limit (rt.monotonic s.world).1 then
        .halting .timedOut (lit "wall-clock budget of " ++
          (ctl.config.maxWallSeconds.map PyFloat.general).getD [] ++ lit "s exhausted")
        else .boundary, s.inWorld (rt.monotonic s.world).2)
  /-- the stop condition gives a reason -/
  | stop {s : RunState K W} {check reason} (condition : ctl.stopCondition = some check)
      (answer : (check s.world).1 = .ok (some reason)) (nonempty : reason ≠ []) :
      Step (.boundary, s) (.halting .budgetExhausted reason,
        (s.inWorld (check s.world).2).noted (.check (check s.world).1))
  /-- the stop condition gives none, or an empty one -/
  | continue {s : RunState K W} {check reason} (condition : ctl.stopCondition = some check)
      (answer : (check s.world).1 = .ok reason) (silent : reason = none ∨ reason = some []) :
      Step (.boundary, s)
        (.boundary, (s.inWorld (check s.world).2).noted (.check (check s.world).1))
  | stopRaised {s : RunState K W} {check e} (condition : ctl.stopCondition = some check)
      (answer : (check s.world).1 = .error e) :
      Step (.boundary, s)
        (.faulted e, (s.inWorld (check s.world).2).noted (.check (check s.world).1))
  /-- an iteration starts with `_select` -/
  | begin {s : RunState K W} (budget : s.iteration < ctl.config.maxIterations) :
      Step (.boundary, s) (.selecting,
        { s with iteration := s.iteration + 1, log := .selection s.tree.arena :: s.log })
  /-- the descent moves to one of several live children -/
  | pick {s : RunState K W} (live : List Nat) (scores : List K) :
      Step (.selecting, s) (.selecting,
        { s with draws := s.draws + live.length, log := .pick live scores s.draws :: s.log })
  /-- a depth-capped leaf is removed -/
  | cap {s : RunState K W} {n : Nat} (alloc : n < s.tree.arena.size)
      (live : (s.tree.arena.node n).isLive = true) (leaf : (s.tree.arena.node n).children = [])
      (deep : ctl.config.maxDepth ≤ (s.tree.arena.node n).depth) :
      Step (.selecting, s) (.selecting, s.pruned n)
  /-- a leaf above the depth cap is chosen -/
  | found {s : RunState K W} {n : Nat} (alloc : n < s.tree.arena.size)
      (live : (s.tree.arena.node n).isLive = true) (leaf : (s.tree.arena.node n).children = [])
      (shallow : (s.tree.arena.node n).depth < ctl.config.maxDepth) :
      Step (.selecting, s) (.opened n false, s)
  /-- a saturated node meets no revision policy -/
  | unrevised {s : RunState K W} {n : Nat} (alloc : n < s.tree.arena.size)
      (live : (s.tree.arena.node n).isLive = true) (saturated : Saturated s.tree.arena n)
      (policy : ctl.revisionPolicy = none) :
      Step (.selecting, s) (.refused n, s)
  /-- the revision policy is asked about a saturated node -/
  | revise {s : RunState K W} {n : Nat} {policy} {reply : Reply K W Bool} {granted : Bool}
      (alloc : n < s.tree.arena.size) (live : (s.tree.arena.node n).isLive = true)
      (saturated : Saturated s.tree.arena n) (hpolicy : ctl.revisionPolicy = some policy)
      (hreply : reply = policy n s.tree.arena s.metadata s.world)
      (answer : reply.answer = .ok granted) :
      Step (.selecting, s) (if granted then .opened n true else .refused n,
        s.consulted reply (.revise n reply.answer))
  | reviseRaised {s : RunState K W} {n : Nat} {policy} {reply : Reply K W Bool} {e : Exc}
      (alloc : n < s.tree.arena.size) (live : (s.tree.arena.node n).isLive = true)
      (saturated : Saturated s.tree.arena n) (hpolicy : ctl.revisionPolicy = some policy)
      (hreply : reply = policy n s.tree.arena s.metadata s.world)
      (answer : reply.answer = .error e) :
      Step (.selecting, s) (.faulted e, s.consulted reply (.revise n reply.answer))
  /-- a saturated node collapses -/
  | collapse {s : RunState K W} {n : Nat} : Step (.refused n, s) (.selecting, s.pruned n)
  | generate {s : RunState K W} {n : Nat} {reply : Reply K W (List Str)}
      {candidates : List Str}
      (hreply : reply = ctl.generator n ctl.config.branchingFactor s.tree.arena s.metadata s.world)
      (answer : reply.answer = .ok candidates) :
      Step (.expanding n, s)
        (.attaching n (candidates.take ctl.config.branchingFactor)
          ((s.tree.arena.node n).children.map fun c => (s.tree.arena.node c).content) [],
        s.consulted reply (.generate n ctl.config.branchingFactor reply.answer))
  | generateRaised {s : RunState K W} {n : Nat} {reply : Reply K W (List Str)} {e : Exc}
      (hreply : reply = ctl.generator n ctl.config.branchingFactor s.tree.arena s.metadata s.world)
      (answer : reply.answer = .error e) :
      Step (.expanding n, s)
        (.faulted e, s.consulted reply (.generate n ctl.config.branchingFactor reply.answer))
  /-- a blank or repeated candidate is dropped -/
  | skip {s : RunState K W} {n : Nat} {content : Str} {rest seen : List Str} {batch : List Nat}
      (dropped : Str.strip content = [] ∨ Str.strip content ∈ seen) :
      Step (.attaching n (content :: rest) seen batch, s) (.attaching n rest seen batch, s)
  /-- a new candidate becomes a child -/
  | attach {s : RunState K W} {n : Nat} {content : Str} {rest seen : List Str}
      {batch : List Nat} {c : Nat} {tree : ThoughtTree K}
      (nonempty : Str.strip content ≠ []) (new : Str.strip content ∉ seen)
      (added : s.tree.addChild rt.freshId n (Str.strip content) = .ok (c, tree)) :
      Step (.attaching n (content :: rest) seen batch, s)
        (.attaching n rest (Str.strip content :: seen) (batch ++ [c]), s.grown c tree)
  /-- a node whose expansion produced nothing is removed -/
  | retreat {s : RunState K W} {n : Nat} : Step (.barren n, s) (.retreated, s.pruned n)
  /-- the evaluator answers, or raises, on one candidate of the batch -/
  | evaluate {s : RunState K W} {n c : Nat} {batch : List Nat}
      {results : List (Nat × Except Exc (Evaluation K))} {reply : Reply K W (Evaluation K)}
      (pending : c ∈ batch) (fresh : c ∉ results.map Prod.fst)
      (hreply : reply = ctl.evaluator c s.tree.arena s.metadata s.world) :
      Step (.collecting n batch results, s) (.collecting n batch (results ++ [(c, reply.answer)]),
        s.consulted reply (.evaluate c reply.answer))
  /-- every candidate has its verdict -/
  | collected {s : RunState K W} {n : Nat} {batch : List Nat}
      {results : List (Nat × Except Exc (Evaluation K))} {verdicts : List (Nat × Evaluation K)}
      (order : verdicts.map Prod.fst = batch)
      (answers : ∀ cv ∈ verdicts, (cv.1, .ok cv.2) ∈ results) :
      Step (.collecting n batch results, s) (.judging n verdicts none [], s)
  /-- the first candidate without a verdict decides the exception -/
  | collectRaised {s : RunState K W} {n c : Nat} {batch before after : List Nat}
      {results : List (Nat × Except Exc (Evaluation K))} {e : Exc}
      (order : batch = before ++ c :: after)
      (earlier : ∀ d ∈ before, ∃ v, (d, .ok v) ∈ results)
      (failure : (c, .error e) ∈ results) :
      Step (.collecting n batch results, s) (.faulted e, s)
  /-- the next verdict is stored on its node -/
  | judge {s : RunState K W} {n c : Nat} {v : Evaluation K} {todo : List (Nat × Evaluation K)}
      {solution : Option Nat} {values : List (Nat × K)} :
      Step (.judging n ((c, v) :: todo) solution values, s)
        (.diagnosing n c v todo solution values, s.judged c v (verdictStatus ctl.config v))
  /-- the critic is absent, or the child was not pruned -/
  | unexamined {s : RunState K W} {n c : Nat} {v : Evaluation K}
      {todo : List (Nat × Evaluation K)} {solution : Option Nat} {values : List (Nat × K)}
      (skipped : ctl.critic = none ∨ verdictStatus ctl.config v ≠ .pruned) :
      Step (.diagnosing n c v todo solution values, s) (.shaping n c v none todo solution values, s)
  /-- the critic reports nothing -/
  | uncritiqued {s : RunState K W} {n c : Nat} {v : Evaluation K}
      {todo : List (Nat × Evaluation K)} {solution : Option Nat} {values : List (Nat × K)}
      {critic} {reply : Reply K W (Option (Critique K))} (hcritic : ctl.critic = some critic)
      (rejected : verdictStatus ctl.config v = .pruned)
      (hreply : reply = critic c s.tree.arena s.metadata s.world)
      (answer : reply.answer = .ok none) :
      Step (.diagnosing n c v todo solution values, s)
        (.shaping n c v none todo solution values, s.consulted reply (.critique c reply.answer))
  /-- the critique is stored in the child's metadata -/
  | critiqued {s : RunState K W} {n c : Nat} {v : Evaluation K}
      {todo : List (Nat × Evaluation K)} {solution : Option Nat} {values : List (Nat × K)}
      {critic} {reply : Reply K W (Option (Critique K))} {critique : Critique K}
      (hcritic : ctl.critic = some critic) (rejected : verdictStatus ctl.config v = .pruned)
      (hreply : reply = critic c s.tree.arena s.metadata s.world)
      (answer : reply.answer = .ok (some critique)) :
      Step (.diagnosing n c v todo solution values, s)
        (.shaping n c v (some critique) todo solution values,
        (s.consulted reply (.critique c reply.answer)).annotated c critique)
  | critiqueRaised {s : RunState K W} {n c : Nat} {v : Evaluation K}
      {todo : List (Nat × Evaluation K)} {solution : Option Nat} {values : List (Nat × K)}
      {critic} {reply : Reply K W (Option (Critique K))} {e : Exc}
      (hcritic : ctl.critic = some critic)
      (hreply : reply = critic c s.tree.arena s.metadata s.world)
      (answer : reply.answer = .error e) :
      Step (.diagnosing n c v todo solution values, s)
        (.faulted e, s.consulted reply (.critique c reply.answer))
  /-- without a reward model the raw score is the value -/
  | unshaped {s : RunState K W} {n c : Nat} {v : Evaluation K} {critique : Option (Critique K)}
      {todo : List (Nat × Evaluation K)} {solution : Option Nat} {values : List (Nat × K)}
      (hmodel : ctl.rewardModel = none) :
      Step (.shaping n c v critique todo solution values, s)
        (.judging n todo (nextSolution (verdictStatus ctl.config v) c solution)
          (values ++ [(c, v.score)]), s)
  | shape {s : RunState K W} {n c : Nat} {v : Evaluation K} {critique : Option (Critique K)}
      {todo : List (Nat × Evaluation K)} {solution : Option Nat} {values : List (Nat × K)}
      {model} {reply : Reply K W K} {value : K} (hmodel : ctl.rewardModel = some model)
      (hreply : reply = model c v.score critique s.tree.arena s.metadata s.world)
      (answer : reply.answer = .ok value) :
      Step (.shaping n c v critique todo solution values, s)
        (.judging n todo (nextSolution (verdictStatus ctl.config v) c solution)
          (values ++ [(c, value)]), s.consulted reply (.shape c v.score critique reply.answer))
  | shapeRaised {s : RunState K W} {n c : Nat} {v : Evaluation K} {critique : Option (Critique K)}
      {todo : List (Nat × Evaluation K)} {solution : Option Nat} {values : List (Nat × K)}
      {model} {reply : Reply K W K} {e : Exc} (hmodel : ctl.rewardModel = some model)
      (hreply : reply = model c v.score critique s.tree.arena s.metadata s.world)
      (answer : reply.answer = .error e) :
      Step (.shaping n c v critique todo solution values, s)
        (.faulted e, s.consulted reply (.shape c v.score critique reply.answer))
  /-- the batch's values reach the root -/
  | credit {s : RunState K W} {n : Nat} {solution : Option Nat} {values : List (Nat × K)} :
      Step (.propagating n solution values, s) (.settled n solution, s.credited values)

/-- Finitely many steps. -/
abbrev Steps : Stage K × RunState K W → Stage K × RunState K W → Prop :=
  Relation.ReflTransGen (Step ctl rt)

/-- The configurations a run of `task` can reach, in whatever world the deadline's
clock left. -/
def Reach (task : Str) (draws : Nat) (c : Stage K × RunState K W) : Prop :=
  ∃ world, Steps ctl rt (.starting, startState rt task draws world) c

end Steps

namespace Reach

variable {ctl : TreeSearchController K W} {rt : Runtime K W} {task : Str} {draws : Nat}
  {c c' : Stage K × RunState K W}

theorem start (world : W) :
    Reach ctl rt task draws (.starting, startState rt task draws world) :=
  ⟨world, .refl⟩

theorem step (h : Reach ctl rt task draws c) (hs : Step ctl rt c c') :
    Reach ctl rt task draws c' := by
  obtain ⟨world, hr⟩ := h
  exact ⟨world, hr.tail hs⟩

/-- What holds initially and is kept by every step holds wherever a run can be. -/
theorem invariant {P : Stage K × RunState K W → Prop}
    (initial : ∀ world, P (.starting, startState rt task draws world))
    (preserved : ∀ c c', P c → Step ctl rt c c' → P c')
    (h : Reach ctl rt task draws c) : P c := by
  obtain ⟨world, hr⟩ := h
  induction hr with
  | refl => exact initial world
  | tail _ hs ih => exact preserved _ _ ih hs

end Reach

end CognitiveTree.Search
