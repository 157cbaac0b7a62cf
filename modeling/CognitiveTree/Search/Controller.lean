import CognitiveTree.Core.Program
import CognitiveTree.Search.Policy

/-!
# The search controller

The controller's methods as stateful programs, one per method of the source. The
state holds what the source keeps in local variables and objects of the run, plus
a log of every external call, every accepted or refused transition and every prune.
The log is only ever written; statements about runs read it.
-/

namespace CognitiveTree.Search

/-- Final disposition of a run. -/
inductive SearchOutcome where
  | succeeded
  | exhausted
  | failed
  | timedOut
  | budgetExhausted
  | cancelled
  deriving DecidableEq, Repr

/-- The enumeration value. -/
def SearchOutcome.value : SearchOutcome → Str
  | .succeeded => lit "succeeded"
  | .exhausted => lit "exhausted"
  | .failed => lit "failed"
  | .timedOut => lit "timed_out"
  | .budgetExhausted => lit "budget_exhausted"
  | .cancelled => lit "cancelled"

/-- `_OUTCOME_BY_PHASE`. -/
def outcomeByPhase : SearchPhase → Option SearchOutcome
  | .succeeded => some .succeeded
  | .exhausted => some .exhausted
  | .failed => some .failed
  | .timedOut => some .timedOut
  | .budgetExhausted => some .budgetExhausted
  | .cancelled => some .cancelled
  | _ => none

/-- One observable action of a run. -/
inductive Obs (K : Type) [PyFloat K] where
  /-- the head of the main loop is reached -/
  | boundary (iteration : Nat) (arena : Arena K) (history : List (PhaseTransition K))
  /-- `stop_condition.check()` -/
  | check (answer : Except Exc (Option Str))
  /-- an accepted transition, with the event's iteration and node and the live tree -/
  | transition (record : PhaseTransition K) (iteration : Nat) (node : Option Nat)
      (tree : ThoughtTree K)
  /-- a transition the table forbids -/
  | refused (source target : SearchPhase)
  /-- the event sink raised -/
  | sinkRaised (error : Exc)
  /-- `_select` starts on this tree -/
  | selection (arena : Arena K)
  /-- `max` over live children with their UCT scores, from this RNG position -/
  | pick (live : List Nat) (scores : List K) (position : Nat)
  /-- `prune_subtree(node)` changed this many nodes -/
  | pruned (node count : Nat)
  /-- `revision_policy.revise(node)` -/
  | revise (node : Nat) (answer : Except Exc Bool)
  /-- `generator.generate(node, k)` -/
  | generate (node k : Nat) (answer : Except Exc (List Str))
  /-- `evaluator.evaluate(node)` -/
  | evaluate (node : Nat) (answer : Except Exc (Evaluation K))
  /-- `critic.critique(node)` -/
  | critique (node : Nat) (answer : Except Exc (Option (Critique K)))
  /-- `reward_model.shape(node, base, critique)` -/
  | shape (node : Nat) (base : K) (critique : Option (Critique K)) (answer : Except Exc K)
  /-- `_backpropagate(valued)` -/
  | backpropagated (valued : List (Nat × K))

/-- The action is an external call that raised. -/
def Obs.raised {K : Type} [PyFloat K] : Obs K → Bool
  | .check (.error _) => true
  | .sinkRaised _ => true
  | .revise _ (.error _) => true
  | .generate _ _ (.error _) => true
  | .evaluate _ (.error _) => true
  | .critique _ (.error _) => true
  | .shape _ _ _ (.error _) => true
  | _ => false

/-- The state of one run. -/
structure RunState (K W : Type) [PyFloat K] where
  tree : ThoughtTree K
  metadata : Nat → Metadata K
  machine : SearchStateMachine K
  iteration : Nat
  /-- how many values the controller's RNG has produced since its construction -/
  draws : Nat
  world : W
  /-- observed actions, newest first -/
  log : List (Obs K)

/-- Why a program stops early: a Python exception, or loop fuel that ran out. -/
inductive Signal where
  | raised (e : Exc)
  | diverged

/-- A method body: stateful, with exceptions that keep the state. -/
abbrev Run (K W α : Type) [PyFloat K] := EStateM Signal (RunState K W) α

variable {K W α : Type} [PyFloat K]

/-- The state with one more logged action. -/
def RunState.noted (s : RunState K W) (o : Obs K) : RunState K W := { s with log := o :: s.log }

/-- The state in a changed world. -/
def RunState.inWorld (s : RunState K W) (world : W) : RunState K W := { s with world := world }

/-- Append to the log. -/
def observe (o : Obs K) : Run K W PUnit := modify fun s => s.noted o

def raise (e : Exc) : Run K W α := throw (.raised e)

/-- The value of an answer; an exception propagates. -/
def answered : Except Exc α → Run K W α
  | .ok a => pure a
  | .error e => raise e

/-- The state after a policy call. -/
def RunState.consulted (s : RunState K W) (reply : Reply K W α) (o : Obs K) : RunState K W :=
  { s with metadata := reply.metadata, world := reply.world, log := o :: s.log }

/-- Call a policy and keep its answer as a value, raised or not. -/
def attempt (call : Call K W α) (o : Except Exc α → Obs K) : Run K W (Except Exc α) := do
  let s ← get
  let reply := call s.tree.arena s.metadata s.world
  set (s.consulted reply (o reply.answer))
  pure reply.answer

/-- Call a policy; its exception propagates. -/
def consult (call : Call K W α) (o : Except Exc α → Obs K) : Run K W α := do
  answered (← attempt call o)

section Controller

variable (ctl : TreeSearchController K W) (rt : Runtime K W)

/-- The state after an accepted transition. -/
def RunState.transitioned (s : RunState K W) (target : SearchPhase) (node : Option Nat)
    (detail : Str) (h : s.machine.canTransition target = true) : RunState K W :=
  let now := (rt.monotonic s.world).1
  { s with
    machine := s.machine.record target detail now h
    world := (rt.monotonic s.world).2
    log := .transition ⟨s.machine.phase, target, detail, now⟩ s.iteration node s.tree :: s.log }

/-- `machine.transition(target, detail)`. -/
def transition (target : SearchPhase) (node : Option Nat) (detail : Str) : Run K W PUnit := do
  let s ← get
  if h : s.machine.canTransition target = true then
    set (s.transitioned rt target node detail h)
  else do
    observe (.refused s.machine.phase target)
    raise (invalidTransition s.machine.phase target)

/-- The event sink's reaction to a transition: the state after it, and its exception. -/
def RunState.mirrored (s : RunState K W) (target : SearchPhase) (node : Option Nat)
    (detail : Str) : RunState K W × Option Exc :=
  match ctl.onEvent with
  | none => (s, none)
  | some sink =>
    match sink ⟨s.iteration, target, node.map rt.freshId, detail⟩ s.tree s.world with
    | (.ok _, world) => (s.inWorld world, none)
    | (.error e, world) => ((s.inWorld world).noted (.sinkRaised e), some e)

/-- Mirror a transition to the event sink. -/
def notify (target : SearchPhase) (node : Option Nat) (detail : Str) : Run K W PUnit := do
  let s ← get
  let reaction := s.mirrored ctl rt target node detail
  set reaction.1
  match reaction.2 with
  | none => pure ()
  | some e => raise e

/-- `_advance`. -/
def advance (target : SearchPhase) (node : Option Nat) (detail : Str) : Run K W PUnit := do
  transition rt target node detail
  notify ctl rt target node detail

/-- The state after a prune, with the number of changed nodes in the log. -/
def RunState.pruned (s : RunState K W) (node : Nat) : RunState K W :=
  let arena := (s.tree.arena.pruneSubtree node).1
  let count := (s.tree.arena.pruneSubtree node).2
  { s with tree := s.tree.withArena arena, log := .pruned node count :: s.log }

/-- `tree.prune_subtree(node)`. -/
def prune (node : Nat) : Run K W PUnit := modify fun s => s.pruned node

/-- `revision_policy.revise(node)` when there is a policy. -/
def revise (node : Nat) : Run K W Bool :=
  match ctl.revisionPolicy with
  | none => pure false
  | some policy => consult (policy node) (.revise node)

/-- The key of one live child: its UCT score and one random draw. -/
def childKey (c : Nat) : Run K W (K × K) := do
  let s ← get
  let node := s.tree.arena.node c
  match node.parent with
  | none => raise (valueError (lit "UCT is undefined for the root node"))
  | some p =>
    let uct := node.uctScore (s.tree.arena.node p).visits ctl.config.explorationWeight
    set { s with draws := s.draws + 1 }
    pure (uct, rt.random ctl.config.seed s.draws)

/-- The keys of the live children, from left to right. -/
def childKeys : List Nat → Run K W (List (Nat × (K × K)))
  | [] => pure []
  | c :: cs => do
    let key ← childKey ctl rt c
    let keys ← childKeys cs
    pure ((c, key) :: keys)

/-- `max(live_children, key=...)`. -/
def pickChild (live : List Nat) : Run K W Nat := do
  let s ← get
  let keys ← childKeys ctl rt live
  observe (.pick live (keys.map fun k => k.2.1) s.draws)
  match maxByKey PyFloat.pairGt keys with
  | none => raise (valueError (lit "max() iterable argument is empty"))
  | some c => pure c

/-- How one descent ends: restart from the root after a prune, or a node to expand. -/
inductive Descent where
  | restart
  | found (node : Nat) (revived : Bool)

/-- The inner loop of `_select`. -/
def descend : Nat → Nat → Run K W Descent
  | 0, _ => throw .diverged
  | fuel + 1, node => do
    let s ← get
    let a := s.tree.arena
    if (a.node node).children = [] then
      if (a.node node).depth < ctl.config.maxDepth then
        pure (.found node false)
      else do
        prune node
        pure .restart
    else
      if a.liveChildren node = [] then
        if ← revise ctl node then
          pure (.found node true)
        else do
          prune node
          pure .restart
      else do
        let next ← pickChild ctl rt (a.liveChildren node)
        descend fuel next

/-- The outer loop of `_select`. -/
def selectFrom : Nat → Run K W (Option (Nat × Bool))
  | 0 => throw .diverged
  | fuel + 1 => do
    let s ← get
    if (s.tree.arena.node 0).isLive then
      match ← descend ctl rt s.tree.arena.size 0 with
      | .restart => selectFrom fuel
      | .found node revived => pure (some (node, revived))
    else pure none

/-- `_select`: the chosen node and whether a revision reopened it. -/
def select : Run K W (Option (Nat × Bool)) := do
  let s ← get
  observe (.selection s.tree.arena)
  selectFrom ctl rt (s.tree.arena.size + 1)

/-- The state after adding a child; a new node starts with empty metadata. -/
def RunState.grown (s : RunState K W) (child : Nat) (tree : ThoughtTree K) : RunState K W :=
  { s with tree := tree, metadata := fun x => if x = child then [] else s.metadata x }

/-- `tree.add_child(node, text)`. -/
def addChild (node : Nat) (text : Str) : Run K W Nat := do
  let s ← get
  match s.tree.addChild rt.freshId node text with
  | .error e => raise e
  | .ok (child, tree) =>
    set (s.grown child tree)
    pure child

/-- The candidate loop of `_expand`. -/
def attachAll (node : Nat) : List Str → List Str → List Nat → Run K W (List Nat)
  | [], _, children => pure children
  | content :: rest, seen, children => do
    let text := Str.strip content
    if text = [] ∨ text ∈ seen then attachAll node rest seen children
    else
      let child ← addChild rt node text
      attachAll node rest (text :: seen) (children ++ [child])

/-- `_expand`. -/
def expand (node : Nat) : Run K W (List Nat) := do
  let k := ctl.config.branchingFactor
  let candidates ← consult (ctl.generator node k) (.generate node k)
  let s ← get
  let a := s.tree.arena
  attachAll rt node (candidates.take k)
    ((a.node node).children.map fun c => (a.node c).content) []

/-- Evaluate one candidate. -/
def evaluateChild (c : Nat) : Run K W (Evaluation K) := consult (ctl.evaluator c) (.evaluate c)

/-- The single-worker path of `_collect_verdicts`. -/
def evaluateAll : List Nat → Run K W (List (Evaluation K))
  | [] => pure []
  | c :: cs => do
    let verdict ← evaluateChild ctl c
    let verdicts ← evaluateAll cs
    pure (verdict :: verdicts)

/-- The state of a worker pool: tasks not started, tasks in progress, results. -/
structure Pool (K : Type) [PyFloat K] where
  queue : List Nat
  running : List Nat
  results : List (Nat × Except Exc (Evaluation K))

/-- The result of a finished task. -/
def Pool.result (p : Pool K) (c : Nat) : Option (Except Exc (Evaluation K)) := p.results.lookup c

/-- The consumer, reading results in submission order, has met a failed one. -/
def Pool.failureMet (p : Pool K) : List Nat → Bool
  | [] => false
  | c :: cs => match p.result c with
    | some (.ok _) => p.failureMet cs
    | some (.error _) => true
    | none => false

/-- A worker runs the evaluator on its task and stores what came of it. -/
def Pool.complete (p : Pool K) (c : Nat) : Run K W (Pool K) := do
  let answer ← attempt (ctl.evaluator c) (.evaluate c)
  pure { p with running := p.running.erase c, results := p.results ++ [(c, answer)] }

/-- One scheduling event; an event that is not possible now is skipped. -/
def Pool.step (workers : Nat) (children : List Nat) (p : Pool K) : PoolEvent → Run K W (Pool K)
  | .start => match p.queue with
    | [] => pure p
    | c :: queue =>
      if p.running.length < workers then
        pure { p with queue := queue, running := p.running ++ [c] }
      else pure p
  | .finish i => match p.running[i]? with
    | none => pure p
    | some c => p.complete ctl c
  | .cancel => if p.failureMet children then pure { p with queue := [] } else pure p

/-- Follow a schedule. -/
def Pool.follow (workers : Nat) (children : List Nat) : List PoolEvent → Pool K → Run K W (Pool K)
  | [], p => pure p
  | e :: es, p => do Pool.follow workers children es (← p.step ctl workers children e)

/-- Leaving the `with` block waits for everything that was not cancelled. -/
def Pool.shutdown : List Nat → Pool K → Run K W (Pool K)
  | [], p => pure p
  | c :: cs, p => do Pool.shutdown cs (← p.complete ctl c)

/-- Results in submission order, or the first failure in that order. -/
def Pool.gather (p : Pool K) : List Nat → Except Exc (List (Evaluation K))
  | [] => .ok []
  | c :: cs => match p.result c with
    | some (.ok verdict) => (p.gather cs).map (verdict :: ·)
    | some (.error e) => .error e
    | none => .error ⟨lit "CancelledError", []⟩

/-- `list(pool.map(evaluate, children))` on a pool of `workers` threads. -/
def poolMap (workers : Nat) (children : List Nat) : Run K W (List (Evaluation K)) := do
  let s ← get
  let events := rt.schedule s.tree.arena children s.world
  let p ← Pool.follow ctl workers children events ⟨children, [], []⟩
  let left := p.running ++ p.queue
  let p ← Pool.shutdown ctl left { p with queue := [], running := left }
  answered (p.gather children)

/-- `_collect_verdicts`. -/
def collectVerdicts (children : List Nat) : Run K W (List (Evaluation K)) :=
  let workers := min ctl.config.evaluationWorkers children.length
  if workers ≤ 1 then evaluateAll ctl children else poolMap ctl rt workers children

/-- The lifecycle status a verdict assigns. -/
def verdictStatus (config : SearchConfig K) (v : Evaluation K) : NodeStatus :=
  if v.isTerminal && PyFloat.le config.acceptThreshold v.score then .terminal
  else if v.isTerminal || PyFloat.lt v.score config.pruneThreshold then .pruned
  else .evaluated

/-- The state after storing a verdict on its node. -/
def RunState.judged (s : RunState K W) (child : Nat) (v : Evaluation K) (status : NodeStatus) :
    RunState K W :=
  let arena := s.tree.arena.applyEvaluation child v.score status v.rationale
  { s with tree := s.tree.withArena arena }

/-- `child.apply_evaluation(...)`. -/
def applyVerdict (child : Nat) (v : Evaluation K) (status : NodeStatus) : Run K W PUnit :=
  modify fun s => s.judged child v status

/-- The state after storing a critique in its node's metadata. -/
def RunState.annotated (s : RunState K W) (child : Nat) (c : Critique K) : RunState K W :=
  { s with
    metadata := fun x =>
      if x = child then Dict.set (s.metadata x) critiqueMetadataKey c.toDict else s.metadata x }

/-- Offer a pruned child to the critic and store its diagnosis. -/
def diagnose (child : Nat) (status : NodeStatus) : Run K W (Option (Critique K)) :=
  match ctl.critic with
  | none => pure none
  | some critic =>
    if status = .pruned then do
      let critique ← consult (critic child) (.critique child)
      match critique with
      | none => pure none
      | some c => do
        modify fun s => s.annotated child c
        pure (some c)
    else pure none

/-- The value a child backpropagates: shaped when there is a reward model. -/
def shapeValue (child : Nat) (score : K) (critique : Option (Critique K)) : Run K W K :=
  match ctl.rewardModel with
  | none => pure score
  | some model => consult (model child score critique) (.shape child score critique)

/-- The verdict loop of `_evaluate`, over `zip(children, verdicts, strict=True)`. -/
def judge : List Nat → List (Evaluation K) → Option Nat → List (Nat × K) →
    Run K W (Option Nat × List (Nat × K))
  | [], [], solution, valued => pure (solution, valued)
  | child :: children, v :: verdicts, solution, valued => do
    let status := verdictStatus ctl.config v
    applyVerdict child v status
    let critique ← diagnose ctl child status
    let value ← shapeValue ctl child v.score critique
    judge children verdicts
      (if status = .terminal ∧ solution = none then some child else solution)
      (valued ++ [(child, value)])
  | [], _ :: _, _, _ => raise (valueError (lit "zip() argument 2 is longer than argument 1"))
  | _ :: _, [], _, _ => raise (valueError (lit "zip() argument 2 is shorter than argument 1"))

/-- `_evaluate`. -/
def evaluate (children : List Nat) : Run K W (Option Nat × List (Nat × K)) := do
  let verdicts ← collectVerdicts ctl rt children
  judge ctl children verdicts none []

/-- Record one sample on every node of a path. -/
def recordPath (a : Arena K) (path : List Nat) (value : K) : Arena K :=
  path.foldl (fun a x => a.recordVisit x value) a

/-- The double loop of `_backpropagate`. -/
def backpropagateArena (a : Arena K) (valued : List (Nat × K)) : Arena K :=
  valued.foldl (fun a cv => recordPath a (a.pathFromRoot cv.1) cv.2) a

/-- The state after the batch's values reached the root. -/
def RunState.credited (s : RunState K W) (valued : List (Nat × K)) : RunState K W :=
  { s with
    tree := s.tree.withArena (backpropagateArena s.tree.arena valued)
    log := .backpropagated valued :: s.log }

/-- `_backpropagate`. -/
def backpropagate (valued : List (Nat × K)) : Run K W PUnit := modify fun s => s.credited valued

/-- `cancel_event is not None and cancel_event.is_set()`. -/
def cancelRequested : Run K W Bool :=
  match rt.cancelled with
  | none => pure false
  | some isSet => do
    let s ← get
    let (answer, world) := isSet s.world
    set (s.inWorld world)
    pure answer

/-- `deadline is not None and time.monotonic() >= deadline`. -/
def deadlinePassed (deadline : Option K) : Run K W Bool :=
  match deadline with
  | none => pure false
  | some limit => do
    let s ← get
    let (now, world) := rt.monotonic s.world
    set (s.inWorld world)
    pure (PyFloat.le limit now)

/-- The stop condition's reason, when it gives a non-empty one. -/
def stopReason : Run K W (Option Str) :=
  match ctl.stopCondition with
  | none => pure none
  | some check => do
    let s ← get
    let (answer, world) := check s.world
    set ((s.inWorld world).noted (.check answer))
    let reason ← answered answer
    pure (reason.filter fun text => text ≠ [])

/-- The two notifications of a granted revision. -/
def reopen (node : Nat) (revived : Bool) : Run K W PUnit :=
  if revived then do
    advance ctl rt .backtracking (some node) (lit "reopened node for revision attempt")
    advance ctl rt .selection (some node) (lit "revision notes prepared")
  else pure ()

/-- The branch of the main loop for an expansion without children. -/
def backtrack (node : Nat) : Run K W Bool := do
  advance ctl rt .backtracking (some node) (lit "expansion produced no candidates")
  prune node
  advance ctl rt .selection none (lit "backtracked")
  pure true

/-- The end of an iteration: an accepted candidate ends the run. -/
def conclude (solution : Option Nat) : Run K W Bool :=
  match solution with
  | some c => do
    let s ← get
    advance ctl rt .succeeded (some c)
      (lit "accepted with score " ++ PyFloat.fixed3 (s.tree.arena.node c).score)
    pure false
  | none => do
    advance ctl rt .selection none (lit "iteration complete")
    pure true

/-- The branch of the main loop that evaluates a batch and backpropagates its values. -/
def assess (node : Nat) (children : List Nat) : Run K W Bool := do
  advance ctl rt .evaluation (some node) (Str.ofNat children.length ++ lit " candidates")
  let (solution, valued) ← evaluate ctl rt children
  advance ctl rt .backpropagation (some node) []
  backpropagate valued
  conclude ctl rt solution

/-- The main loop's work on the selected node. -/
def workOn (node : Nat) : Run K W Bool := do
  advance ctl rt .expansion (some node) []
  let children ← expand ctl rt node
  if children = [] then backtrack ctl rt node else assess ctl rt node children

/-- `iteration += 1`. -/
def beginIteration : Run K W PUnit := modify fun s => { s with iteration := s.iteration + 1 }

/-- One iteration of the main loop after its stop checks; `true` asks for another. -/
def iterate : Run K W Bool := do
  beginIteration
  match ← select ctl rt with
  | none => do
    advance ctl rt .exhausted none (lit "frontier empty")
    pure false
  | some (node, revived) => do
    reopen ctl rt node revived
    workOn ctl rt node

/-- Mark the head of the main loop in the log. -/
def markBoundary : Run K W PUnit := modify fun s =>
  s.noted (.boundary s.iteration s.tree.arena s.machine.history)

/-- The main loop with `remaining` iterations of budget. -/
def searchLoop (deadline : Option K) : Nat → Run K W PUnit
  | 0 => markBoundary
  | remaining + 1 => do
    markBoundary
    if ← cancelRequested rt then
      advance ctl rt .cancelled none (lit "run cancelled by its caller")
    else if ← deadlinePassed rt deadline then
      advance ctl rt .timedOut none (lit "wall-clock budget of " ++
        (ctl.config.maxWallSeconds.map PyFloat.general).getD [] ++ lit "s exhausted")
    else match ← stopReason ctl with
      | some reason => advance ctl rt .budgetExhausted none reason
      | none =>
        if ← iterate ctl rt then searchLoop deadline remaining

/-- `time.monotonic() + max_wall_seconds` when there is a wall-clock budget. -/
def startDeadline : Run K W (Option K) :=
  match ctl.config.maxWallSeconds with
  | none => pure none
  | some seconds => do
    let s ← get
    let (now, world) := rt.monotonic s.world
    set (s.inWorld world)
    pure (some (PyFloat.add now seconds))

/-- Aggregated outcome of a completed run. -/
structure SearchResult (K : Type) [PyFloat K] where
  outcome : SearchOutcome
  bestPath : List Nat
  iterations : Nat
  nodeCount : Nat
  phaseHistory : List (PhaseTransition K)
  tree : ThoughtTree K
  metadata : Nat → Metadata K
  error : Str

/-- `result.solution`. -/
def SearchResult.solution (r : SearchResult K) : Option Str :=
  if r.outcome = .succeeded then r.bestPath.getLast?.map fun n => (r.tree.arena.node n).content
  else none

/-- The `except` clause: any exception becomes the `FAILED` phase and its text. -/
def onFault : Signal → Run K W Str
  | .raised e => do
    advance ctl rt .failed none e.describe
    pure e.describe
  | .diverged => throw .diverged

/-- The guarded main loop; the result is the error text, empty when nothing raised. -/
def guardedLoop (deadline : Option K) : Run K W Str :=
  tryCatch (do
    searchLoop ctl rt deadline ctl.config.maxIterations
    pure []) (onFault ctl rt)

/-- The guard against a loop that ended because its iteration budget did. -/
def closeBudget : Run K W PUnit := do
  let s ← get
  if s.machine.isTerminal then pure ()
  else advance ctl rt .exhausted none (lit "iteration budget spent")

/-- The result assembled from the final state of a run. -/
def RunState.report (s : RunState K W) (outcome : SearchOutcome) (error : Str) :
    SearchResult K where
  outcome := outcome
  bestPath := s.tree.arena.bestPath
  iterations := s.iteration
  nodeCount := s.tree.len
  phaseHistory := s.machine.history
  tree := s.tree
  metadata := s.metadata
  error := error

/-- The exit of `run`: close the budget and assemble the result. -/
def finish (error : Str) : Run K W (SearchResult K) := do
  closeBudget ctl rt
  let s ← get
  match outcomeByPhase s.machine.phase with
  | none => raise ⟨lit "KeyError", s.machine.phase.value⟩
  | some outcome => pure (s.report outcome error)

/-- The body of `run` on its initial state. -/
def search : Run K W (SearchResult K) := do
  let deadline ← startDeadline ctl rt
  advance ctl rt .selection none (lit "search started")
  let error ← guardedLoop ctl rt deadline
  finish ctl rt error

/-- The state in which `run(task)` starts on a controller whose RNG has already
produced `draws` values. -/
def startState (task : Str) (draws : Nat) (world : W) : RunState K W where
  tree := .new rt.freshId task
  metadata := fun _ => []
  machine := .initial
  iteration := 0
  draws := draws
  world := world
  log := []

/-- `controller.run(task, cancel_event)`, with the final state of the run. -/
def TreeSearchController.run (task : Str) (draws : Nat) (world : W) :
    EStateM.Result Signal (RunState K W) (SearchResult K) :=
  search ctl rt (startState rt task draws world)

end Controller

end CognitiveTree.Search
