import CognitiveTree.Core.Lines
import CognitiveTree.Feedback.Revision

/-!
# Metrics of a run

A projection of a result: counts and times from the phase history, counts from the tree.
Durations are summed per phase in the order of the history.
-/

namespace CognitiveTree.Observability

open Search Feedback

/-- Aggregate token accounting of one run. -/
structure TokenUsage where
  calls : Int
  promptTokens : Int
  completionTokens : Int
  deriving DecidableEq

/-- `usage.total_tokens`. -/
def TokenUsage.totalTokens (u : TokenUsage) : Int := u.promptTokens + u.completionTokens

/-- The consumption between an earlier tally and this one. -/
instance : Sub TokenUsage where
  sub u earlier := ⟨u.calls - earlier.calls, u.promptTokens - earlier.promptTokens,
    u.completionTokens - earlier.completionTokens⟩

@[simp] theorem TokenUsage.calls_sub (u earlier : TokenUsage) :
    (u - earlier).calls = u.calls - earlier.calls := rfl

@[simp] theorem TokenUsage.totalTokens_sub (u earlier : TokenUsage) :
    (u - earlier).totalTokens = u.totalTokens - earlier.totalTokens := by
  change u.promptTokens - earlier.promptTokens + (u.completionTokens - earlier.completionTokens) = _
  simp only [totalTokens]
  omega

/-- The enumeration value of a status. -/
def statusValue : NodeStatus → Str
  | .pending => lit "pending"
  | .evaluated => lit "evaluated"
  | .terminal => lit "terminal"
  | .pruned => lit "pruned"
  | .failed => lit "failed"

/-- `NodeStatus`, in the order of its definition. -/
def nodeStatuses : List NodeStatus := [.pending, .evaluated, .terminal, .pruned, .failed]

variable {K : Type} [PyFloat K]

/-- `token_usage.to_dict()`. -/
def TokenUsage.toDict (u : TokenUsage) : PyVal K :=
  .dict [(lit "calls", .int u.calls), (lit "prompt_tokens", .int u.promptTokens),
    (lit "completion_tokens", .int u.completionTokens), (lit "total_tokens", .int u.totalTokens)]

/-- What the metrics read of one node. -/
structure NodeView (K : Type) where
  status : NodeStatus
  /-- `node.metadata.get("revision_attempts", 0)` -/
  attempts : PyVal K

/-- What they read of one transition. -/
structure TransitionView (K : Type) where
  target : SearchPhase
  note : PyVal K
  timestamp : K

/-- What they read of a result, live or restored: the nodes in depth-first order, and the best
path as the depths along it. -/
structure ResultView (K : Type) where
  outcome : SearchOutcome
  iterations : Int
  nodeCount : Int
  history : List (TransitionView K)
  nodes : List (NodeView K)
  pathDepths : List Int

/-- The view of a result of the controller. -/
def viewOf (r : SearchResult K) : ResultView K where
  outcome := r.outcome
  iterations := r.iterations
  nodeCount := r.nodeCount
  history := r.phaseHistory.map fun t => ⟨t.target, .str t.note, t.timestamp⟩
  nodes := (r.tree.arena.walk 0).map fun n =>
    ⟨(r.tree.arena.node n).status, ((r.metadata n).get? revisionAttemptsKey).getD (.int 0)⟩
  pathDepths := r.bestPath.map fun n => (r.tree.arena.node n).depth

/-- The quantitative summary of one run. -/
structure RunMetrics (K : Type) where
  outcome : Str
  iterations : Int
  nodes : Int
  wallTimeSeconds : K
  solutionDepth : Option Int
  bestPathLength : Nat
  structuralBacktracks : Int
  revisionBacktracks : Nat
  revisionsGranted : Int
  statusCounts : Dict Str Nat
  phaseCounts : Dict Str Nat
  phaseSeconds : Dict Str K
  tokenUsage : Option TokenUsage

/-- `counts[key] += 1` on a counter. -/
def increment (counts : Dict Str Nat) (key : Str) : Dict Str Nat :=
  counts.set key ((counts.get? key).getD 0 + 1)

omit [PyFloat K] in
/-- `"revision" in note.lower()`. -/
def noteOfRevision : PyVal K → Except Exc Bool
  | .str note => .ok ((Str.lower note).contains (lit "revision"))
  | v => .error (attributeError (lit "'" ++ v.typeName ++ lit "' object has no attribute 'lower'"))

omit [PyFloat K] in
/-- `sum(1 for n in backtrack_notes if "revision" in n.lower())`. -/
def countRevisions : List (PyVal K) → Except Exc Nat
  | [] => .ok 0
  | note :: notes => do
    let hit ← noteOfRevision note
    let rest ← countRevisions notes
    pure (rest + if hit then 1 else 0)

variable [PyNumber K]

/-- The loop of `_phase_durations` over the remaining history. -/
def durationsFrom : List (TransitionView K) → Dict Str K → Dict Str K
  | [], durations => durations
  | t :: rest, durations =>
    let ends := (rest.head?.map (·.timestamp)).getD t.timestamp
    durationsFrom rest (durations.set t.target.value (PyFloat.add
      ((durations.get? t.target.value).getD PyFloat.zero) (PyNumber.sub ends t.timestamp)))

/-- The wall time: from the first to the last transition. -/
def wallTime (history : List (TransitionView K)) : K :=
  match history.head?, history.getLast? with
  | some first, some last =>
    if 2 ≤ history.length then PyNumber.sub last.timestamp first.timestamp else PyFloat.zero
  | _, _ => PyFloat.zero

omit [PyFloat K] in
/-- The loop of `from_result` over the nodes: status counts and revision attempts. -/
def tallyNodes : List (NodeView K) → Dict Str Nat → Int → Except Exc (Dict Str Nat × Int)
  | [], counts, granted => .ok (counts, granted)
  | n :: ns, counts, granted => do
    let attempts ← n.attempts.toInt
    tallyNodes ns (increment counts (statusValue n.status)) (granted + attempts)

omit [PyFloat K] in
/-- When every node's attempts are an integer, the loop adds them up. -/
theorem tallyNodes_eq {nodes : List (NodeView K)} (value : NodeView K → Int)
    (h : ∀ n ∈ nodes, n.attempts.toInt = .ok (value n)) (counts : Dict Str Nat) (granted : Int) :
    tallyNodes nodes counts granted =
      .ok (nodes.foldl (fun counts n => increment counts (statusValue n.status)) counts,
        granted + (nodes.map value).sum) := by
  induction nodes generalizing counts granted with
  | nil => simp [tallyNodes]
  | cons n ns ih =>
    rw [tallyNodes, h n (List.mem_cons_self ..)]
    change tallyNodes ns _ (granted + value n) = _
    rw [ih fun m hm => h m (List.mem_cons_of_mem _ hm)]
    rw [List.foldl_cons, List.map_cons, List.sum_cons, Int.add_assoc]

omit [PyFloat K] [PyNumber K] in
/-- On texts the count of the revision notes is the number of those that mention one. -/
theorem countRevisions_eq (notes : List Str) :
    countRevisions (notes.map (.str : Str → PyVal K)) =
      .ok (notes.countP fun note => (Str.lower note).contains (lit "revision")) := by
  induction notes with
  | nil => rfl
  | cons note notes ih =>
    rw [List.map_cons, countRevisions, ih, List.countP_cons]
    rfl

/-- `RunMetrics.from_result(result, token_usage)` on what it reads of the result. -/
def RunMetrics.fromView (r : ResultView K) (usage : Option TokenUsage) :
    Except Exc (RunMetrics K) := do
  let notes := (r.history.filter fun t => t.target = .backtracking).map (·.note)
  let revisions ← countRevisions notes
  let tally ← tallyNodes r.nodes (nodeStatuses.map fun status => (statusValue status, 0)) 0
  pure {
    outcome := r.outcome.value
    iterations := r.iterations
    nodes := r.nodeCount
    wallTimeSeconds := wallTime r.history
    solutionDepth := if r.outcome = .succeeded then r.pathDepths.getLast? else none
    bestPathLength := r.pathDepths.length
    structuralBacktracks := (notes.length : Int) - revisions
    revisionBacktracks := revisions
    revisionsGranted := tally.2
    statusCounts := tally.1
    phaseCounts := r.history.foldl (fun counts t => increment counts t.target.value) []
    phaseSeconds := durationsFrom r.history []
    tokenUsage := usage }

/-- `RunMetrics.from_result(result, token_usage)`. -/
def RunMetrics.fromResult (r : SearchResult K) (usage : Option TokenUsage) :
    Except Exc (RunMetrics K) :=
  RunMetrics.fromView (viewOf r) usage

/-- A dictionary of counts as a value. -/
def countsValue (counts : Dict Str Nat) : PyVal K :=
  .dict (counts.map fun item => (item.1, .int item.2))

/-- An optional value. -/
def optional {α : Type} (value : α → PyVal K) : Option α → PyVal K
  | none => .none
  | some a => value a

/-- `metrics.to_dict()`. -/
def RunMetrics.toDict (m : RunMetrics K) : PyVal K :=
  .dict [(lit "outcome", .str m.outcome), (lit "iterations", .int m.iterations),
    (lit "nodes", .int m.nodes),
    (lit "wall_time_seconds", .float (PyFloat.round m.wallTimeSeconds 6)),
    (lit "solution_depth", optional .int m.solutionDepth),
    (lit "best_path_length", .int m.bestPathLength),
    (lit "structural_backtracks", .int m.structuralBacktracks),
    (lit "revision_backtracks", .int m.revisionBacktracks),
    (lit "revisions_granted", .int m.revisionsGranted),
    (lit "status_counts", countsValue m.statusCounts),
    (lit "phase_counts", countsValue m.phaseCounts),
    (lit "phase_seconds", .dict (m.phaseSeconds.map fun item =>
      (item.1, .float (PyFloat.round item.2 6)))),
    (lit "token_usage", optional TokenUsage.toDict m.tokenUsage)]

end CognitiveTree.Observability
