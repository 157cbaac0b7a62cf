import CognitiveTree.Feedback.Revision
import CognitiveTree.Observability.Metrics
import CognitiveTree.Search.Enumeration
import CognitiveTree.Search.Flow
import CognitiveTree.Search.Lifecycle
import CognitiveTree.Search.PathPolicy

/-!
# Accounts of a run

The counts and times of the metrics are recovered from the phase history and the tree. Each of
them is a sum over a dictionary that the loop fills entry by entry, and the flow between the
phases ties the sums together.
-/

namespace CognitiveTree.Observability

open Search Feedback

section Counters

variable {α : Type}

/-- Each key counts the elements with this key. -/
theorem get?_foldl_increment (key : α → Str) (items : List α) (counts : Dict Str Nat) (k : Str) :
    ((items.foldl (fun counts a => increment counts (key a)) counts).get? k).getD 0 =
      (counts.get? k).getD 0 + items.countP fun a => key a = k := by
  induction items generalizing counts with
  | nil => rfl
  | cons a items ih =>
    rw [List.foldl_cons, ih, increment, Dict.get?_set, List.countP_cons]
    by_cases h : key a = k
    · simp [h]
      omega
    · simp [h, Ne.symm h]

/-- Each element adds one to the total. -/
theorem total_foldl_increment (key : α → Str) (items : List α) (counts : Dict Str Nat) :
    (items.foldl (fun counts a => increment counts (key a)) counts).total =
      counts.total + items.length := by
  induction items generalizing counts with
  | nil => rfl
  | cons a items ih =>
    have hset := Dict.total_set counts (key a) ((counts.get? (key a)).getD 0 + 1)
    rw [List.foldl_cons, ih, increment, List.length_cons]
    omega

end Counters

variable {K W : Type} [PyFloat K] [PyNumber K]

/-- The durations add up to the time from the first to the last transition. -/
theorem total_durationsFrom [AddCommGroup K] [ExactSum K] [ExactDifference K]
    (t : TransitionView K) (rest : List (TransitionView K)) (durations : Dict Str K) :
    (durationsFrom (t :: rest) durations).total =
      durations.total + (((t :: rest).getLast (by simp)).timestamp - t.timestamp) := by
  induction rest generalizing t durations with
  | nil =>
    have hset := Dict.total_set durations t.target.value ((durations.get? t.target.value).getD 0)
    rw [add_left_inj] at hset
    simp only [durationsFrom, List.head?_nil, Option.map_none, Option.getD_none, ExactSum.add_eq,
      ExactSum.zero_eq, ExactDifference.sub_eq, sub_self, add_zero, hset, List.getLast_singleton]
  | cons u rest ih =>
    have hset := Dict.total_set durations t.target.value
      ((durations.get? t.target.value).getD 0 + (u.timestamp - t.timestamp))
    rw [add_comm (Option.getD _ 0) (u.timestamp - t.timestamp), ← add_assoc, add_left_inj] at hset
    rw [durationsFrom, ih, List.getLast_cons (List.cons_ne_nil u rest)]
    simp only [List.head?_cons, Option.map_some, Option.getD_some, ExactSum.add_eq,
      ExactSum.zero_eq, ExactDifference.sub_eq]
    rw [add_comm (Option.getD _ 0), hset, add_assoc, add_comm (u.timestamp - t.timestamp),
      sub_add_sub_cancel]

/-- The phase times add up to the wall time. -/
theorem total_durations [AddCommGroup K] [ExactSum K] [ExactDifference K]
    (history : List (TransitionView K)) :
    (durationsFrom history []).total = wallTime history := by
  rcases history with _ | ⟨t, _ | ⟨u, rest⟩⟩
  · exact ExactSum.zero_eq.symm
  · rw [total_durationsFrom]
    simp [wallTime, ExactSum.zero_eq]
  · rw [total_durationsFrom]
    simp [wallTime, ExactDifference.sub_eq, List.getLast?_eq_some_getLast]

omit [PyFloat K] in
/-- The loop over the nodes succeeds when each node's attempts are an integer. -/
theorem tallyNodes_ok_iff {nodes : List (NodeView K)} (counts : Dict Str Nat) (granted : Int) :
    (∃ tally, tallyNodes nodes counts granted = .ok tally) ↔
      ∀ n ∈ nodes, ∃ i, n.attempts.toInt = .ok i := by
  induction nodes generalizing counts granted with
  | nil => simp [tallyNodes]
  | cons n nodes ih =>
    rw [tallyNodes, List.forall_mem_cons]
    cases hn : n.attempts.toInt with
    | error e =>
      refine ⟨?_, fun h => ?_⟩
      · rintro ⟨tally, h⟩
        cases h
      · obtain ⟨⟨i, hi⟩, -⟩ := h
        cases hi
    | ok i => exact (ih _ _).trans ⟨fun h => ⟨⟨i, rfl⟩, h⟩, fun h => h.2⟩

omit [PyFloat K] in
/-- The loop over the nodes counts their statuses. -/
theorem tallyNodes_counts {nodes : List (NodeView K)} {counts : Dict Str Nat} {granted : Int}
    {tally : Dict Str Nat × Int} (h : tallyNodes nodes counts granted = .ok tally) :
    tally.1 = nodes.foldl (fun counts n => increment counts (statusValue n.status)) counts := by
  induction nodes generalizing counts granted with
  | nil =>
    cases h
    rfl
  | cons n nodes ih =>
    rw [tallyNodes] at h
    cases hn : n.attempts.toInt with
    | error e =>
      rw [hn] at h
      cases h
    | ok i =>
      rw [hn] at h
      exact ih h

omit [PyNumber K] in
/-- The notes of the backtracking transitions. -/
theorem countRevisions_viewOf (r : SearchResult K) :
    countRevisions (((viewOf r).history.filter fun t => t.target = .backtracking).map (·.note)) =
      .ok (r.phaseHistory.countP PhaseTransition.isRevision) := by
  have hnotes : ((viewOf r).history.filter fun t => t.target = .backtracking).map (·.note) =
      ((r.phaseHistory.filter fun t => t.target = .backtracking).map (·.note)).map .str := by
    change ((r.phaseHistory.map _).filter _).map _ = _
    rw [List.filter_map, List.map_map, List.map_map]
    rfl
  rw [hnotes, countRevisions_eq, List.countP_map, List.countP_filter]
  congr 1
  refine List.countP_congr fun t _ => ?_
  rw [PhaseTransition.isRevision, Bool.and_comm]
  rfl

/-- What the metrics of a result are made of. -/
theorem fromResult_inv {r : SearchResult K} {usage : Option TokenUsage} {m : RunMetrics K}
    (h : RunMetrics.fromResult r usage = .ok m) :
    m.iterations = r.iterations ∧ m.nodes = r.nodeCount ∧
      m.wallTimeSeconds = wallTime (viewOf r).history ∧
      m.structuralBacktracks + m.revisionBacktracks =
        (r.phaseHistory.countP (PhaseTransition.enters .backtracking) : Int) ∧
      m.revisionBacktracks = r.phaseHistory.countP PhaseTransition.isRevision ∧
      m.statusCounts = (viewOf r).nodes.foldl
        (fun counts n => increment counts (statusValue n.status))
        (nodeStatuses.map fun status => (statusValue status, 0)) ∧
      m.phaseCounts = (viewOf r).history.foldl
        (fun counts t => increment counts t.target.value) [] ∧
      m.phaseSeconds = durationsFrom (viewOf r).history [] := by
  have hbacktracks : (((viewOf r).history.filter fun t => t.target = .backtracking).map
      (·.note)).length = r.phaseHistory.countP (PhaseTransition.enters .backtracking) := by
    rw [List.length_map, ← List.countP_eq_length_filter]
    exact List.countP_map
  unfold RunMetrics.fromResult RunMetrics.fromView at h
  dsimp only at h
  rw [countRevisions_viewOf] at h
  cases htally : tallyNodes (viewOf r).nodes
      (nodeStatuses.map fun status => (statusValue status, 0)) 0 with
  | error e =>
    rw [htally] at h
    cases h
  | ok tally =>
    rw [htally] at h
    cases h
    refine ⟨rfl, rfl, rfl, ?_, rfl, tallyNodes_counts htally, rfl, rfl⟩
    dsimp only
    rw [hbacktracks]
    exact Int.sub_add_cancel ..

/-- The metrics of a result exist when each node's attempts are an integer. -/
theorem fromResult_ok_iff (r : SearchResult K) (usage : Option TokenUsage) :
    (∃ m, RunMetrics.fromResult r usage = .ok m) ↔ ∀ n, n < r.tree.arena.size →
      ∃ i, BoundedRevisionPolicy.attemptsOf (r.metadata n) = .ok i := by
  have hnodes : (∀ view ∈ (viewOf r).nodes, ∃ i, view.attempts.toInt = .ok i) ↔
      ∀ n, n < r.tree.arena.size → ∃ i, BoundedRevisionPolicy.attemptsOf (r.metadata n) = .ok i :=
    List.forall_mem_map.trans (forall_congr' fun n => imp_congr_left Arena.mem_walk_root)
  rw [← hnodes, ← tallyNodes_ok_iff (nodeStatuses.map fun status => (statusValue status, 0)) 0]
  unfold RunMetrics.fromResult RunMetrics.fromView
  dsimp only
  rw [countRevisions_viewOf]
  cases tallyNodes (viewOf r).nodes (nodeStatuses.map fun status => (statusValue status, 0)) 0 with
  | error e => exact ⟨fun ⟨m, hm⟩ => (by cases hm), fun ⟨tally, htally⟩ => (by cases htally)⟩
  | ok tally => exact ⟨fun _ => ⟨tally, rfl⟩, fun _ => ⟨_, rfl⟩⟩

/-- How often a phase was entered, according to the metrics. -/
def RunMetrics.entries (m : RunMetrics K) (p : SearchPhase) : Nat :=
  (m.phaseCounts.get? p.value).getD 0

/-- The metrics of a run balance: each total is the sum of its parts, and each phase is entered as
often as the phases behind it and the faults in it account for. -/
structure Balanced [AddCommGroup K] (m : RunMetrics K) (history : List (PhaseTransition K))
    (log : List (Obs K)) : Prop where
  statuses : (m.statusCounts.total : Int) = m.nodes
  phases : m.phaseCounts.total = history.length
  seconds : m.phaseSeconds.total = m.wallTimeSeconds
  backtracks : m.structuralBacktracks + m.revisionBacktracks = (m.entries .backtracking : Int)
  expansion : (m.entries .expansion : Int) = m.entries .evaluation + m.structuralBacktracks +
    if history.any (PhaseTransition.faultsIn .expansion) then 1 else 0
  evaluation : m.entries .evaluation = m.entries .backpropagation +
    if history.any (PhaseTransition.faultsIn .evaluation) then 1 else 0
  iterations : m.iterations = (m.entries .expansion : Int) +
    if history.any PhaseTransition.isFrontierEmpty || log.any Obs.isReviseFault then 1 else 0

/-- The entries into a phase are the transitions with this target. -/
theorem entries_eq {r : SearchResult K} {usage : Option TokenUsage} {m : RunMetrics K}
    (h : RunMetrics.fromResult r usage = .ok m) (p : SearchPhase) :
    m.entries p = r.phaseHistory.countP (PhaseTransition.enters p) := by
  obtain ⟨-, -, -, -, -, -, hphases, -⟩ := fromResult_inv h
  rw [RunMetrics.entries, hphases,
    get?_foldl_increment (fun t : TransitionView K => t.target.value), viewOf, List.countP_map]
  rw [show Dict.get? ([] : Dict Str Nat) p.value = none from rfl, Option.getD_none, Nat.zero_add]
  refine List.countP_congr fun t _ => ?_
  simp [PhaseTransition.enters, SearchPhase.value_injective.eq_iff]

omit [PyNumber K] in
/-- Selection was the end of the run at most once. -/
theorem strays_eq {log : List (Obs K)} {empty : Bool}
    (hempty : countIn PhaseTransition.isFrontierEmpty log = if empty then 1 else 0)
    (hstrays : strays log ≤ 1) :
    strays log = if empty || log.any Obs.isReviseFault then 1 else 0 := by
  have hfault : log.any Obs.isReviseFault = true ↔ 0 < log.countP Obs.isReviseFault := by
    rw [List.any_eq_true, List.countP_pos_iff]
  rw [strays] at hstrays ⊢
  cases hany : log.any Obs.isReviseFault with
  | false =>
    have hnone := mt hfault.mpr (by rw [hany]; decide)
    cases empty <;> simp only [Bool.or_false, if_true, if_false, Bool.false_eq_true] at hempty ⊢ <;>
      omega
  | true =>
    have hpos := hfault.mp hany
    cases empty <;> simp at hempty ⊢ <;> omega

section Balances

variable (ctl : TreeSearchController K W) (rt : Runtime K W) (task : Str) (draws : Nat) (world : W)

/-- With a sink that never raises, the metrics of a run exist exactly when every node's attempts
are an integer, and then they balance. -/
theorem run_balances [AddCommGroup K] [ExactSum K] [ExactDifference K] (quiet : ctl.QuietSink)
    (hid : Function.Injective rt.freshId) :
    ∃ r s, ctl.run rt task draws world = .ok r s ∧ ∀ usage,
      ((∃ m, RunMetrics.fromResult r usage = .ok m) ↔ ∀ n, n < r.tree.arena.size →
        ∃ i, BoundedRevisionPolicy.attemptsOf (r.metadata n) = .ok i) ∧
      ∀ m, RunMetrics.fromResult r usage = .ok m → Balanced m r.phaseHistory s.log := by
  obtain ⟨r, s, hrun, hreport⟩ := run_ok_of_quiet ctl rt task draws world quiet
  refine ⟨r, s, hrun, fun usage => ⟨fromResult_ok_iff r usage, fun m hm => ?_⟩⟩
  obtain ⟨hiterations, hnodes, hwall, hbacktracks, hrevisions, hstatus, hphases, hseconds⟩ :=
    fromResult_inv hm
  -- counts over the history are counts over the log
  have hcount : ∀ q, r.phaseHistory.countP q = countIn q s.log := by
    intro q
    rw [hreport.phaseHistory, hreport.reach.history_eq, List.countP_reverse]
    rfl
  have hchained : Chained r.phaseHistory s.machine.phase := by
    rw [hreport.phaseHistory]
    exact s.machine.chained
  have hfault : ∀ p, r.phaseHistory.countP (PhaseTransition.faultsIn p) =
      if r.phaseHistory.any (PhaseTransition.faultsIn p) then 1 else 0 := by
    refine fun p => hchained.countP_terminal fun t ht => ?_
    rw [PhaseTransition.faultsIn, Bool.and_eq_true, decide_eq_true_eq, decide_eq_true_eq] at ht
    rw [ht.2]
    rfl
  have hempty : countIn PhaseTransition.isFrontierEmpty s.log =
      if r.phaseHistory.any PhaseTransition.isFrontierEmpty then 1 else 0 := by
    rw [← hcount]
    refine hchained.countP_terminal fun t ht => ?_
    rw [PhaseTransition.isFrontierEmpty, Bool.and_eq_true, decide_eq_true_eq] at ht
    rw [ht.1]
    rfl
  have hphase : s.machine.phase.isTerminal = true := hreport.reach.inv.phase
  have hexpanding : s.machine.phase ≠ .expansion := by
    intro he
    rw [he] at hphase
    cases hphase
  have hevaluating : s.machine.phase ≠ .evaluation := by
    intro he
    rw [he] at hphase
    cases hphase
  obtain ⟨hexpansion, hevaluation⟩ := hreport.reach.flow
  dsimp only at hexpansion hevaluation
  rw [if_neg hexpanding, ← hcount, ← hcount, ← hcount, ← hcount, ← hcount, hfault] at hexpansion
  rw [if_neg hevaluating, ← hcount, ← hcount, ← hcount, hfault] at hevaluation
  refine ⟨?_, ?_, ?_, ?_, ?_, ?_, ?_⟩
  · rw [hstatus, total_foldl_increment (fun n : NodeView K => statusValue n.status), hnodes,
      hreport.nodeCount, ThoughtTree.len, hreport.reach.index_eq hid, List.length_map,
      List.length_range, viewOf, List.length_map, hreport.tree, Arena.length_walk_root]
    exact congrArg Nat.cast (Nat.zero_add _)
  · rw [hphases, total_foldl_increment (fun t : TransitionView K => t.target.value), viewOf,
      List.length_map]
    exact Nat.zero_add _
  · rw [hseconds, hwall, total_durations]
  · rw [hbacktracks, entries_eq hm]
  · rw [entries_eq hm, entries_eq hm]
    split at hexpansion <;> simp only [*, if_true, if_false, Bool.false_eq_true] at * <;> omega
  · rw [entries_eq hm, entries_eq hm, hevaluation, Nat.add_zero]
  · obtain ⟨hiteration, hstrays⟩ := hreport.reach.iteration_eq quiet
    rw [hiterations, hreport.iterations, entries_eq hm, hcount, hiteration,
      strays_eq hempty hstrays]
    push_cast
    rfl

/-- The same for a small run. -/
theorem run_balances_small :
    ∃ r s, (pathController smallConfig (fun _ => [lit "go on"]) (fun _ => halfway) :
        TreeSearchController ℚ Unit).run (Runtime.still fun _ _ => 0) (lit "task") 0 () = .ok r s ∧
      ∀ m, RunMetrics.fromResult r none = .ok m → Balanced m r.phaseHistory s.log := by
  obtain ⟨r, s, hrun, hbalanced⟩ := run_balances (pathController smallConfig
    (fun _ => [lit "go on"]) (fun _ => halfway) : TreeSearchController ℚ Unit)
    (Runtime.still fun _ _ => 0) (lit "task") 0 () (by intro sink hsink; cases hsink)
    (Runtime.still_freshId_injective _)
  exact ⟨r, s, hrun, (hbalanced none).2⟩

end Balances

end CognitiveTree.Observability
