import CognitiveTree.Feedback.Revision
import CognitiveTree.Observability.Metrics
import CognitiveTree.Search.Grants
import CognitiveTree.Search.Metadata
import CognitiveTree.Search.PathPolicy
import Mathlib.Algebra.BigOperators.Ring.Finset

/-!
# Attempts, grants and metrics

With bounded revision the attempts in the metadata are the grants in the log. So the attempts
bound the expansions and the children of a node, and their sum over the tree is what the
metrics count in the phase history.
-/

namespace CognitiveTree.Feedback

open Search Observability

/-- Over a duplicate-free list with all of its elements, the counts of a list add up to its
length. -/
theorem sum_count_eq_length {nodes l : List Nat} (hnodup : nodes.Nodup) (h : ∀ x ∈ l, x ∈ nodes) :
    (nodes.map fun n => l.count n).sum = l.length := by
  have hsum := Multiset.sum_count_eq_card (s := nodes.toFinset) (m := (l : Multiset Nat))
    fun x hx => List.mem_toFinset.mpr (h x hx)
  rw [List.sum_toFinset _ hnodup] at hsum
  simpa only [Multiset.coe_count, Multiset.coe_card] using hsum

variable {K W : Type} [PyFloat K] {ctl : TreeSearchController K W} {rt : Runtime K W}

/-- Only the revision policy grants revisions. -/
theorem grantedIn_eq {c c' : Stage K × RunState K W} (hs : Step ctl rt c c')
    (hask : ¬ Asked ctl .revision c c') : grantedIn c'.2.log = grantedIn c.2.log := by
  cases hs with
  | advance _ legal => exact grantedIn_transitioned legal
  | advanceRaised _ legal => exact grantedIn_transitioned legal
  | revise alloc live saturated hpolicy hreply =>
    exact absurd (.revision alloc live saturated hpolicy hreply) hask
  | reviseRaised alloc live saturated hpolicy hreply =>
    exact absurd (.revision alloc live saturated hpolicy hreply) hask
  | _ => rfl

/-- The entry of a node that was granted this many revisions. -/
def attemptsEntry : Nat → Option (PyVal K)
  | 0 => none
  | k + 1 => some (.int (k + 1 : Nat))

omit [PyFloat K] in
/-- Reading the entry gives the number of grants. -/
theorem attemptsEntry_toInt [PyNumber K] (k : Nat) :
    ((attemptsEntry k : Option (PyVal K)).getD (.int 0)).toInt = .ok (k : Int) := by
  cases k <;> rfl

/-- The attempts in the metadata are the grants in the log, and within the budget. -/
structure AttemptLedger (maxAttempts : Int) (c : Stage K × RunState K W) : Prop where
  alloc : ∀ n ∈ grantedIn c.2.log, n < c.2.tree.arena.size
  attempts : ∀ n, n < c.2.tree.arena.size → c.2.entry n revisionAttemptsKey =
    attemptsEntry ((grantedIn c.2.log).count n)
  bounded : ∀ n, ((grantedIn c.2.log).count n : Int) ≤ maxAttempts

section Ledger

variable [PyNumber K] {task : Str} {draws : Nat} {p : BoundedRevisionPolicy} {text : PyVal K → Str}

theorem AttemptLedger.asked {c c' : Stage K × RunState K W} (hp : ctl.revisionPolicy = some (p.revise text))
    (h : AttemptLedger p.maxAttempts c) (hask : Asked ctl .revision c c') :
    AttemptLedger p.maxAttempts c' := by
  cases hask with
  | @revision s n st policy reply alloc live saturated hpolicy hreply =>
    cases hp.symm.trans hpolicy
    rcases p.revise_cases text n s.tree.arena s.metadata s.world with
      ⟨answer, hne, hrun⟩ | ⟨notes, attempts, heligible, hrun⟩
    · rw [hrun] at hreply
      have hgranted : grantedIn (.revise n answer :: s.log) = grantedIn s.log := by
        rcases answer with e | (_ | _)
        · rfl
        · rfl
        · exact absurd rfl hne
      subst hreply
      constructor <;> dsimp only [RunState.consulted] <;> rw [hgranted]
      · exact h.alloc
      · exact h.attempts
      · exact h.bounded
    · obtain ⟨-, -, hused, hleft, -⟩ := BoundedRevisionPolicy.eligible_eq_some.mp heligible
      rw [hrun] at hreply
      subst hreply
      -- the counter that was read is the number of grants so far
      have hcount : attempts = ((grantedIn s.log).count n : Int) := by
        have hentry := h.attempts n alloc
        rw [BoundedRevisionPolicy.attemptsOf,
          show Dict.get? (s.metadata n) revisionAttemptsKey = _ from hentry,
          attemptsEntry_toInt] at hused
        exact (Except.ok.inj hused).symm
      have hgranted : grantedIn (Obs.revise n (.ok true) :: s.log) = n :: grantedIn s.log := rfl
      constructor <;> dsimp only [RunState.consulted] <;> rw [hgranted]
      · intro m hm
        rcases List.mem_cons.mp hm with rfl | hm
        · exact alloc
        · exact h.alloc m hm
      · intro m hm
        change Dict.get? (BoundedRevisionPolicy.commit s.metadata n notes attempts m) _ = _
        rw [BoundedRevisionPolicy.commit_attempts, hcount]
        by_cases hmn : m = n
        · subst hmn
          rw [if_pos rfl, List.count_cons_self]
          rfl
        · rw [if_neg hmn, List.count_cons_of_ne (Ne.symm hmn)]
          exact h.attempts m hm
      · intro m
        rw [List.count_cons]
        by_cases hmn : n = m
        · subst hmn
          simp only [beq_self_eq_true, if_true]
          omega
        · simpa [hmn] using h.bounded m

theorem attemptLedger (hp : ctl.revisionPolicy = some (p.revise text))
    (hsole : ctl.SoleWriter revisionAttemptsKey .revision) {c : Stage K × RunState K W}
    (h : Reach ctl rt task draws c) : AttemptLedger p.maxAttempts c := by
  refine h.strengthen (P := AttemptLedger p.maxAttempts) (fun world => ?_) fun c c' hr hc hs => ?_
  · refine ⟨fun n hn => absurd hn List.not_mem_nil, fun n _ => rfl, fun n => ?_⟩
    exact le_trans (by simp [startState, grantedIn]) p.positive
  by_cases hask : Asked ctl .revision c c'
  · exact hc.asked hp hask
  · have hi := hr.inv
    have hgranted := grantedIn_eq hs hask
    obtain ⟨hold, hnew⟩ := hs.entry_eq hi hsole (Or.inr (by decide)) hask
    constructor <;> rw [hgranted]
    · exact fun n hn => (hc.alloc n hn).trans_le (hs.frozen hi).size_le
    · intro n hn
      by_cases hsize : n < c.2.tree.arena.size
      · rw [hold n hsize]
        exact hc.attempts n hsize
      · rw [hnew n (Nat.not_lt.mp hsize) hn, List.count_eq_zero_of_not_mem fun hm => hsize (hc.alloc n hm)]
        rfl
    · exact hc.bounded

omit [PyNumber K] in
/-- Without a revision policy nothing is granted. -/
theorem grantedIn_nil (hp : ctl.revisionPolicy = none) {c : Stage K × RunState K W}
    (h : Reach ctl rt task draws c) : grantedIn c.2.log = [] := by
  refine h.invariant (P := fun c => grantedIn c.2.log = []) (fun world => rfl) fun c c' hc hs => ?_
  rw [grantedIn_eq hs, hc]
  intro hask
  cases hask with
  | revision _ _ _ hpolicy =>
    rw [hp] at hpolicy
    cases hpolicy

end Ledger

/-- The metrics of a result whose attempts are integers. -/
theorem fromResult_spec [PyNumber K] {r : SearchResult K} {attempts : Nat → Int}
    (h : ∀ n, n < r.tree.arena.size →
      BoundedRevisionPolicy.attemptsOf (r.metadata n) = .ok (attempts n))
    (usage : Option TokenUsage) : ∃ m, RunMetrics.fromResult r usage = .ok m ∧
      m.revisionsGranted = ((r.tree.arena.walk 0).map attempts).sum ∧
      m.revisionBacktracks = r.phaseHistory.countP PhaseTransition.isRevision := by
  have hnotes : ((viewOf r).history.filter fun t => t.target = .backtracking).map (·.note) =
      ((r.phaseHistory.filter fun t => t.target = .backtracking).map (·.note)).map .str := by
    change ((r.phaseHistory.map _).filter _).map _ = _
    rw [List.filter_map, List.map_map, List.map_map]
    rfl
  have hcount : ((r.phaseHistory.filter fun t => t.target = .backtracking).map (·.note)).countP
      (fun note => (Str.lower note).contains (lit "revision")) =
      r.phaseHistory.countP PhaseTransition.isRevision := by
    rw [List.countP_map, List.countP_filter]
    refine List.countP_congr fun t _ => ?_
    rw [PhaseTransition.isRevision, Bool.and_comm]
    rfl
  -- each node's view holds what `attemptsOf` reads
  obtain ⟨value, hvalue⟩ : ∃ value : NodeView K → Int, ∀ n, n < r.tree.arena.size →
      value ⟨(r.tree.arena.node n).status,
        ((r.metadata n).get? revisionAttemptsKey).getD (.int 0)⟩ = attempts n := by
    refine ⟨fun view => match view.attempts.toInt with
      | .ok i => i
      | .error _ => 0, fun n hn => ?_⟩
    have hattempts := h n hn
    rw [BoundedRevisionPolicy.attemptsOf] at hattempts
    simp only [hattempts]
  have htally := tallyNodes_eq value (fun (view : NodeView K) (hview : view ∈ (viewOf r).nodes) => by
    obtain ⟨n, hn, rfl⟩ := List.mem_map.mp hview
    have hn := Arena.mem_walk_root.mp hn
    exact (h n hn).trans (congrArg Except.ok (hvalue n hn).symm))
    (nodeStatuses.map fun status => (statusValue status, 0)) 0
  have hsum : ((viewOf r).nodes.map value).sum = ((r.tree.arena.walk 0).map attempts).sum := by
    change ((List.map _ _).map value).sum = _
    rw [List.map_map]
    exact congrArg List.sum (List.map_congr_left fun n hn => hvalue n (Arena.mem_walk_root.mp hn))
  unfold RunMetrics.fromResult RunMetrics.fromView
  dsimp only
  rw [hnotes, countRevisions_eq, htally]
  exact ⟨_, rfl, by rw [← hsum]; exact Int.zero_add _, hcount⟩

section Expansions

variable [PyNumber K] (ctl rt) (task : Str) (draws : Nat) (world : W)

/-- With bounded revision the attempts of a node bound its expansions and its children, they stay
within the budget, and their sum is the number of revisions in the phase history, so that the
metrics agree. Without revision no node is expanded twice. -/
theorem run_bounds_expansions (quiet : ctl.QuietSink) :
    ∃ r s, ctl.run rt task draws world = .ok r s ∧
    (∀ (p : BoundedRevisionPolicy) (text : PyVal K → Str),
      ctl.revisionPolicy = some (p.revise text) → ctl.SoleWriter revisionAttemptsKey .revision →
      ∃ attempts : Nat → Nat,
        (∀ n, n < r.tree.arena.size →
          BoundedRevisionPolicy.attemptsOf (r.metadata n) = .ok (attempts n : Int) ∧
          (attempts n : Int) ≤ p.maxAttempts ∧
          (generatedIn s.log).count n ≤ 1 + attempts n ∧
          (r.tree.arena.node n).children.length ≤ ctl.config.branchingFactor * (1 + attempts n)) ∧
        ((r.tree.arena.walk 0).map attempts).sum =
          r.phaseHistory.countP PhaseTransition.isRevision ∧
        ∀ usage, ∃ m, RunMetrics.fromResult r usage = .ok m ∧
          m.revisionsGranted = m.revisionBacktracks) ∧
    (ctl.revisionPolicy = none → ∀ n, (generatedIn s.log).count n ≤ 1) := by
  obtain ⟨r, s, hrun, hreport⟩ := run_ok_of_quiet ctl rt task draws world quiet
  have hgranted := hreport.reach.granted
  refine ⟨r, s, hrun, fun p text hp hsole => ?_, fun hp n => ?_⟩
  · have hledger := attemptLedger hp hsole hreport.reach
    have hattempts : ∀ n, n < r.tree.arena.size → BoundedRevisionPolicy.attemptsOf (r.metadata n) =
        .ok ((grantedIn s.log).count n : Int) := by
      intro n hn
      rw [hreport.tree] at hn
      have hentry := hledger.attempts n hn
      rw [BoundedRevisionPolicy.attemptsOf, hreport.metadata,
        show Dict.get? (s.metadata n) revisionAttemptsKey = _ from hentry, attemptsEntry_toInt]
    have hsum : ((r.tree.arena.walk 0).map fun n => (grantedIn s.log).count n).sum =
        r.phaseHistory.countP PhaseTransition.isRevision := by
      rw [hreport.tree, hreport.phaseHistory, hreport.reach.history_eq, List.countP_reverse]
      rw [sum_count_eq_length (Arena.walk_nodup _ s.tree.arena.linked.nonempty)
        fun n hn => Arena.mem_walk_root.mpr (hledger.alloc n hn)]
      exact hgranted.announced.symm
    refine ⟨fun n => (grantedIn s.log).count n, fun n hn => ⟨hattempts n hn, hledger.bounded n, ?_, ?_⟩,
      hsum, fun usage => ?_⟩
    · rw [Nat.add_comm]
      exact hgranted.within n
    · rw [hreport.tree, Nat.add_comm]
      exact (hgranted.children n).trans (Nat.mul_le_mul_left _ (hgranted.within n))
    · obtain ⟨m, hm, hmgranted, hmrevisions⟩ := fromResult_spec hattempts usage
      refine ⟨m, hm, ?_⟩
      rw [hmgranted, hmrevisions, ← hsum, Nat.cast_list_sum, List.map_map]
      rfl
  · have hwithin := hgranted.within n
    dsimp only at hwithin
    rw [grantedIn_nil hp hreport.reach] at hwithin
    simpa using hwithin

/-- The policy of the small run: one attempt, with or without notes. -/
def oneAttempt : BoundedRevisionPolicy := ⟨1, false, by decide⟩

/-- Every candidate is rejected, and the root is expanded again once. -/
def revisingController : TreeSearchController ℚ Unit where
  __ := pathController smallConfig (fun _ => [lit "again"]) fun _ => ⟨0, false, [], inUnit_zero⟩
  revisionPolicy := some (oneAttempt.revise fun _ => [])

theorem revisingController_quiet : revisingController.QuietSink := by
  intro sink hsink
  cases hsink

theorem revisingController_soleWriter : revisingController.SoleWriter revisionAttemptsKey .revision := by
  rintro (_ | _ | _ | _ | _) hne
  case generator => exact fun _ _ _ _ _ _ => rfl
  case evaluator => exact fun _ _ _ _ _ => rfl
  case revision => exact absurd rfl hne
  all_goals
    intro policy hpolicy
    cases hpolicy

/-- The metrics of the small run agree. -/
theorem run_bounds_expansions_small :
    ∃ r s, revisingController.run (Runtime.still fun _ _ => 0) (lit "task") 0 () = .ok r s ∧
      ∃ m, RunMetrics.fromResult r none = .ok m ∧ m.revisionsGranted = m.revisionBacktracks := by
  obtain ⟨r, s, hrun, hbounded, -⟩ := run_bounds_expansions revisingController
    (Runtime.still fun _ _ => 0) (lit "task") 0 () revisingController_quiet
  obtain ⟨attempts, -, -, hmetrics⟩ :=
    hbounded oneAttempt (fun _ => []) rfl revisingController_soleWriter
  exact ⟨r, s, hrun, hmetrics none⟩

end Expansions

end CognitiveTree.Feedback
