import CognitiveTree.Search.Flow
import CognitiveTree.Search.Solution

/-!
# Replay of the phase history

A replay emits one event for each recorded transition. The iteration is not recorded: it is
inferred from the entries into `EXPANSION`, which follows the live counter until selection takes
a detour.
-/

namespace CognitiveTree.Persistence

open Search

variable {K W : Type}

/-- `_iteration_for(transition, current)`. -/
def iterationFor (t : PhaseTransition K) (current : Nat) : Nat :=
  if t.target = .expansion then current + 1 else current

/-- The events of `ReplaySession.stream` from this iteration on. -/
def replayEvents : List (PhaseTransition K) → Nat → List SearchEvent
  | [], _ => []
  | t :: rest, current =>
    ⟨iterationFor t current, t.target, none, t.note⟩ :: replayEvents rest (iterationFor t current)

/-- The counter is the number of entries into `EXPANSION` so far. -/
theorem replayEvents_concat (history : List (PhaseTransition K)) (t : PhaseTransition K)
    (current : Nat) : replayEvents (history ++ [t]) current = replayEvents history current ++
      [⟨iterationFor t (current + history.countP (PhaseTransition.enters .expansion)), t.target,
        none, t.note⟩] := by
  induction history generalizing current with
  | nil => rfl
  | cons u rest ih =>
    have hcounter : iterationFor u current + rest.countP (PhaseTransition.enters .expansion) =
        current + (u :: rest).countP (PhaseTransition.enters .expansion) := by
      rw [List.countP_cons]
      by_cases h : u.target = .expansion <;> simp [iterationFor, PhaseTransition.enters, h]
      omega
    rw [List.cons_append, replayEvents, ih, hcounter, replayEvents, List.cons_append]

/-- The last event carries the number of all entries. -/
theorem getLast?_replayEvents {history : List (PhaseTransition K)} (h : history ≠ []) (current : Nat) :
    (replayEvents history current).getLast?.map (·.iteration) =
      some (current + history.countP (PhaseTransition.enters .expansion)) := by
  obtain ⟨init, t, rfl⟩ := (List.eq_nil_or_concat history).resolve_left h
  rw [List.concat_eq_append, replayEvents_concat, List.getLast?_append, List.getLast?_singleton,
    List.countP_append]
  by_cases ht : t.target = .expansion <;> simp [iterationFor, PhaseTransition.enters, ht, Nat.add_assoc]

variable [PyFloat K] {ctl : TreeSearchController K W} {rt : Runtime K W}

/-- The events of a run, oldest first. -/
def eventsIn (rt : Runtime K W) (log : List (Obs K)) : List SearchEvent :=
  (log.filterMap fun
    | .transition record iteration node _ =>
      some ⟨iteration, record.target, node.map rt.freshId, record.note⟩
    | _ => none).reverse

theorem eventsIn_transitioned {s : RunState K W} {target : SearchPhase} {node : Option Nat}
    {detail : Str} (h : s.machine.canTransition target = true) :
    eventsIn rt ((s.transitioned rt target node detail h).mirrored ctl rt target node detail).1.log =
      eventsIn rt s.log ++ [⟨s.iteration, target, node.map rt.freshId, detail⟩] := by
  have hentry : eventsIn rt (s.transitioned rt target node detail h).log =
      eventsIn rt s.log ++ [⟨s.iteration, target, node.map rt.freshId, detail⟩] :=
    List.reverse_cons
  rw [RunState.mirrored_log, ← hentry]
  cases ((s.transitioned rt target node detail h).mirrored ctl rt target node detail).2 <;> rfl

/-- So far the replay numbers the transitions as the run did. -/
def Agrees (rt : Runtime K W) (s : RunState K W) : Prop :=
  (replayEvents s.machine.history 0).map (·.iteration) = (eventsIn rt s.log).map (·.iteration)

theorem agrees_transitioned {s : RunState K W} {target : SearchPhase} {node : Option Nat}
    {detail : Str} (h : s.machine.canTransition target = true) :
    Agrees rt ((s.transitioned rt target node detail h).mirrored ctl rt target node detail).1 ↔
      Agrees rt s ∧ s.machine.history.countP (PhaseTransition.enters .expansion) +
        (if target = .expansion then 1 else 0) = s.iteration := by
  have hhistory : ((s.transitioned rt target node detail h).mirrored ctl rt target node
      detail).1.machine.history =
        s.machine.history ++ [⟨s.machine.phase, target, detail, (rt.monotonic s.world).1⟩] := by
    rw [(RunState.mirrored_fields ctl rt _ target node detail).2.1]
    rfl
  rw [Agrees, hhistory, eventsIn_transitioned, replayEvents_concat, List.map_append, List.map_append,
    List.map_singleton, List.map_singleton]
  have hlive : ∀ current, iterationFor
      (⟨s.machine.phase, target, detail, (rt.monotonic s.world).1⟩ : PhaseTransition K) current =
        current + if target = .expansion then 1 else 0 := by
    intro current
    rw [iterationFor]
    split <;> rfl
  constructor
  · intro he
    obtain ⟨hinit, hlast⟩ := List.append_inj' he rfl
    rw [List.singleton_inj, hlive, Nat.zero_add] at hlast
    exact ⟨hinit, hlast⟩
  · rintro ⟨hinit, hlast⟩
    rw [show List.map _ _ = List.map _ _ from hinit, hlive, Nat.zero_add, hlast]

/-- The replay follows the run until a revision is announced or the frontier is found empty, and
over the end unless selection was the end of the run. -/
structure Numbered (rt : Runtime K W) (c : Stage K × RunState K W) : Prop where
  running : c.1 ≠ .ended → (Agrees rt c.2 ↔ countIn PhaseTransition.isRevision c.2.log = 0 ∧
    countIn PhaseTransition.isFrontierEmpty c.2.log = 0)
  ended : c.1 = .ended → (Agrees rt c.2 ↔ countIn PhaseTransition.isRevision c.2.log = 0 ∧
    strays c.2.log = 0)

theorem numbered_of_edge {s s' : RunState K W} {st st' st'' : Stage K} {target node detail}
    (edge : Edge ctl s st target node detail st') (h : s.machine.canTransition target = true)
    (hi : Inv ctl rt (st, s)) (hpaced : Paced (st, s)) (hc : Numbered rt (st, s))
    (hhistory : s.machine.history = (transitionsIn s.log).reverse)
    (hs' : s' = ((s.transitioned rt target node detail h).mirrored ctl rt target node detail).1)
    (hst'' : st'' = st' ∨ ∃ e, st'' = st'.afterFault e) : Numbered rt (st'', s') := by
  have hagrees : Agrees rt s' ↔ Agrees rt s ∧ countIn (PhaseTransition.enters .expansion) s.log +
      (if target = .expansion then 1 else 0) = s.iteration := by
    rw [hs', agrees_transitioned, hhistory, List.countP_reverse]
    rfl
  have hrevision : countIn PhaseTransition.isRevision s'.log + st'.unannounced =
      countIn PhaseTransition.isRevision s.log + st.unannounced := by
    rw [hs', countIn_transitioned _ h, ← edge.isRevision hi
      ⟨s.machine.phase, target, detail, (rt.monotonic s.world).1⟩ rfl rfl]
    omega
  have hempty : countIn PhaseTransition.isFrontierEmpty s'.log =
      countIn PhaseTransition.isFrontierEmpty s.log + if st.selects then 1 else 0 := by
    rw [hs', countIn_transitioned _ h, edge.isFrontierEmpty hi _ rfl rfl]
  have hstrays : strays s'.log = strays s.log + if st.selects then 1 else 0 := by
    rw [hs', strays_transitioned h, edge.isFrontierEmpty hi _ rfl rfl]
  have hsum : countIn PhaseTransition.isFrontierEmpty s.log ≤ strays s.log := Nat.le_add_left ..
  have hsum' : countIn PhaseTransition.isFrontierEmpty s'.log ≤ strays s'.log := Nat.le_add_left ..
  obtain ⟨⟨lag, hlag, hinside, hover⟩, hreviving⟩ := hpaced
  dsimp only at hlag hinside hover hreviving
  cases edge
  case failed e =>
    have hend : st'' = .ended := by
      rcases hst'' with rfl | ⟨e', rfl⟩ <;> rfl
    subst hend
    have hbefore := hc.running (by simp)
    simp only [Stage.unannounced, Nat.add_zero, Stage.selects, if_false, Bool.false_eq_true,
      reduceCtorEq] at hrevision hstrays hagrees hbefore
    refine ⟨fun hne => absurd rfl hne, fun _ => ?_⟩
    dsimp only
    rw [hagrees, hbefore, hrevision, hstrays]
    rcases hover rfl with ⟨rfl, hnone⟩ | ⟨rfl, hone | ⟨-, hpositive, -⟩⟩ <;> omega
  all_goals
    obtain ⟨rfl, hnone⟩ := hinside rfl
    have hbefore := hc.running (by simp)
    simp only [Stage.unannounced, Nat.add_zero, Stage.selects, hnone, Stage.lead, if_true, if_false,
      Bool.false_eq_true, reduceCtorEq] at hrevision hempty hstrays hagrees hlag hsum hbefore
  case halt =>
    have hend : st'' = .ended := by
      rcases hst'' with rfl | ⟨e', rfl⟩ <;> rfl
    have hne : target ≠ .expansion := by
      rintro rfl
      exact absurd hi.phase.2 (by decide)
    subst hend
    refine ⟨fun hne => absurd rfl hne, fun _ => ?_⟩
    rw [if_neg hne] at hagrees
    dsimp only
    rw [hagrees, hbefore]
    omega
  case spent | frontierEmpty | accepted =>
    have hend : st'' = .ended := by
      rcases hst'' with rfl | ⟨e', rfl⟩ <;> rfl
    subst hend
    refine ⟨fun hne => absurd rfl hne, fun _ => ?_⟩
    dsimp only
    rw [hagrees, hbefore]
    omega
  case prepared n =>
    have hpositive := hreviving n rfl
    refine ⟨fun _ => ?_, fun he => ?_⟩
    · dsimp only
      rw [hagrees, hbefore]
      omega
    · rcases hst'' with rfl | ⟨e', rfl⟩ <;> cases he
  all_goals
    refine ⟨fun _ => ?_, fun he => ?_⟩
    · dsimp only
      rw [hagrees, hbefore]
      omega
    · rcases hst'' with rfl | ⟨e', rfl⟩ <;> cases he

theorem numbered_of_reach {task : Str} {draws : Nat} {c : Stage K × RunState K W}
    (h : Reach ctl rt task draws c) : Numbered rt c := by
  refine h.strengthen (P := Numbered rt) (fun world => ⟨fun _ => ⟨fun _ => ⟨rfl, rfl⟩, fun _ => rfl⟩,
    fun he => by cases he⟩) fun c c' hr hc hs => ?_
  cases hs with
  | advance edge legal =>
    exact numbered_of_edge edge legal hr.inv hr.paced hc hr.history_eq rfl (Or.inl rfl)
  | advanceRaised edge legal =>
    exact numbered_of_edge edge legal hr.inv hr.paced hc hr.history_eq rfl (Or.inr ⟨_, rfl⟩)
  | refuse => exact ⟨fun hne => absurd rfl hne, fun _ => hc.ended rfl⟩
  | pollCancel | pollDeadline | revise =>
    refine ⟨fun _ => hc.running (by simp), fun he => ?_⟩
    dsimp only at he
    split at he <;> cases he
  | _ => exact ⟨fun _ => hc.running (by simp), fun he => by cases he⟩

/-- The replay of a result numbers its transitions as the run did and ends at its iterations. -/
structure ReplaysIterations (rt : Runtime K W) (r : SearchResult K) (log : List (Obs K)) : Prop where
  same : (replayEvents r.phaseHistory 0).map (·.iteration) = (eventsIn rt log).map (·.iteration)
  last : (replayEvents r.phaseHistory 0).getLast?.map (·.iteration) = some r.iterations

section Replays

variable (ctl : TreeSearchController K W) (rt : Runtime K W) (task : Str) (draws : Nat) (world : W)

/-- A replay reproduces the iterations of a run exactly when no revision was granted, no revision
request raised and the frontier was never found empty. -/
theorem run_replays_iterations_iff {r : SearchResult K} {s : RunState K W}
    (hrun : ctl.run rt task draws world = .ok r s) : ReplaysIterations rt r s.log ↔
      grantedIn s.log = [] ∧ (∀ n e, .revise n (.error e) ∉ s.log) ∧
        ∀ t ∈ r.phaseHistory, t.isFrontierEmpty = false := by
  have hreport := run_spec ctl rt task draws world
  rw [hrun] at hreport
  replace hreport : Reported ctl rt task draws r s := hreport
  have hnumbered := (numbered_of_reach hreport.reach).ended rfl
  have hgrants : countIn PhaseTransition.isRevision s.log = 0 ↔ grantedIn s.log = [] := by
    rw [← List.length_eq_zero_iff]
    exact iff_of_eq (congrArg (· = 0) hreport.reach.granted.announced)
  have hraised : s.log.countP Obs.isReviseFault = 0 ↔ ∀ n e, .revise n (.error e) ∉ s.log := by
    rw [List.countP_eq_zero]
    refine ⟨fun h n e hmem => h _ hmem rfl, fun h o ho hfault => ?_⟩
    cases o with
    | revise n answer =>
      cases answer with
      | error e => exact h n e ho
      | ok granted => cases hfault
    | _ => cases hfault
  have hempty : countIn PhaseTransition.isFrontierEmpty s.log = 0 ↔
      ∀ t ∈ r.phaseHistory, t.isFrontierEmpty = false := by
    rw [hreport.phaseHistory, hreport.reach.history_eq, countIn, List.countP_eq_zero]
    simp
  have hiff : Agrees rt s ↔ grantedIn s.log = [] ∧ (∀ n e, .revise n (.error e) ∉ s.log) ∧
      ∀ t ∈ r.phaseHistory, t.isFrontierEmpty = false := by
    rw [hnumbered, ← hgrants, ← hraised, ← hempty, strays, Nat.add_eq_zero_iff]
  rw [← hiff]
  refine ⟨fun h => ?_, fun h => ⟨?_, ?_⟩⟩
  · rw [Agrees, ← hreport.phaseHistory]
    exact h.same
  · rw [hreport.phaseHistory]
    exact h
  · obtain ⟨hrevisions, hstrays⟩ := hnumbered.mp h
    obtain ⟨⟨lag, hlag, -, hover⟩, -⟩ := hreport.reach.paced
    dsimp only at hlag hover hrevisions hstrays
    have hiteration : s.iteration = countIn (PhaseTransition.enters .expansion) s.log := by
      rcases hover rfl with ⟨rfl, -⟩ | ⟨-, hone | ⟨-, hpositive, -⟩⟩ <;> omega
    have hterminal : s.machine.phase.isTerminal = true := hreport.reach.inv.phase
    have hne : s.machine.history ≠ [] := by
      intro hnil
      rw [s.machine.chained.phase_of_nil hnil] at hterminal
      cases hterminal
    rw [hreport.iterations, hiteration, hreport.phaseHistory, getLast?_replayEvents hne,
      hreport.reach.history_eq, List.countP_reverse, Nat.zero_add]
    rfl

/-- The same for a small run that spends its budget. -/
theorem run_replays_iterations_iff_small :
    ∃ r s, (pathController smallConfig (fun _ => [lit "go on"]) (fun _ => halfway) :
        TreeSearchController ℚ Unit).run (Runtime.still fun _ _ => 0) (lit "task") 0 () = .ok r s ∧
      (ReplaysIterations (Runtime.still fun _ _ => 0 : Runtime ℚ Unit) r s.log ↔
        grantedIn s.log = [] ∧ (∀ n e, .revise n (.error e) ∉ s.log) ∧
          ∀ t ∈ r.phaseHistory, t.isFrontierEmpty = false) := by
  obtain ⟨r, s, hrun, -⟩ := exists_ok_of_returned (show (returned ((pathController smallConfig
    (fun _ => [lit "go on"]) (fun _ => halfway) : TreeSearchController ℚ Unit).run
      (Runtime.still fun _ _ => 0) (lit "task") 0 ())).map (fun r => r.outcome) =
        some .exhausted by decide +kernel)
  exact ⟨r, s, hrun, run_replays_iterations_iff _ _ _ _ _ hrun⟩

/-- Without a candidate the root collapses: the second iteration finds the frontier empty, and
the replay of that run ends in its first iteration. -/
theorem run_replays_other_iterations :
    ∃ r s, (pathController smallConfig (fun _ => []) (fun _ => halfway) :
        TreeSearchController ℚ Unit).run (Runtime.still fun _ _ => 0) (lit "task") 0 () = .ok r s ∧
      ¬ ReplaysIterations (Runtime.still fun _ _ => 0 : Runtime ℚ Unit) r s.log := by
  obtain ⟨r, s, hrun, hlast⟩ := exists_ok_of_returned (show (returned ((pathController smallConfig
    (fun _ => []) (fun _ => halfway) : TreeSearchController ℚ Unit).run
      (Runtime.still fun _ _ => 0) (lit "task") 0 ())).map (fun r =>
        ((replayEvents r.phaseHistory 0).getLast?.map (·.iteration), r.iterations)) =
          some (some 1, 2) by decide +kernel)
  obtain ⟨hreplayed, hiterations⟩ := Prod.mk.inj hlast
  refine ⟨r, s, hrun, fun h => ?_⟩
  have heq := h.last
  rw [hreplayed, hiterations] at heq
  cases heq

end Replays

end CognitiveTree.Persistence
