import CognitiveTree.Search.Laps
import CognitiveTree.Search.Outcome

/-!
# What a run carries along

A fact about the world and the iteration counter that holds at the start of a run holds at its end,
when the surroundings of the policies keep it and every iteration that the limits let start does.
-/

namespace CognitiveTree.Search

variable {K W α : Type} [PyFloat K]

/-- A fact about the world and the iteration counter, as one about the state of a run. -/
def RunState.Bears (Q : W → Nat → Prop) (s : RunState K W) : Prop := Q s.world s.iteration

/-- The program keeps the fact, however it ends. -/
abbrev Carries (Q : W → Nat → Prop) (x : Run K W α) : Prop :=
  Triple (RunState.Bears Q) x (fun _ => RunState.Bears Q) fun _ => RunState.Bears Q

/-- What is asked around the policies keeps the fact. -/
structure Surrounded (ctl : TreeSearchController K W) (rt : Runtime K W) (Q : W → Nat → Prop) :
    Prop where
  clock : ∀ w i, Q w i → Q (rt.monotonic w).2 i
  cancel : ∀ isSet, rt.cancelled = some isSet → ∀ w i, Q w i → Q (isSet w).2 i
  condition : ∀ check, ctl.stopCondition = some check → ∀ w i, Q w i → Q (check w).2 i
  sink : ∀ sink, ctl.onEvent = some sink → ∀ event tree w i, Q w i → Q (sink event tree w).2 i

namespace Surrounded

variable {ctl : TreeSearchController K W} {rt : Runtime K W} {Q : W → Nat → Prop}
  (h : Surrounded ctl rt Q)

include h

/-- A transition carries what the state bears. -/
theorem mirrored {s : RunState K W} {target : SearchPhase} {node : Option Nat} {detail : Str}
    (hcan : s.machine.canTransition target = true) (hs : s.Bears Q) :
    ((s.transitioned rt target node detail hcan).mirrored ctl rt target node detail).1.Bears Q := by
  have hclock : (s.transitioned rt target node detail hcan).Bears Q := h.clock s.world _ hs
  generalize s.transitioned rt target node detail hcan = t at hclock ⊢
  unfold RunState.mirrored
  cases hsink : ctl.onEvent with
  | none => exact hclock
  | some sink =>
    have hkept := h.sink sink hsink ⟨t.iteration, target, node.map rt.freshId, detail⟩ t.tree t.world
      _ hclock
    dsimp only
    split
    · rename_i hreply
      rw [hreply] at hkept
      exact hkept
    · rename_i hreply
      rw [hreply] at hkept
      exact hkept

/-- Entering a phase carries it. -/
theorem advance (target : SearchPhase) (node : Option Nat) (detail : Str) :
    Carries Q (advance ctl rt target node detail) := by
  intro s hs
  cases hcan : s.machine.canTransition target with
  | false =>
    rw [advance_refused ctl rt node detail hcan]
    exact hs
  | true =>
    have hkept := @Surrounded.mirrored K W _ ctl rt Q h s target node detail hcan hs
    rw [advance_run ctl rt node detail hcan]
    cases ((s.transitioned rt target node detail hcan).mirrored ctl rt target node detail).2 <;>
      exact hkept

/-- Starting the clock carries it. -/
theorem startDeadline : Carries Q (startDeadline ctl rt) := by
  unfold Search.startDeadline
  cases ctl.config.maxWallSeconds with
  | none => exact Triple.pure _ fun s hs => hs
  | some seconds => exact fun s hs => h.clock s.world _ hs

/-- Opening a run carries it. -/
theorem openRun : Carries Q (openRun ctl rt) :=
  Triple.bind h.startDeadline fun _ => Triple.bind (h.advance _ _ _) fun _ =>
    Triple.pure _ fun _ hs => hs

/-- Checking the limits carries it. -/
theorem checkLimits (deadline : Option K) : Carries Q (checkLimits ctl rt deadline) := by
  have hcancel : Carries Q (K := K) (cancelRequested rt) := by
    unfold cancelRequested
    cases hc : rt.cancelled with
    | none => exact Triple.pure _ fun s hs => hs
    | some isSet => exact fun s hs => h.cancel isSet hc s.world _ hs
  have hdeadline : Carries Q (deadlinePassed rt deadline) := by
    cases deadline with
    | none => exact Triple.pure _ fun s hs => hs
    | some limit => exact fun s hs => h.clock s.world _ hs
  have hstop : Carries Q (stopReason ctl) := by
    unfold stopReason
    cases hc : ctl.stopCondition with
    | none => exact Triple.pure _ fun s hs => hs
    | some check =>
      refine Triple.get_bind fun s hs => ?_
      refine Triple.bind (Q := fun _ => RunState.Bears Q)
        (Triple.set _ fun _ _ => h.condition check hc s.world _ hs) fun _ => ?_
      cases (check s.world).1 with
      | error e => exact Triple.throw _ fun t ht => ht
      | ok reason => exact Triple.pure _ fun t ht => ht
  refine Triple.bind (Triple.modify _ fun _ hs => hs) fun _ => Triple.bind hcancel fun cancelled => ?_
  cases cancelled with
  | true => exact Triple.pure _ fun s hs => hs
  | false =>
    refine Triple.bind hdeadline fun passed => ?_
    cases passed with
    | true => exact Triple.pure _ fun s hs => hs
    | false => exact Triple.bind hstop fun reason => Triple.pure _ fun s hs => hs

/-- Ending with the budget carries it. -/
theorem closeBudget : Carries Q (closeBudget ctl rt) := by
  refine Triple.get_bind fun s hs => ?_
  split
  · exact Triple.pure _ fun t ht => ht ▸ hs
  · exact (h.advance _ _ _).pre fun t ht => ht ▸ hs

/-- Ending with a fault carries it. -/
theorem onFault (e : Signal) : Carries Q (onFault ctl rt e) := by
  cases e with
  | diverged => exact Triple.throw _ fun s hs => hs
  | raised e => exact Triple.bind (h.advance _ _ _) fun _ => Triple.pure _ fun s hs => hs

end Surrounded

section Run

variable {ctl : TreeSearchController K W} {rt : Runtime K W} {Q : W → Nat → Prop} {task : Str}
  {draws : Nat}

/-- An iteration that the limits let start keeps the fact. -/
def Iterates (ctl : TreeSearchController K W) (rt : Runtime K W) (task : Str) (draws : Nat)
    (Q : W → Nat → Prop) : Prop :=
  ∀ deadline s u, checkLimits ctl rt deadline s = .ok none u →
    Reach ctl rt task draws (.boundary, u) → u.iteration < ctl.config.maxIterations → u.Bears Q →
      (finalState (iterate ctl rt u)).Bears Q

variable (h : Surrounded ctl rt Q) (hiterates : Iterates ctl rt task draws Q)

include h hiterates

/-- A lap of the main loop keeps it. -/
theorem carries_lap {deadline : Option K} (hseconds : deadline ≠ none → ctl.config.maxWallSeconds ≠ none)
    {k : Nat} (hk : k < ctl.config.maxIterations) :
    Triple (fun s => (Reach ctl rt task draws (.boundary, s) ∧ s.iteration = k) ∧ s.Bears Q)
      (lap ctl rt deadline) (fun _ => RunState.Bears Q) fun _ => RunState.Bears Q := by
  rintro s ⟨hs, hbears⟩
  have hlimits := ((Reach.follows ctl rt task draws k).checkLimits deadline hseconds) s hs
  have hkept := h.checkLimits deadline s hbears
  unfold lap
  cases hr : checkLimits ctl rt deadline s with
  | error e u =>
    rw [hr] at hkept
    rw [bind_of_error hr]
    exact hkept
  | ok limit u =>
    rw [hr] at hlimits hkept
    rw [bind_of_ok hr]
    cases limit with
    | none =>
      have hend := hiterates deadline s u hr hlimits.1 (by rw [hlimits.2]; exact hk) hkept
      refine Triple.iff_finalState (P := (· = u)).mpr ?_ u rfl
      rintro _ rfl
      exact hend
    | some limit =>
      have hhalt : Carries Q (haltOrIterate ctl rt (some limit)) :=
        Triple.bind (h.advance _ _ _) fun _ => Triple.pure _ fun t ht => ht
      exact hhalt u hkept

/-- So does the main loop. -/
theorem carries_searchLoop {deadline : Option K}
    (hseconds : deadline ≠ none → ctl.config.maxWallSeconds ≠ none) (remaining k : Nat)
    (hbudget : k + remaining = ctl.config.maxIterations) :
    Triple (fun s => (Reach ctl rt task draws (.boundary, s) ∧ s.iteration = k) ∧ s.Bears Q)
      (searchLoop ctl rt deadline remaining) (fun _ => RunState.Bears Q) fun _ =>
        RunState.Bears Q := by
  induction remaining generalizing k with
  | zero => exact Triple.modify _ fun s hs => hs.2
  | succ remaining ih =>
    rw [searchLoop_succ]
    have hlap := Triple.and (@lap_spec K W _ ctl rt task draws deadline hseconds k)
      (carries_lap h hiterates hseconds (by omega : k < ctl.config.maxIterations))
    refine Triple.bind (hlap.conseq (fun s hs => ⟨⟨hs.1.1, hs.1.2, by omega⟩, hs⟩) (fun _ _ hs => hs)
      fun _ _ hs => hs.2) fun again => Triple.ite (fun hagain => ?_) fun _ => Triple.pure _ fun s hs => hs.2
    exact (ih (k + 1) (by omega)).pre fun s hs => ⟨hs.1.1 hagain, hs.2⟩

/-- And so does a run. -/
theorem carries_run {world : W} (hworld : Q world 0) :
    (finalState (ctl.run rt task draws world)).Bears Q := by
  have hopen := Triple.and (@openRun_spec K W _ ctl rt task draws) h.openRun
  have hrest : Triple (fun s => (∃ w, s = startState rt task draws w) ∧ s.Bears Q)
      (openRun ctl rt >>= driveRun ctl rt >>= assemble) (fun _ => RunState.Bears Q)
      fun _ => RunState.Bears Q := by
    refine Triple.bind (Q := fun _ => RunState.Bears Q) (Triple.bind (hopen.conseq (fun s hs => hs)
      (fun _ _ hs => hs) fun _ _ hs => hs.2) fun deadline => ?_) fun error => ?_
    · refine Triple.of_forall fun s hs => ?_
      obtain ⟨⟨hseconds, hs⟩, hbears⟩ := hs
      have hloop := carries_searchLoop h hiterates hseconds ctl.config.maxIterations 0 (Nat.zero_add _)
      refine Triple.bind (Q := fun _ => RunState.Bears Q) (Triple.tryCatch (Triple.bind (hloop.pre ?_)
        fun _ => Triple.pure _ fun t ht => ht) h.onFault) fun error => Triple.bind h.closeBudget
          fun _ => Triple.pure _ fun t ht => ht
      rintro _ rfl
      exact ⟨hs, hbears⟩
    · refine Triple.get_bind fun s hs => ?_
      cases outcomeByPhase s.machine.phase with
      | none => exact Triple.throw _ fun t ht => ht ▸ hs
      | some outcome => exact Triple.pure _ fun t ht => ht ▸ hs
  rw [run_eq_parts]
  exact Triple.iff_finalState.mp hrest _ ⟨⟨world, rfl⟩, hworld⟩

end Run

end CognitiveTree.Search
