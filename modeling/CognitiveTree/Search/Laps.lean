import CognitiveTree.Core.Lockstep
import CognitiveTree.Search.Controller

/-!
# Laps of the main loop

One pass through the main loop marks its head, asks the limits in their order and, when
none of them holds, runs an iteration. The loop repeats such laps.
-/

namespace CognitiveTree.Search

variable {K W : Type} [PyFloat K] (ctl : TreeSearchController K W) (rt : Runtime K W)

/-- The stop checks at the head of the main loop: the first limit that holds, with its note. -/
def checkLimits (deadline : Option K) : Run K W (Option (SearchPhase × Str)) := do
  markBoundary
  if ← cancelRequested rt then pure (some (.cancelled, lit "run cancelled by its caller"))
  else if ← deadlinePassed rt deadline then
    pure (some (.timedOut, lit "wall-clock budget of " ++
      (ctl.config.maxWallSeconds.map PyFloat.general).getD [] ++ lit "s exhausted"))
  else
    let reason ← stopReason ctl
    pure (reason.map fun text => (.budgetExhausted, text))

/-- Halt for a limit, or run an iteration. -/
def haltOrIterate : Option (SearchPhase × Str) → Run K W Bool
  | some limit => do
    advance ctl rt limit.1 none limit.2
    pure false
  | none => iterate ctl rt

/-- One pass through the main loop; `true` asks for another. -/
def lap (deadline : Option K) : Run K W Bool :=
  checkLimits ctl rt deadline >>= haltOrIterate ctl rt

/-- At most this many passes; `true` when all of them ask for another. -/
def laps (deadline : Option K) : Nat → Run K W Bool
  | 0 => pure true
  | k + 1 => do if ← lap ctl rt deadline then laps deadline k else pure false

/-- The main loop is a lap and the rest of the loop. -/
theorem searchLoop_succ (deadline : Option K) (n : Nat) : searchLoop ctl rt deadline (n + 1) =
    lap ctl rt deadline >>= fun again => if again then searchLoop ctl rt deadline n else pure ⟨⟩ := by
  rw [searchLoop, lap, checkLimits]
  simp only [bind_assoc]
  congr 1
  funext _
  congr 1
  funext cancelled
  cases cancelled with
  | true => simp [haltOrIterate]
  | false =>
    simp only [Bool.false_eq_true, if_false, bind_assoc]
    congr 1
    funext passed
    cases passed with
    | true => simp [haltOrIterate]
    | false =>
      simp only [Bool.false_eq_true, if_false, bind_assoc]
      congr 1
      funext reason
      cases reason <;> simp [haltOrIterate]

/-- After some laps the loop has the rest of its budget left. -/
theorem searchLoop_add (deadline : Option K) (k n : Nat) : searchLoop ctl rt deadline (k + n) =
    laps ctl rt deadline k >>= fun go => if go then searchLoop ctl rt deadline n else pure ⟨⟩ := by
  induction k with
  | zero => simp [laps]
  | succ k ih =>
    rw [Nat.add_right_comm, searchLoop_succ, laps, bind_assoc]
    congr 1
    funext again
    cases again <;> simp [ih]

/-- The last of several laps. -/
theorem laps_succ_of_ok {ctl : TreeSearchController K W} {rt : Runtime K W} {deadline : Option K}
    {k : Nat} {again : Bool} {s t u : RunState K W} (hlaps : laps ctl rt deadline k s = .ok true t)
    (hlap : lap ctl rt deadline t = .ok again u) :
    laps ctl rt deadline (k + 1) s = .ok again u := by
  induction k generalizing s with
  | zero =>
    cases hlaps
    rw [laps, bind_of_ok hlap]
    cases again <;> rfl
  | succ k ih =>
    obtain ⟨first, v, hfirst, hrest⟩ := exists_ok_of_bind hlaps
    rw [laps, bind_of_ok hfirst]
    cases first with
    | false => cases hrest
    | true => exact ih hrest

/-- The part of a run before its main loop; its value is the deadline. -/
def openRun : Run K W (Option K) := do
  let deadline ← startDeadline ctl rt
  advance ctl rt .selection none (lit "search started")
  pure deadline

/-- The part of a run from its main loop on; its value is the error text. -/
def driveRun (deadline : Option K) : Run K W Str := do
  let error ← guardedLoop ctl rt deadline
  closeBudget ctl rt
  pure error

/-- The result is read off the state in which the run ended. -/
def assemble (error : Str) : Run K W (SearchResult K) := do
  let s ← get
  (outcomeByPhase s.machine.phase).elim (raise ⟨lit "KeyError", s.machine.phase.value⟩)
    fun outcome => pure (s.report outcome error)

theorem finish_eq (error : Str) : finish ctl rt error =
    closeBudget ctl rt >>= fun _ => assemble error := by
  unfold finish assemble
  congr 1
  funext _
  congr 1
  funext s
  cases outcomeByPhase s.machine.phase <;> rfl

/-- A run in three parts. -/
theorem run_eq_parts (task : Str) (draws : Nat) (world : W) : ctl.run rt task draws world =
    (openRun ctl rt >>= driveRun ctl rt >>= assemble) (startState rt task draws world) := by
  unfold TreeSearchController.run search openRun driveRun
  simp only [finish_eq, bind_assoc, pure_bind]

variable {ctl rt} in
/-- A main loop that returned leaves the budget to be closed. -/
theorem driveRun_of_ok {deadline : Option K} {s t : RunState K W}
    (h : searchLoop ctl rt deadline ctl.config.maxIterations s = .ok ⟨⟩ t) :
    driveRun ctl rt deadline s = (closeBudget ctl rt >>= fun _ => pure []) t := by
  have hloop : guardedLoop ctl rt deadline s = .ok [] t :=
    tryCatch_of_ok (by rw [bind_of_ok h]; rfl)
  rw [driveRun, bind_of_ok hloop]

variable {ctl rt} in
/-- A main loop that raised leaves the exception to the handler. -/
theorem driveRun_of_error {deadline : Option K} {s t : RunState K W} {e : Signal}
    (h : searchLoop ctl rt deadline ctl.config.maxIterations s = .error e t) :
    driveRun ctl rt deadline s =
      (onFault ctl rt e >>= fun error => closeBudget ctl rt >>= fun _ => pure error) t := by
  have hloop : guardedLoop ctl rt deadline s = onFault ctl rt e t :=
    tryCatch_of_error (bind_of_error h)
  change EStateM.bind (guardedLoop ctl rt deadline) _ s = EStateM.bind (onFault ctl rt e) _ t
  unfold EStateM.bind
  rw [hloop]

variable {ctl rt} in
theorem closeBudget_terminal {s : RunState K W} (h : s.machine.isTerminal = true) :
    closeBudget ctl rt s = .ok ⟨⟩ s := by
  rw [closeBudget, get_bind_run, if_pos h]
  rfl

variable {ctl rt} in
theorem closeBudget_open {s : RunState K W} (h : s.machine.isTerminal = false) :
    closeBudget ctl rt s = advance ctl rt .exhausted none (lit "iteration budget spent") s := by
  rw [closeBudget, get_bind_run, if_neg (by simp [h])]

/-- After `k` completed iterations a new controller is at the head of its main loop in this
state. -/
def AtHead (task : Str) (world : W) (k : Nat) (deadline : Option K) (s : RunState K W) : Prop :=
  ∃ s₀, openRun ctl rt (startState rt task 0 world) = .ok deadline s₀ ∧
    laps ctl rt deadline k s₀ = .ok true s

/-- The limit that ends a run at the head of its main loop, by the phase it leads to. -/
inductive Stops (k : Nat) (deadline : Option K) (s : RunState K W) : SearchPhase → Prop
  /-- the iteration budget is spent -/
  | budget : k = ctl.config.maxIterations → Stops k deadline s .exhausted
  /-- the first limit that holds -/
  | limit {phase : SearchPhase} {note : Str} {u : RunState K W} : k < ctl.config.maxIterations →
      checkLimits ctl rt deadline s = .ok (some (phase, note)) u → Stops k deadline s phase
  /-- the stop condition raises -/
  | raised {e : Signal} {u : RunState K W} : k < ctl.config.maxIterations →
      checkLimits ctl rt deadline s = .error e u → Stops k deadline s .failed

end CognitiveTree.Search
