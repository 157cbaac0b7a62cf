import CognitiveTree.Sandbox.Evaluation
import CognitiveTree.Search.Atomicity
import CognitiveTree.Search.PathPolicy

/-!
# Runs graded by execution

In a run whose evaluator executes code, every verdict goes back to one execution of the
node's own payload, and the record of that execution stays in the node's metadata as long as
no other policy writes there. A fault of the infrastructure raises, so it stores no verdict.
-/

namespace CognitiveTree.Sandbox

open Search

variable {K W : Type} [PyFloat K]

/-- The log has the verdict that one execution of the payload and the harness was graded with,
and the executor was called in the world of that moment. -/
def Executed (ev : CodeExecutionEvaluator K W) (ctl : TreeSearchController K W) (rt : Runtime K W)
    (task : Str) (draws : Nat) (log : List (Obs K)) (d : Nat) (payload : Str)
    (result : ExecutionResult K) : Prop :=
  ∃ (c : Stage K × RunState K W) (newer : List (Obs K)) (request : ExecutionRequest K),
    Reach ctl rt task draws c ∧ log = newer ++ .evaluate d (ev.grade result) :: c.2.log ∧
    request.code = ev.program payload ∧ (ev.executor request c.2.world).1 = .ok result

/-- What a verdict goes back to: a thought without payload and no record, or an execution and
its record. -/
inductive Recorded (ev : CodeExecutionEvaluator K W) (ctl : TreeSearchController K W)
    (rt : Runtime K W) (task : Str) (draws : Nat) (log : List (Obs K)) (d : Nat) (content : Str)
    (v : Evaluation K) : Option (PyVal K) → Prop
  | bare (bare : extractPythonPayload content = none) (score : v.score = ev.missingPayloadScore)
      (unaccepted : v.isTerminal = false) : Recorded ev ctl rt task draws log d content v none
  | ran (payload : Str) (result : ExecutionResult K)
      (extracted : extractPythonPayload content = some payload)
      (executed : Executed ev ctl rt task draws log d payload result)
      (graded : ev.grade result = .ok v) :
      Recorded ev ctl rt task draws log d content v (some result.toDict)

/-- Records and verdicts agree. -/
structure RecordLedger (ev : CodeExecutionEvaluator K W) (ctl : TreeSearchController K W)
    (rt : Runtime K W) (task : Str) (draws : Nat) (c : Stage K × RunState K W) : Prop where
  recorded : ∀ d v, (d, .ok v) ∈ evaluationsIn c.2.log → Recorded ev ctl rt task draws c.2.log d
    (c.2.tree.arena.node d).content v (c.2.entry d executionKey)
  blank : ∀ d, d < c.2.tree.arena.size → d ∉ (evaluationsIn c.2.log).map Prod.fst →
    c.2.entry d executionKey = none

variable {ev : CodeExecutionEvaluator K W} {ctl : TreeSearchController K W} {rt : Runtime K W}
  {task : Str} {draws : Nat}

theorem Executed.mono {log log' : List (Obs K)} {d : Nat} {payload : Str}
    {result : ExecutionResult K} (h : Executed ev ctl rt task draws log d payload result)
    (hlog : ∃ newer, log' = newer ++ log) : Executed ev ctl rt task draws log' d payload result := by
  obtain ⟨c, newer, request, hreach, rfl, hcode, hexec⟩ := h
  obtain ⟨newest, rfl⟩ := hlog
  exact ⟨c, newest ++ newer, request, hreach, (List.append_assoc ..).symm, hcode, hexec⟩

theorem Recorded.mono {log log' : List (Obs K)} {d : Nat} {content : Str} {v : Evaluation K}
    {entry : Option (PyVal K)} (h : Recorded ev ctl rt task draws log d content v entry)
    (hlog : ∃ newer, log' = newer ++ log) :
    Recorded ev ctl rt task draws log' d content v entry := by
  cases h with
  | bare bare score unaccepted => exact .bare bare score unaccepted
  | ran payload result extracted executed graded =>
    exact .ran payload result extracted (executed.mono hlog) graded

/-- A verdict that was created has the given score and flag. -/
theorem create_fields {score : K} {isTerminal : Bool} {rationale : Str} {v : Evaluation K}
    (h : Evaluation.create score isTerminal rationale = .ok v) :
    v.score = score ∧ v.isTerminal = isTerminal := by
  unfold Evaluation.create at h
  split at h
  · cases h
    exact ⟨rfl, rfl⟩
  · cases h

/-- The verdict of one call goes back to what the call left behind. -/
theorem recorded_of_evaluated {c : Stage K × RunState K W} (hr : Reach ctl rt task draws c) {d : Nat}
    {content : Str} {reply : Reply K W (Evaluation K)} {v : Evaluation K}
    (hspec : ev.Evaluated d content c.2.metadata c.2.world reply) (answer : reply.answer = .ok v)
    (blank : c.2.entry d executionKey = none) :
    Recorded ev ctl rt task draws (.evaluate d reply.answer :: c.2.log) d content v
      (Dict.get? (reply.metadata d) executionKey) := by
  cases hspec with
  | bare hnone =>
    obtain ⟨hscore, hterminal⟩ := create_fields answer
    rw [show Dict.get? (c.2.metadata d) executionKey = none from blank]
    exact .bare hnone hscore hterminal
  | broken payload request e world' => cases answer
  | ran payload request result world' extracted code executed =>
    rw [CodeExecutionEvaluator.record_entry, if_pos ⟨rfl, rfl⟩]
    refine .ran payload result extracted ?_ answer
    exact ⟨c, [], request, hr, rfl, code, by rw [executed]⟩

/-- Other nodes keep their records. -/
theorem entry_of_evaluated {d x : Nat} {content : Str} {metadata : Nat → Metadata K} {world : W}
    {reply : Reply K W (Evaluation K)} (hspec : ev.Evaluated d content metadata world reply)
    (hx : x ≠ d) : Dict.get? (reply.metadata x) executionKey =
      Dict.get? (metadata x) executionKey := by
  cases hspec with
  | bare => rfl
  | broken => rfl
  | ran payload request result world' =>
    rw [CodeExecutionEvaluator.record_entry, if_neg fun hxd => hx hxd.1]

section Ledger

variable (hev : ctl.evaluator = ev.evaluate)

include hev

/-- A call of the evaluator keeps records and verdicts in agreement. -/
theorem RecordLedger.asked {c c' : Stage K × RunState K W} (hr : Reach ctl rt task draws c)
    (h : RecordLedger ev ctl rt task draws c) (hask : Asked ctl .evaluator c c') :
    RecordLedger ev ctl rt task draws c' := by
  cases hask with
  | @evaluator s n d batch results reply pending fresh hreply =>
    have hd : d ∉ (evaluationsIn s.log).map Prod.fst :=
      hr.verdictLedger.waiting d (List.mem_filter.mpr ⟨pending, by simpa using fresh⟩)
    have hblank : s.entry d executionKey = none :=
      h.blank d ((hr.inv.working n rfl).mem_alloc pending) hd
    have hspec := ev.evaluate_spec d s.tree.arena s.metadata s.world
    rw [← hev, ← hreply] at hspec
    refine ⟨fun x v hx => ?_, fun x hx hnew => ?_⟩
    · rcases List.mem_cons.mp hx with he | hx
      · obtain ⟨rfl, answer⟩ := Prod.mk.inj he
        exact recorded_of_evaluated hr hspec answer.symm hblank
      · have hne : x ≠ d := fun he => hd (he ▸ List.mem_map_of_mem hx)
        have hold : Recorded ev ctl rt task draws (.evaluate d reply.answer :: s.log) x
            (s.tree.arena.node x).content v (s.entry x executionKey) :=
          (h.recorded x v hx).mono ⟨[_], rfl⟩
        rw [RunState.entry, ← entry_of_evaluated hspec hne] at hold
        exact hold
    · have hparts : x ≠ d ∧ x ∉ (evaluationsIn s.log).map Prod.fst :=
        not_or.mp fun hor => hnew (List.mem_cons.mpr hor)
      exact (entry_of_evaluated hspec hparts.1).trans (h.blank x hx hparts.2)

variable (hsole : ctl.SoleWriter executionKey .evaluator)

include hsole

theorem recordLedger {c : Stage K × RunState K W} (h : Reach ctl rt task draws c) :
    RecordLedger ev ctl rt task draws c := by
  refine h.strengthen (P := RecordLedger ev ctl rt task draws) (fun world => ?_) fun c c' hr hc hs => ?_
  · exact ⟨fun d v hd => absurd hd List.not_mem_nil, fun d _ _ => rfl⟩
  have hi := hr.inv
  by_cases hask : Asked ctl .evaluator c c'
  · exact RecordLedger.asked hev hr hc hask
  · have hlog := hs.verdicts_eq hi hask
    obtain ⟨hold, hnew⟩ := hs.entry_eq hi hsole (Or.inr (by decide)) hask
    have hledger := hr.verdictLedger
    refine ⟨fun d v hd => ?_, fun d hd hfresh => ?_⟩
    · rw [hlog] at hd
      have hsize := (hledger.alloc _ hd).2
      rw [hold d hsize, hs.content_eq hi hsize]
      exact (hc.recorded d v hd).mono (hs.log_extends hi)
    · rw [hlog] at hfresh
      by_cases hsize : d < c.2.tree.arena.size
      · exact (hold d hsize).trans (hc.blank d hsize hfresh)
      · exact hnew d (Nat.not_lt.mp hsize) hd

end Ledger

section CleanExecutions

variable (ev ctl rt task draws) (world : W)

/-- In every run graded by execution, an accepted node carries a payload that was executed with
the harness behind it and exited cleanly, as its metadata record; and once an evaluation has
raised, the run fails with the tree that was handed over for evaluation. A fault of the sandbox
raises. -/
theorem run_accepts_only_clean_executions (hev : ctl.evaluator = ev.evaluate)
    (hsole : ctl.SoleWriter executionKey .evaluator) :
    (∀ d, d < (finalState (ctl.run rt task draws world)).tree.arena.size →
      ((finalState (ctl.run rt task draws world)).tree.arena.node d).status = .terminal →
      ∃ payload result, extractPythonPayload
          ((finalState (ctl.run rt task draws world)).tree.arena.node d).content = some payload ∧
        Executed ev ctl rt task draws (finalState (ctl.run rt task draws world)).log d payload result ∧
        (finalState (ctl.run rt task draws world)).entry d executionKey = some result.toDict ∧
        result.status = .completed ∧ result.exitCode = some 0) ∧
    (∀ d payload result, Executed ev ctl rt task draws (finalState (ctl.run rt task draws world)).log
        d payload result → result.status = .sandboxError →
      ∃ e, .evaluate d (.error e) ∈ (finalState (ctl.run rt task draws world)).log) ∧
    ∀ d e, .evaluate d (.error e) ∈ (finalState (ctl.run rt task draws world)).log →
      (finalState (ctl.run rt task draws world)).machine.phase = .failed ∧
      (∀ r s, ctl.run rt task draws world = .ok r s → r.outcome = .failed) ∧
      ∃ n tree₀, HandedOver (finalState (ctl.run rt task draws world)).log n tree₀
        (finalState (ctl.run rt task draws world)).tree := by
  obtain ⟨st, hreach⟩ := run_reach ctl rt task draws world
  refine ⟨fun d hd ht => ?_, fun d payload result hexecuted hfault => ?_, fun d e hraised => ?_⟩
  · obtain ⟨v, hv, hstatus, -⟩ := hreach.verdict_of_terminal (Arena.mem_terminals.mpr ⟨hd, ht⟩)
    have hterminal := (verdictStatus_eq_terminal.mp hstatus).1
    have hrecorded := (recordLedger hev hsole hreach).recorded d v hv
    generalize hentry : (finalState (ctl.run rt task draws world)).entry d executionKey = entry
      at hrecorded
    cases hrecorded with
    | bare _ _ unaccepted =>
      rw [hterminal] at unaccepted
      cases unaccepted
    | ran payload result extracted executed graded =>
      exact ⟨payload, result, extracted, executed, rfl,
        CodeExecutionEvaluator.ok_of_grade_terminal graded hterminal⟩
  · obtain ⟨c, newer, request, -, hlog, -⟩ := hexecuted
    rw [hlog, CodeExecutionEvaluator.grade, if_pos hfault]
    exact ⟨_, List.mem_append_right _ (List.mem_cons_self ..)⟩
  · obtain ⟨hphase, htrace⟩ := run_handedOver ctl rt task draws world hraised
    refine ⟨hphase, fun r s hrun => ?_, htrace⟩
    have hspec := run_spec ctl rt task draws world
    rw [hrun] at hspec hphase
    have houtcome := hspec.outcome
    rw [show s.machine.phase = .failed from hphase] at houtcome
    exact (Option.some.inj houtcome).symm

/-- An executor that runs everything to a clean exit. -/
def cleanEvaluator : CodeExecutionEvaluator ℚ Unit where
  executor _ world := (.ok ⟨.completed, some 0, [], [], 0, false, []⟩, world)
  harness := lit "check()"
  successScore := 1
  failureScore := 1 / 20
  timeoutScore := 0
  missingPayloadScore := 3 / 10
  terminalOnSuccess := true
  scores := by decide +kernel

/-- The generator proposes a fenced block, which that evaluator accepts. -/
def cleanController : TreeSearchController ℚ Unit where
  __ := pathController smallConfig (fun _ => [lit "~~~py\nx = 1\n~~~"]) fun _ => halfway
  evaluator := cleanEvaluator.evaluate

theorem cleanController_soleWriter (key : Str) : cleanController.SoleWriter key .evaluator := by
  rintro (_ | _ | _ | _ | _) hne
  case generator => exact fun _ _ _ _ _ _ => rfl
  case evaluator => exact absurd rfl hne
  all_goals
    intro policy hpolicy
    cases hpolicy

/-- The accepted node of a small run was executed. -/
theorem run_accepts_only_clean_executions_small :
    ∃ payload result, Executed cleanEvaluator cleanController (Runtime.still fun _ _ => 0) (lit "task") 0
        (finalState (cleanController.run (Runtime.still fun _ _ => 0) (lit "task") 0 ())).log 1 payload
        result ∧ result.exitCode = some 0 := by
  obtain ⟨payload, result, -, hexecuted, -, -, hexit⟩ :=
    (run_accepts_only_clean_executions cleanEvaluator cleanController (Runtime.still fun _ _ => 0)
      (lit "task") 0 () rfl (cleanController_soleWriter _)).1 1 (by decide +kernel) (by decide +kernel)
  exact ⟨payload, result, hexecuted, hexit⟩

end CleanExecutions

end CognitiveTree.Sandbox
