import CognitiveTree.Feedback.Attempts
import CognitiveTree.Feedback.Critic
import CognitiveTree.Sandbox.Verdicts
import CognitiveTree.Search.Selection

/-!
# Failed nodes and reopened nodes

A node that was pruned at its evaluation without a clean execution carries a critique with
guidance, because the critic diagnoses every record the evaluator can leave. The guidance of one
such child is enough for a revision note, so a saturated node with attempts left is reopened.
-/

namespace CognitiveTree.Feedback

open Search Sandbox

variable {K W : Type} [PyFloat K]

section Notes

/-- The entry is absent or a stored critique with guidance. -/
def CritiqueEntry (entry : Option (PyVal K)) : Prop :=
  entry = none ∨ ∃ critique : Critique K, entry = some critique.toDict ∧ Guiding critique

/-- The compiled lines cover every guidance that was not seen before. -/
theorem noteLines_spec (text : PyVal K → Str) {metadata : Nat → Metadata K} {children : List Nat}
    (h : ∀ c ∈ children, CritiqueEntry (Dict.get? (metadata c) critiqueMetadataKey)) (seen : List Str) :
    ∃ lines, noteLines text metadata children seen = .ok lines ∧ (∀ line ∈ lines, line ≠ []) ∧
      (lines = [] → ∀ c ∈ children, ∀ critique : Critique K,
        Dict.get? (metadata c) critiqueMetadataKey = some critique.toDict →
          Str.strip critique.guidance ∈ seen) := by
  induction children generalizing seen with
  | nil => exact ⟨[], rfl, by simp, by simp⟩
  | cons c children ih =>
    have hrest := fun seen => ih (fun d hd => h d (List.mem_cons_of_mem _ hd)) seen
    rcases h c (List.mem_cons_self ..) with hnone | ⟨critique, hcritique, hguiding⟩
    · obtain ⟨lines, hlines, hne, hseen⟩ := hrest seen
      refine ⟨lines, by rw [noteLines, hnone]; exact hlines, hne, fun he d hd => ?_⟩
      rcases List.mem_cons.mp hd with rfl | hd
      · rw [hnone]
        exact fun critique hc => by cases hc
      · exact hseen he d hd
    · have hrun : noteLines text metadata (c :: children) seen =
          if Str.strip critique.guidance = [] ∨ Str.strip critique.guidance ∈ seen then
            noteLines text metadata children seen
          else noteLines text metadata children (Str.strip critique.guidance :: seen) >>=
            fun lines => .ok ((lit "- [" ++ critique.failureClass.value ++ lit "] " ++
              Str.strip critique.guidance) :: lines) := by
        rw [noteLines, hcritique]
        rfl
      rw [hrun]
      by_cases hknown : Str.strip critique.guidance ∈ seen
      · rw [if_pos (Or.inr hknown)]
        obtain ⟨lines, hlines, hne, hseen⟩ := hrest seen
        refine ⟨lines, hlines, hne, fun he d hd other hother => ?_⟩
        rcases List.mem_cons.mp hd with rfl | hd
        · rw [hcritique] at hother
          simp only [Critique.toDict, Option.some.injEq, PyVal.dict.injEq, List.cons.injEq,
            Prod.mk.injEq, PyVal.str.injEq, true_and] at hother
          exact hother.2.2.1 ▸ hknown
        · exact hseen he d hd other hother
      · rw [if_neg (not_or.mpr ⟨hguiding, hknown⟩)]
        obtain ⟨lines, hlines, hne, -⟩ := hrest (Str.strip critique.guidance :: seen)
        rw [hlines]
        refine ⟨_, rfl, fun line hline => ?_, fun he => by cases he⟩
        rcases List.mem_cons.mp hline with rfl | hline
        · exact List.append_ne_nil_of_right_ne_nil _ hguiding
        · exact hne line hline

/-- Joining lines that are not empty gives an empty text only when there are none. -/
theorem join_ne_nil {separator : Str} {lines : List Str} (hlines : lines ≠ [])
    (h : ∀ line ∈ lines, line ≠ []) : Str.join separator lines ≠ [] := by
  rcases lines with _ | ⟨line, _ | ⟨next, lines⟩⟩
  · exact absurd rfl hlines
  · exact h line (List.mem_cons_self ..)
  · have hline := h line (List.mem_cons_self ..)
    simp [Str.join, hline]

/-- One critique among the children is enough for revision notes. -/
theorem compileRevisionNotes_spec (text : PyVal K → Str) {arena : Arena K}
    {metadata : Nat → Metadata K} {n : Nat}
    (h : ∀ c ∈ (arena.node n).children, CritiqueEntry (Dict.get? (metadata c) critiqueMetadataKey)) :
    ∃ notes, compileRevisionNotes text arena metadata n = .ok notes ∧
      ((∃ c ∈ (arena.node n).children, ∃ critique : Critique K,
        Dict.get? (metadata c) critiqueMetadataKey = some critique.toDict) → notes ≠ []) := by
  obtain ⟨lines, hlines, hne, hseen⟩ := noteLines_spec text h []
  refine ⟨Str.join (lit "\n") lines, by rw [compileRevisionNotes, hlines]; rfl, ?_⟩
  rintro ⟨c, hc, critique, hcritique⟩
  refine join_ne_nil (fun he => ?_) hne
  exact absurd (hseen he c hc critique hcritique) List.not_mem_nil

end Notes

/-- The entry records an execution that was not stopped and exited with code zero. -/
def CleanExit (entry : Option (PyVal K)) : Prop :=
  ∃ result : ExecutionResult K, entry = some result.toDict ∧ result.status = .completed ∧
    result.exitCode = some 0

/-- The node was pruned by its verdict, without a clean execution. -/
structure Failed (config : SearchConfig K) (s : RunState K W) (d : Nat) : Prop where
  alloc : d < s.tree.arena.size
  pruned : (s.tree.arena.node d).status = .pruned
  verdict : ∃ v, (d, .ok v) ∈ evaluationsIn s.log ∧ verdictStatus config v = .pruned
  unclean : ¬ CleanExit (s.entry d executionKey)

/-- The child whose critique is due. -/
def examined : Stage K → Option Nat
  | .diagnosing _ d _ _ _ _ => some d
  | _ => none

/-- Stored critiques have guidance, and every failed node has one. -/
structure CritiqueLedger (config : SearchConfig K) (c : Stage K × RunState K W) : Prop where
  entries : ∀ d, d < c.2.tree.arena.size → CritiqueEntry (c.2.entry d critiqueMetadataKey)
  diagnosed : ∀ d, Failed config c.2 d →
    examined c.1 = some d ∨ c.2.entry d critiqueMetadataKey ≠ none

variable {ctl : TreeSearchController K W} {rt : Runtime K W} {task : Str} {draws : Nat}

/-- The status and the exit code can be read off a record. -/
theorem toDict_fields {r r' : ExecutionResult K} (h : r.toDict = r'.toDict) :
    r.status = r'.status ∧ r.exitCode = r'.exitCode := by
  simp only [ExecutionResult.toDict, PyVal.dict.injEq, List.cons.injEq, Prod.mk.injEq,
    PyVal.str.injEq, true_and] at h
  obtain ⟨hstatus, hexit, -⟩ := h
  refine ⟨?_, ?_⟩
  · cases hr : r.status <;> cases hr' : r'.status <;> rw [hr, hr'] at hstatus <;>
      first | rfl | exact absurd hstatus (by decide)
  · unfold ExecutionResult.exitValue at hexit
    rcases hr : r.exitCode with _ | code <;> rcases hr' : r'.exitCode with _ | code'
    · rfl
    all_goals rw [hr, hr'] at hexit
    · cases hexit
    · cases hexit
    · exact congrArg some (PyVal.int.inj hexit)

/-- A judged verdict is stored before the critic is asked. -/
theorem Step.examined_of_judging {c c' : Stage K × RunState K W} (hs : Step ctl rt c c') {n d : Nat}
    {v : Evaluation K} {todo : List (Nat × Evaluation K)} {solution : Option Nat}
    {valued : List (Nat × K)} (h : c.1 = .judging n ((d, v) :: todo) solution valued) :
    examined c'.1 = some d := by
  cases hs
  case judge => cases h; rfl
  case advance edge _ _ => cases h; cases edge
  case advanceRaised edge _ _ => cases h; cases edge
  all_goals cases h

/-- From the diagnosis of a child the critic is asked, unless there is nothing to ask. -/
theorem Step.skipped_of_examined {c c' : Stage K × RunState K W} (hs : Step ctl rt c c') {d : Nat}
    (h : examined c.1 = some d) (hask : ¬ Asked ctl .critic c c') :
    ∃ v, (d, .ok v) ∈ c.1.verdicts ∧ (ctl.critic = none ∨ verdictStatus ctl.config v ≠ .pruned) := by
  cases hs
  case unexamined v _ _ _ skipped =>
    cases h
    exact ⟨v, List.mem_cons_self .., skipped⟩
  case uncritiqued hcritic _ hreply answer =>
    exact absurd (.critic hcritic hreply fun critique he => by rw [answer] at he; cases he) hask
  case critiqued hcritic _ hreply answer => exact absurd (.critique hcritic hreply answer) hask
  case critiqueRaised hcritic hreply answer =>
    exact absurd (.critic hcritic hreply fun critique he => by rw [answer] at he; cases he) hask
  case advance edge _ _ => cases edge <;> cases h
  case advanceRaised edge _ _ => cases edge <;> cases h
  all_goals cases h

section Ledger

variable {ev : CodeExecutionEvaluator K W} {text : PyVal K → Str}

/-- A node of which a verdict says that it is pruned is pruned, or its verdict is not stored. -/
theorem status_of_verdict {c : Stage K × RunState K W} (hr : Reach ctl rt task draws c) {d : Nat}
    {v : Evaluation K} (hv : (d, .ok v) ∈ evaluationsIn c.2.log)
    (hpruned : verdictStatus ctl.config v = .pruned) (hlost : ¬ Lost c) (hd : d ∉ c.1.unjudged) :
    (c.2.tree.arena.node d).status = .pruned := by
  obtain ⟨h0, hsize⟩ := hr.verdictLedger.alloc _ hv
  have hpending : (c.2.tree.arena.node d).status ≠ .pending := fun hp =>
    hd (hr.judged.pending hlost d h0 hsize hp)
  obtain ⟨w, hw, hjudged⟩ := hr.judged.verdict d h0 hsize hpending
  have he := List.inj_on_of_nodup_map hr.verdictLedger.once hw hv rfl
  simp only [Prod.mk.injEq, Except.ok.injEq, true_and] at he
  subst he
  rcases hjudged.status with hs | ⟨-, hs⟩
  · rw [hs, hpruned]
  · exact hs

/-- A node fails when its verdict is stored, and at no other time. -/
theorem Failed.back {c c' : Stage K × RunState K W} (hr : Reach ctl rt task draws c)
    (hs : Step ctl rt c c') (hev : ctl.evaluator = ev.evaluate)
    (hsole : ctl.SoleWriter executionKey .evaluator) {d : Nat} (h : Failed ctl.config c'.2 d) :
    Failed ctl.config c.2 d ∨ examined c'.1 = some d := by
  have hi := hr.inv
  obtain ⟨v, hv, hpruned⟩ := h.verdict
  -- the verdict is not the one that is just given, since its node is pending
  have hold : (d, .ok v) ∈ evaluationsIn c.2.log ∧ ∀ n batch results d' answer,
      c.1 = .collecting n batch results → d' ∈ batch →
      c'.1 = .collecting n batch (results ++ [(d', answer)]) → c'.2.tree = c.2.tree → d ≠ d' := by
    have hne : ∀ n batch results d' answer, c.1 = .collecting n batch results → d' ∈ batch →
        c'.1 = .collecting n batch (results ++ [(d', answer)]) → c'.2.tree = c.2.tree → d ≠ d' := by
      rintro n batch results d' answer hst hd' - htree rfl
      have hpending := (hi.working n (by rw [hst]; rfl)).pending d (by rw [hst]; exact hd')
      have hstatus := h.pruned
      rw [htree, hpending] at hstatus
      cases hstatus
    refine ⟨?_, hne⟩
    rcases hs.evaluation_cases hi with ⟨hlog, -⟩ |
      ⟨n, batch, results, d', answer, hst, hst', hd', -, htree, -, hlog⟩
    · rwa [hlog] at hv
    · rw [hlog] at hv
      refine (List.mem_cons.mp hv).resolve_left fun he => ?_
      exact hne n batch results d' answer hst hd' hst' htree (Prod.mk.inj he).1
  obtain ⟨hv, hasked⟩ := hold
  have hsize := (hr.verdictLedger.alloc _ hv).2
  have hentry : c'.2.entry d executionKey = c.2.entry d executionKey := by
    by_cases hask : Asked ctl .evaluator c c'
    · cases hask with
      | @evaluator s n d' batch results reply pending fresh hreply =>
        have hspec := ev.evaluate_spec d' s.tree.arena s.metadata s.world
        rw [← hev, ← hreply] at hspec
        exact entry_of_evaluated hspec (hasked n batch results d' _ rfl pending rfl rfl)
    · exact (hs.entry_eq hi hsole (Or.inr (by decide)) hask).1 d hsize
  have hunclean : ¬ CleanExit (c.2.entry d executionKey) := hentry ▸ h.unclean
  have hkept : (c.2.tree.arena.node d).status = .pruned → Failed ctl.config c.2 d := fun hstatus =>
    ⟨hsize, hstatus, ⟨v, hv, hpruned⟩, hunclean⟩
  have hstatus := h.pruned
  rcases hs.tree_cases hi with ⟨-, hchange⟩ | ⟨n, solution, valued, -, -, -, he⟩
  · generalize c'.2.tree.arena = b at hchange hstatus
    cases hchange with
    | same => exact Or.inl (hkept hstatus)
    | prune n frontier site =>
      have hlost : ¬ Lost c := by
        refine not_lost hi (fun e he => ?_) fun he => ?_ <;> rcases site with h | h | h <;>
          rw [h] at he <;> cases he
      have hunjudged : d ∉ c.1.unjudged := by
        rcases site with h | h | h <;> rw [h] <;> exact List.not_mem_nil
      exact Or.inl (hkept (status_of_verdict hr hv hpruned hlost hunjudged))
    | verdict n d' w todo solution valued judging pending =>
      rw [Arena.applyEvaluation_node] at hstatus
      by_cases hd : d = d'
      · exact Or.inr (hd ▸ Step.examined_of_judging hs judging)
      · rw [if_neg hd] at hstatus
        exact Or.inl (hkept hstatus)
    | child n content focus =>
      rw [Arena.attachChild_old content (hi.working n focus).alloc hsize.ne] at hstatus
      exact Or.inl (hkept hstatus)
  · rw [he, (sameCore_backpropagate _ valued).status_eq] at hstatus
    exact Or.inl (hkept hstatus)

/-- A child whose diagnosis is due is diagnosed, unless it was run to a clean exit and graded so. -/
theorem diagnosis_due [UnitTenths K] {n d : Nat} {v : Evaluation K} {todo : List (Nat × Evaluation K)}
    {solution : Option Nat} {valued : List (Nat × K)} {s : RunState K W}
    (hr : Reach ctl rt task draws (.diagnosing n d v todo solution valued, s))
    (hev : ctl.evaluator = ev.evaluate) (hsole : ctl.SoleWriter executionKey .evaluator) :
    (∃ critique, diagnoseMetadata text (s.metadata d) = .ok (some critique) ∧ Guiding critique) ∨
    diagnoseMetadata text (s.metadata d) = .ok none ∧ ∃ result : ExecutionResult K,
      s.entry d executionKey = some result.toDict ∧ result.status = .completed ∧
        result.exitCode = some 0 ∧ ev.grade result = .ok v := by
  have hverdict := hr.verdictLedger.known (d, .ok v) (List.mem_cons_self ..)
  have hrecorded := (recordLedger hev hsole hr).recorded d v hverdict
  generalize hentry : s.entry d executionKey = entry at hrecorded
  have hentry' : Dict.get? (s.metadata d) executionKey = entry := hentry
  cases hrecorded with
  | bare => exact Or.inl ((diagnoseMetadata_spec text (Or.inl hentry')).resolve_right
      fun ⟨_, result, hresult, _⟩ => by rw [hentry'] at hresult; cases hresult)
  | ran payload result extracted executed graded =>
    rcases diagnoseMetadata_spec text (Or.inr ⟨result, hentry'⟩) with hcritique |
      ⟨hnone, other, hother, htimeout, hexit⟩
    · exact Or.inl hcritique
    · obtain ⟨hstatus, hcode⟩ := toDict_fields (Option.some.inj (hentry'.symm.trans hother))
      refine Or.inr ⟨hnone, result, rfl, ?_, hcode.trans hexit, graded⟩
      cases hcase : result.status with
      | completed => rfl
      | timeout => exact absurd (hstatus.symm.trans hcase) htimeout
      | sandboxError =>
        rw [CodeExecutionEvaluator.grade, if_pos hcase] at graded
        cases graded

/-- A call of the critic diagnoses the child it is asked about. -/
theorem CritiqueLedger.asked [UnitTenths K] {c c' : Stage K × RunState K W}
    (hr : Reach ctl rt task draws c) (hev : ctl.evaluator = ev.evaluate)
    (hcritic : ctl.critic = some (executionTraceCritic text))
    (hsole : ctl.SoleWriter executionKey .evaluator) (h : CritiqueLedger ctl.config c)
    (hask : Asked ctl .critic c c') : CritiqueLedger ctl.config c' := by
  -- what the critic finds in the metadata of the child
  have hspec : ∀ {n d v todo solution valued}, c.1 = .diagnosing n d v todo solution valued →
      (∃ critique, diagnoseMetadata text (c.2.metadata d) = .ok (some critique) ∧ Guiding critique) ∨
      diagnoseMetadata text (c.2.metadata d) = .ok none ∧ CleanExit (c.2.entry d executionKey) := by
    obtain ⟨st, s⟩ := c
    rintro n d v todo solution valued rfl
    rcases diagnosis_due hr hev hsole with hcritique | ⟨hnone, result, hentry, hstatus, hcode, -⟩
    · exact Or.inl hcritique
    · exact Or.inr ⟨hnone, result, hentry, hstatus, hcode⟩
  cases hask with
  | @critic s n d v todo solution valued st policy reply hpolicy hreply silent =>
    cases hcritic.symm.trans hpolicy
    subst hreply
    refine ⟨h.entries, fun x hx => Or.inr ?_⟩
    have hbefore : Failed ctl.config s x := ⟨hx.alloc, hx.pruned, hx.verdict, hx.unclean⟩
    refine (h.diagnosed x hbefore).resolve_left fun he => ?_
    cases he
    rcases hspec rfl with ⟨critique, hcritique, -⟩ | ⟨-, hclean⟩
    · exact silent critique hcritique
    · exact hbefore.unclean hclean
  | @critique s n d v todo solution valued st policy reply critique hpolicy hreply answer =>
    cases hcritic.symm.trans hpolicy
    subst hreply
    have hguiding : Guiding critique := by
      rcases hspec rfl with ⟨critique', hcritique, hguiding⟩ | ⟨hnone, -⟩
      · cases hcritique.symm.trans answer
        exact hguiding
      · cases hnone.symm.trans answer
    have hentry : ∀ x key, ((s.consulted (executionTraceCritic text d s.tree.arena s.metadata s.world)
        (.critique d (executionTraceCritic text d s.tree.arena s.metadata s.world).answer)).annotated d
          critique).entry x key =
          if x = d ∧ key = critiqueMetadataKey then some critique.toDict else s.entry x key := by
      intro x key
      change Dict.get? (if x = d then _ else s.metadata x) key = _
      by_cases hxd : x = d
      · rw [if_pos hxd, Dict.get?_set]
        simp only [hxd, true_and]
        rfl
      · rw [if_neg hxd, if_neg fun hboth => hxd hboth.1]
        rfl
    constructor
    · intro x hx
      change CritiqueEntry (RunState.entry (RunState.annotated _ d critique) x critiqueMetadataKey)
      refine (hentry x critiqueMetadataKey).symm ▸ ?_
      by_cases hxd : x = d
      · rw [if_pos ⟨hxd, rfl⟩]
        exact Or.inr ⟨critique, rfl, hguiding⟩
      · rw [if_neg fun hboth => hxd hboth.1]
        exact h.entries x hx
    · intro x hx
      refine Or.inr ?_
      change RunState.entry (RunState.annotated _ d critique) x critiqueMetadataKey ≠ none
      refine (hentry x critiqueMetadataKey).symm ▸ ?_
      by_cases hxd : x = d
      · rw [if_pos ⟨hxd, rfl⟩]
        exact fun he => by cases he
      · rw [if_neg fun hboth => hxd hboth.1]
        have hsame := (hentry x executionKey).trans (if_neg fun hboth => absurd hboth.2 (by decide))
        have hunclean : ¬ CleanExit (s.entry x executionKey) := fun hclean =>
          hx.unclean (hsame.symm ▸ hclean)
        exact (h.diagnosed x ⟨hx.alloc, hx.pruned, hx.verdict, hunclean⟩).resolve_left fun he =>
          hxd (Option.some.inj he).symm

theorem critiqueLedger [UnitTenths K] {c : Stage K × RunState K W} (h : Reach ctl rt task draws c)
    (hev : ctl.evaluator = ev.evaluate) (hcritic : ctl.critic = some (executionTraceCritic text))
    (hrecord : ctl.SoleWriter executionKey .evaluator)
    (hcritique : ctl.SoleWriter critiqueMetadataKey .critic) : CritiqueLedger ctl.config c := by
  refine h.strengthen (P := CritiqueLedger ctl.config) (fun world => ?_) fun c c' hr hc hs => ?_
  · refine ⟨fun d hd => Or.inl rfl, fun d hd => ?_⟩
    obtain ⟨v, hv, -⟩ := hd.verdict
    exact absurd hv List.not_mem_nil
  by_cases hask : Asked ctl .critic c c'
  · exact hc.asked hr hev hcritic hrecord hask
  · have hi := hr.inv
    obtain ⟨hold, hnew⟩ := hs.entry_eq hi hcritique (Or.inl rfl) hask
    constructor
    · intro d hd
      by_cases hsize : d < c.2.tree.arena.size
      · rw [hold d hsize]
        exact hc.entries d hsize
      · exact Or.inl (hnew d (Nat.not_lt.mp hsize) hd)
    · intro d hd
      rcases hd.back hr hs hev hrecord with hbefore | hexamined
      · rw [hold d hbefore.alloc]
        refine (hc.diagnosed d hbefore).elim (fun hexamined => ?_) Or.inr
        obtain ⟨v, hknown, hskipped⟩ := Step.skipped_of_examined hs hexamined hask
        obtain ⟨w, hw, hpruned⟩ := hbefore.verdict
        have he := List.inj_on_of_nodup_map hr.verdictLedger.once hw (hr.verdictLedger.known _ hknown) rfl
        simp only [Prod.mk.injEq, Except.ok.injEq, true_and] at he
        rcases hskipped with hnone | hne
        · rw [hcritic] at hnone
          cases hnone
        · exact absurd (he ▸ hpruned) hne
      · exact Or.inl hexamined

end Ledger

section Reopenings

variable [PyNumber K] [UnitTenths K] {p : BoundedRevisionPolicy} {ev : CodeExecutionEvaluator K W}
  {text : PyVal K → Str}

/-- Selection grants a revision to a saturated node with a failed child and attempts left. -/
theorem revise_granted {c : Stage K × RunState K W} (h : Reach ctl rt task draws c)
    (hev : ctl.evaluator = ev.evaluate) (hcritic : ctl.critic = some (executionTraceCritic text))
    (hp : ctl.revisionPolicy = some (p.revise text))
    (hrecord : ctl.SoleWriter executionKey .evaluator)
    (hcritique : ctl.SoleWriter critiqueMetadataKey .critic)
    (hattempts : ctl.SoleWriter revisionAttemptsKey .revision) (hstage : c.1 = .selecting) {n d : Nat}
    (alloc : n < c.2.tree.arena.size) (saturated : Saturated c.2.tree.arena n)
    (hd : d ∈ (c.2.tree.arena.node n).children) (hfailed : Failed ctl.config c.2 d)
    (hleft : ((grantedIn c.2.log).count n : Int) < p.maxAttempts) :
    (p.revise text n c.2.tree.arena c.2.metadata c.2.world).answer = .ok true := by
  have hledger := critiqueLedger h hev hcritic hrecord hcritique
  have hsize : ∀ x ∈ (c.2.tree.arena.node n).children, x < c.2.tree.arena.size := fun x hx =>
    (Arena.mem_children.mp hx).1
  have hentries : ∀ x ∈ (c.2.tree.arena.node n).children,
      CritiqueEntry (Dict.get? (c.2.metadata x) critiqueMetadataKey) := fun x hx =>
    hledger.entries x (hsize x hx)
  obtain ⟨notes, hnotes, hne⟩ := compileRevisionNotes_spec text hentries
  have hcompiled : notes ≠ [] := by
    refine hne ⟨d, hd, ?_⟩
    have hentry := (hledger.diagnosed d hfailed).resolve_left fun he => by rw [hstage] at he; cases he
    obtain ⟨critique, he, -⟩ := (hledger.entries d (hsize d hd)).resolve_left hentry
    exact ⟨critique, he⟩
  have hterminals : c.2.tree.arena.terminals = [] := by
    have hlost : ¬ Lost c := not_lost h.inv (fun e he => by rw [hstage] at he; cases he)
      fun he => by rw [hstage] at he; cases he
    have hchosen := h.accounts.chosen (fun he => by rw [hstage] at he; cases he) hlost
    exact List.head?_eq_none_iff.mp (hchosen.first.trans (by rw [hstage]; rfl))
  have hused : BoundedRevisionPolicy.attemptsOf (c.2.metadata n) =
      .ok ((grantedIn c.2.log).count n : Int) := by
    have hentry := (attemptLedger hp hattempts h).attempts n alloc
    rw [BoundedRevisionPolicy.attemptsOf,
      show Dict.get? (c.2.metadata n) revisionAttemptsKey = _ from hentry, attemptsEntry_toInt]
  have heligible : p.eligible text c.2.tree.arena c.2.metadata n =
      .ok (some (notes, ((grantedIn c.2.log).count n : Int))) := by
    refine BoundedRevisionPolicy.eligible_eq_some.mpr ⟨saturated.1, fun x hx => ⟨?_, fun ht => ?_⟩,
      hused, hleft, hnotes, fun hboth => hcompiled hboth.2⟩
    · cases hlive : (c.2.tree.arena.node x).isLive with
      | false => rfl
      | true =>
        have hmem : x ∈ c.2.tree.arena.liveChildren n := List.mem_filter.mpr ⟨hx, hlive⟩
        rw [saturated.2] at hmem
        cases hmem
    · have hmem := Arena.mem_terminals.mpr ⟨hsize x hx, ht⟩
      rw [hterminals] at hmem
      cases hmem
  rw [BoundedRevisionPolicy.revise, heligible]

variable (ev ctl rt p text) (task : Str) (draws : Nat) (world : W)

/-- In every run graded by execution, with the execution critic and bounded revision, a node that
failed carries a critique with guidance; a saturated node with a failed child and attempts left is
reopened when selection reaches it; and selection prunes a node with children only behind a
refusal. -/
theorem run_reopens_failed_nodes (hev : ctl.evaluator = ev.evaluate)
    (hcritic : ctl.critic = some (executionTraceCritic text))
    (hp : ctl.revisionPolicy = some (p.revise text))
    (hrecord : ctl.SoleWriter executionKey .evaluator)
    (hcritique : ctl.SoleWriter critiqueMetadataKey .critic)
    (hattempts : ctl.SoleWriter revisionAttemptsKey .revision) :
    (∀ d, Failed ctl.config (finalState (ctl.run rt task draws world)) d → ∃ critique : Critique K,
      (finalState (ctl.run rt task draws world)).entry d critiqueMetadataKey = some critique.toDict ∧
        Guiding critique) ∧
    (∀ newer n answer older,
      (finalState (ctl.run rt task draws world)).log = newer ++ .revise n answer :: older →
      ∃ c, Reach ctl rt task draws c ∧ c.2.log = older ∧ c.1 = .selecting ∧
        Saturated c.2.tree.arena n ∧
        ((∃ d ∈ (c.2.tree.arena.node n).children, Failed ctl.config c.2 d) →
          ((grantedIn older).count n : Int) < p.maxAttempts →
            answer = .ok true ∧ Reopened ctl.QuietSink newer n)) ∧
    ∀ newer n k older,
      (finalState (ctl.run rt task draws world)).log = newer ++ .pruned n k :: older →
      ∃ c, Reach ctl rt task draws c ∧ c.2.log = older ∧
        ((c.2.tree.arena.node n).children = [] ∨ older.head? = some (.revise n (.ok false)) ∨
          ∃ record iteration tree, older.head? = some (.transition record iteration (some n) tree) ∧
            record.target = .backtracking ∧ record.note = lit "expansion produced no candidates") := by
  obtain ⟨st, hreach, hover⟩ := run_between ctl rt task draws world
  refine ⟨fun d hd => ?_, fun newer n answer older hlog => ?_, fun newer n k older hlog => ?_⟩
  · have hledger := critiqueLedger hreach hev hcritic hrecord hcritique
    have hentry := (hledger.diagnosed d hd).resolve_left fun he => by
      cases st <;> first | exact absurd hover Bool.false_ne_true | cases he
    exact (hledger.entries d hd.alloc).resolve_left hentry
  · obtain ⟨c₀, c₁, newest, h₀, rfl, hlog₁, -, h₀₁, -⟩ := hreach.trace_step hlog (by simp)
    obtain ⟨hstage, alloc, -, saturated, policy, hpolicy, hanswer, -⟩ := h₀₁.revise_written hlog₁
    cases hp.symm.trans hpolicy
    refine ⟨c₀, h₀, rfl, hstage, saturated, ?_⟩
    rintro ⟨d, hd, hfailed⟩ hleft
    have hgranted := revise_granted h₀ hev hcritic hp hrecord hcritique hattempts hstage alloc saturated
      hd hfailed hleft
    obtain rfl : answer = .ok true := hanswer.trans hgranted
    exact ⟨rfl, hreach.reopened_of_granted hover hlog⟩
  · obtain ⟨c₀, c₁, newest, h₀, rfl, hlog₁, -, h₀₁, h₁⟩ := hreach.trace_step hlog (by simp)
    have hcondemned := h₀.condemned
    refine ⟨c₀, h₀, rfl, ?_⟩
    rcases h₀₁.pruned_written hlog₁ with ⟨-, hleaf⟩ | hstage | hstage
    · exact Or.inl hleaf
    · unfold Condemned at hcondemned
      rw [hstage] at hcondemned
      refine Or.inr (Or.inl (hcondemned.resolve_left fun hnone => ?_))
      rw [hp] at hnone
      cases hnone
    · unfold Condemned at hcondemned
      rw [hstage] at hcondemned
      exact Or.inr (Or.inr hcondemned)

/-- The policies of the small run: nothing to execute, one attempt with notes. -/
def bareEvaluator : CodeExecutionEvaluator ℚ Unit := { cleanEvaluator with missingPayloadScore := 0 }

def guidedAttempt : BoundedRevisionPolicy := { oneAttempt with requireGuidance := true }

/-- Every candidate lacks a payload and is pruned. -/
def bareController : TreeSearchController ℚ Unit where
  __ := pathController smallConfig (fun _ => [lit "again"]) fun _ => halfway
  evaluator := bareEvaluator.evaluate
  critic := some (executionTraceCritic fun _ => [])
  revisionPolicy := some (guidedAttempt.revise fun _ => [])

theorem bareController_spares {key : Str} : (key ≠ executionKey → bareController.Spares key .evaluator) ∧
    (key ≠ revisionNotesKey → key ≠ revisionAttemptsKey → bareController.Spares key .revision) ∧
    bareController.Spares key .generator ∧ bareController.Spares key .critic ∧
    bareController.Spares key .reward := by
  refine ⟨fun hkey n => bareEvaluator.evaluate_leaves n hkey, fun hnotes hattempts policy hpolicy n => ?_,
    fun _ _ _ _ _ _ => rfl, fun critic hcritic n => ?_, fun model hmodel => by cases hmodel⟩
  · cases hpolicy
    exact BoundedRevisionPolicy.revise_leaves _ _ n hnotes hattempts
  · cases hcritic
    exact fun _ _ _ _ => rfl

/-- The candidate of the small run carries a critique, and its root is reopened. -/
theorem run_reopens_failed_nodes_small : (∃ critique : Critique ℚ,
    (finalState (bareController.run (Runtime.still fun _ _ => 0) (lit "task") 0 ())).entry 1
      critiqueMetadataKey = some critique.toDict ∧ Guiding critique) ∧
    ∃ c newer older,
      (finalState (bareController.run (Runtime.still fun _ _ => 0) (lit "task") 0 ())).log =
        newer ++ .revise 0 (.ok true) :: older ∧
      Reach bareController (Runtime.still fun _ _ => 0) (lit "task") 0 c ∧ c.2.log = older ∧
      Saturated c.2.tree.arena 0 ∧ Reopened bareController.QuietSink newer 0 := by
  have hrecord : bareController.SoleWriter executionKey .evaluator := by
    rintro (_ | _ | _ | _ | _) hne
    case generator => exact bareController_spares.2.2.1
    case evaluator => exact absurd rfl hne
    case critic => exact bareController_spares.2.2.2.1
    case revision => exact bareController_spares.2.1 (by decide) (by decide)
    case reward => exact bareController_spares.2.2.2.2
  have hcritique : bareController.SoleWriter critiqueMetadataKey .critic := by
    rintro (_ | _ | _ | _ | _) hne
    case generator => exact bareController_spares.2.2.1
    case evaluator => exact bareController_spares.1 (by decide)
    case critic => exact absurd rfl hne
    case revision => exact bareController_spares.2.1 (by decide) (by decide)
    case reward => exact bareController_spares.2.2.2.2
  have hattempts : bareController.SoleWriter revisionAttemptsKey .revision := by
    rintro (_ | _ | _ | _ | _) hne
    case generator => exact bareController_spares.2.2.1
    case evaluator => exact bareController_spares.1 (by decide)
    case critic => exact bareController_spares.2.2.2.1
    case revision => exact absurd rfl hne
    case reward => exact bareController_spares.2.2.2.2
  have hverdict : ((evaluationsIn (finalState (bareController.run (Runtime.still fun _ _ => 0)
      (lit "task") 0 ())).log).any fun p => p.1 == 1 && (p.2.toOption.any fun v =>
        verdictStatus bareController.config v = .pruned)) = true := by decide +kernel
  have hbare : ((finalState (bareController.run (Runtime.still fun _ _ => 0) (lit "task") 0 ())).entry 1
      executionKey).isNone = true := by decide +kernel
  obtain ⟨hdiagnosed, hrevised, -⟩ := run_reopens_failed_nodes bareController
    (Runtime.still fun _ _ => 0) guidedAttempt bareEvaluator (fun _ => []) (lit "task") 0 () rfl rfl rfl
    hrecord hcritique hattempts
  have hgranted : grantedIn (finalState (bareController.run (Runtime.still fun _ _ => 0)
      (lit "task") 0 ())).log = [0] := by decide +kernel
  obtain ⟨newer, older, hlog, -⟩ := log_of_granted hgranted
  obtain ⟨c, hc, holder, -, hsaturated, -⟩ := hrevised newer 0 _ older hlog
  obtain ⟨st, hreach, hover⟩ := run_between bareController (Runtime.still fun _ _ => 0) (lit "task") 0 ()
  refine ⟨hdiagnosed 1 ⟨by decide +kernel, by decide +kernel, ?_, ?_⟩, c, newer, older, hlog, hc, holder,
    hsaturated, hreach.reopened_of_granted hover hlog⟩
  · obtain ⟨⟨d, answer⟩, hmem, hp⟩ := List.any_eq_true.mp hverdict
    rw [Bool.and_eq_true, beq_iff_eq] at hp
    obtain ⟨hd, hpruned⟩ := hp
    rcases answer with e | v
    · cases hpruned
    · exact ⟨v, (show d = 1 from hd) ▸ hmem, of_decide_eq_true hpruned⟩
  · rintro ⟨result, hresult, -⟩
    rw [hresult] at hbare
    cases hbare

end Reopenings

end CognitiveTree.Feedback
