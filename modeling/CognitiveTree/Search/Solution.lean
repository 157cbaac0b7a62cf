import CognitiveTree.Search.Acceptance

/-!
# The reported solution

Three parts of the controller deal with accepted candidates: the verdict loop keeps the
first of a batch, the main loop ends the run with it, and the report searches the
finished tree for the best one. They agree on when a run succeeds, and on the reported
solution exactly when no other candidate beats the first accepted one.
-/

namespace CognitiveTree.Search

open Arena

variable {K W : Type} [PyFloat K] {ctl : TreeSearchController K W} {rt : Runtime K W}

section Best

/-- Nothing accepted scores higher than the best accepted node. -/
theorem bestTerminal_maximal [UnitOrder K] {a : Arena K}
    (hunit : ∀ r ∈ a.terminals, PyFloat.inUnit (a.node r).score = true) {t : Nat}
    (h : a.bestTerminal = some t) :
    t ∈ a.terminals ∧ ∀ r ∈ a.terminals, PyFloat.gt (a.node r).score (a.node t).score = false := by
  obtain ⟨k, hk, hmax⟩ := @maxByKey_maximal Nat K PyFloat.gt (fun k => PyFloat.inUnit k = true)
    (fun x y hx hy => UnitOrder.lt_asymm y x hy hx)
    (fun x y z hx hy hz hxy hyz => UnitOrder.lt_negTrans z y x hz hy hx hyz hxy)
    (a.terminals.map fun r => (r, (a.node r).score)) (by simpa using hunit) t h
  obtain ⟨r, hr, he⟩ := List.mem_map.mp hk
  cases he
  exact ⟨hr, fun y hy => hmax _ (List.mem_map_of_mem hy)⟩

/-- The first accepted node is the best one unless another has a higher score. -/
theorem bestTerminal_eq_first {a : Arena K} {d : Nat} {rest : List Nat}
    (hterminals : a.terminals = d :: rest) : a.bestTerminal = some d ↔
      ∀ r ∈ rest, PyFloat.gt (a.node r).score (a.node d).score = false := by
  have hnodup : a.terminals.Nodup := (walk_nodup a a.linked.nonempty).filter _
  rw [hterminals, List.nodup_cons] at hnodup
  have hd : d ∉ (rest.map fun r => (r, (a.node r).score)).map Prod.fst := by
    simpa [List.map_map, Function.comp_def] using hnodup.1
  rw [bestTerminal, hterminals]
  change maxByKey PyFloat.gt ((d, (a.node d).score) :: rest.map fun r => (r, (a.node r).score)) =
    some d ↔ _
  rw [maxByKey_eq_head_iff hd]
  simp

end Best

/-- The outcome `SUCCEEDED` belongs to the phase `SUCCEEDED`. -/
theorem outcomeByPhase_succeeded {p : SearchPhase} {outcome : SearchOutcome}
    (h : outcomeByPhase p = some outcome) : outcome = .succeeded ↔ p = .succeeded := by
  cases p <;> cases h <;> decide

/-- Only a success has a solution. -/
theorem SearchResult.solution_none {r : SearchResult K} (h : r.outcome ≠ .succeeded) :
    r.solution = none := by
  rw [solution, if_neg h]

/-- The report of a success: the path to an accepted candidate that none exceeds. -/
structure ReportsBest (r : SearchResult K) (log : List (Obs K)) : Prop where
  root : r.bestPath.head? = some 0
  chain : r.bestPath.IsChain fun p c => c ∈ (r.tree.arena.node p).children
  best : ∃ t v, r.bestPath.getLast? = some t ∧ (r.tree.arena.node t).status = .terminal ∧
    (t, .ok v) ∈ evaluationsIn log ∧ (r.tree.arena.node t).score = v.score ∧
    (∀ n, n < r.tree.arena.size → (r.tree.arena.node n).status = .terminal →
      PyFloat.gt (r.tree.arena.node n).score (r.tree.arena.node t).score = false) ∧
    r.solution = some (r.tree.arena.node t).content

/-- The first accepted candidate: candidates are numbered in the order they were
attached. -/
def FirstAccepted (config : SearchConfig K) (log : List (Obs K)) (d : Nat) (v : Evaluation K) :
    Prop :=
  ((d, .ok v) ∈ evaluationsIn log ∧ verdictStatus config v = .terminal) ∧
    ∀ c w, (c, .ok w) ∈ evaluationsIn log → verdictStatus config w = .terminal → d ≤ c

/-- The reported solution is the first accepted candidate, and the success event names it. -/
def ReportsFirst (config : SearchConfig K) (r : SearchResult K) (log : List (Obs K)) : Prop :=
  ∃ d v, FirstAccepted config log d v ∧ successesIn log = [(some d, acceptedNote v.score)] ∧
    r.bestPath.getLast? = some d ∧ r.solution = some (r.tree.arena.node d).content

/-- No later accepted verdict has a strictly higher score than the first one. -/
def Unbeaten (config : SearchConfig K) (log : List (Obs K)) : Prop :=
  ∀ d v, FirstAccepted config log d v → ∀ c w, d < c → (c, .ok w) ∈ evaluationsIn log →
    verdictStatus config w = .terminal → PyFloat.gt w.score v.score = false

theorem exists_of_head? {xs : List Nat} {d : Nat} (h : xs.head? = some d) :
    ∃ rest, xs = d :: rest := by
  cases xs with
  | nil => cases h
  | cons x rest =>
    cases h
    exact ⟨rest, rfl⟩

namespace Reach

variable {task : Str} {draws : Nat} {s : RunState K W}

/-- In a run that is over and did not fail, the accepted nodes are those with an accepted
verdict. -/
theorem mem_terminals_iff (h : Reach ctl rt task draws (.ended, s))
    (hfailed : s.machine.phase ≠ .failed) {r : Nat} : r ∈ s.tree.arena.terminals ↔
      ∃ v, (r, .ok v) ∈ evaluationsIn s.log ∧ verdictStatus ctl.config v = .terminal := by
  constructor
  · intro hr
    obtain ⟨v, hv, hstatus, -⟩ := h.verdict_of_terminal hr
    exact ⟨v, hv, hstatus⟩
  · rintro ⟨v, hv, hstatus⟩
    have hlost : ¬ Lost (Stage.ended, s) := by
      rintro (⟨e, he⟩ | hphase)
      · cases he
      · exact hfailed hphase
    obtain ⟨h0, hr⟩ := h.verdictLedger.alloc _ hv
    obtain ⟨w, hw, hj⟩ := h.judged.verdict r h0 hr fun hpending =>
      absurd (h.judged.pending hlost r h0 hr hpending) List.not_mem_nil
    have he := List.inj_on_of_nodup_map h.verdictLedger.once hv hw rfl
    cases he
    refine mem_terminals.mpr ⟨hr, ?_⟩
    rcases hj.status with hs | ⟨he, -⟩
    · exact hs.trans hstatus
    · rw [hstatus] at he
      cases he

end Reach

namespace Reported

variable {task : Str} {draws : Nat} {r : SearchResult K} {s : RunState K W}

theorem of_run {world : W} (h : ctl.run rt task draws world = .ok r s) :
    Reported ctl rt task draws r s := by
  have hspec := run_spec ctl rt task draws world
  rwa [h] at hspec

/-- The report of a success: its accepted nodes, its event and its path. -/
theorem success (h : Reported ctl rt task draws r s) (hout : r.outcome = .succeeded) :
    ∃ d rest t, s.tree.arena.terminals = d :: rest ∧ (∀ c ∈ rest, d < c) ∧
      successesIn s.log = [(some d, acceptedNote (s.tree.arena.node d).score)] ∧
      s.tree.arena.bestTerminal = some t ∧ t ∈ s.tree.arena.terminals ∧
      r.bestPath = s.tree.arena.pathFromRoot t ∧
      r.solution = some (r.tree.arena.node t).content := by
  have hphase := (outcomeByPhase_succeeded h.outcome).mp hout
  have hd := h.reach.accounts.decided rfl (by simp [hphase])
  obtain ⟨d, hfirst, hlog⟩ := hd.one hphase
  obtain ⟨rest, hterminals⟩ := exists_of_head? hfirst
  have horder := hd.order
  change s.tree.arena.terminals.Pairwise _ at horder
  rw [hterminals, List.pairwise_cons] at horder
  obtain ⟨t, ht⟩ : ∃ t, s.tree.arena.bestTerminal = some t :=
    maxByKey_isSome (by simp [hterminals])
  have htm : t ∈ s.tree.arena.terminals := by
    have hm := maxByKey_mem ht
    simpa [List.map_map, Function.comp_def] using hm
  have hpath : r.bestPath = s.tree.arena.pathFromRoot t := by
    rw [h.bestPath, Arena.bestPath, ht]
  refine ⟨d, rest, t, hterminals, horder.1, hlog, ht, htm, hpath, ?_⟩
  rw [SearchResult.solution, if_pos hout, hpath, pathFromRoot_getLast]
  rfl

theorem reportsBest [UnitOrder K] (h : Reported ctl rt task draws r s)
    (hout : r.outcome = .succeeded) : ReportsBest r s.log := by
  obtain ⟨d, rest, t, -, -, -, ht, htm, hpath, hsolution⟩ := h.success hout
  have hunit : ∀ n ∈ s.tree.arena.terminals,
      PyFloat.inUnit (s.tree.arena.node n).score = true := by
    intro n hn
    obtain ⟨v, -, -, hscore⟩ := h.reach.verdict_of_terminal hn
    change (s.tree.arena.node n).score = v.score at hscore
    rw [hscore]
    exact v.unit
  obtain ⟨v, hv, -, hscore⟩ := h.reach.verdict_of_terminal htm
  obtain ⟨hts, hstatus⟩ := mem_terminals.mp htm
  have htree : r.tree.arena = s.tree.arena := by rw [h.tree]
  constructor
  · rw [hpath]
    exact pathFromRoot_head _ hts
  · rw [hpath, htree]
    exact pathFromRoot_chain _ hts
  · refine ⟨t, v, ?_, ?_, hv, ?_, ?_, hsolution⟩
    · rw [hpath, pathFromRoot_getLast]
    · rw [htree]
      exact hstatus
    · rw [htree]
      exact hscore
    · rw [htree]
      intro n hn hterminal
      exact (bestTerminal_maximal hunit ht).2 n (mem_terminals.mpr ⟨hn, hterminal⟩)

end Reported

section Solutions

variable (ctl : TreeSearchController K W) (rt : Runtime K W) (task : Str) (draws : Nat) (world : W)

/-- A run without exceptions succeeds exactly when a verdict was accepted, which happens
in its last iteration only; a success reports a best accepted candidate, and nothing else
reports a solution. -/
theorem run_succeeds_iff_accepted [UnitOrder K] :
    ((∀ o ∈ (finalState (ctl.run rt task draws world)).log, o.raised = false) →
      ∃ r s, ctl.run rt task draws world = .ok r s ∧
        (r.outcome = .succeeded ↔ Accepts ctl.config s.log)) ∧
    (∀ newer older a, (finalState (ctl.run rt task draws world)).log =
        newer ++ .selection a :: older → ¬ Accepts ctl.config older) ∧
    ∀ r s, ctl.run rt task draws world = .ok r s →
      (r.outcome = .succeeded → ReportsBest r s.log) ∧
      (r.outcome ≠ .succeeded → r.solution = none) := by
  refine ⟨fun hquiet => ?_, fun newer older a hlog haccepts => ?_, fun r s hrun => ?_⟩
  · have hspec := run_spec ctl rt task draws world
    cases hrun : ctl.run rt task draws world with
    | error e s =>
      rw [hrun] at hspec hquiet
      obtain ⟨-, -, x, hx⟩ := hspec
      cases hquiet _ hx
    | ok r s =>
      rw [hrun] at hspec hquiet
      have h : Reported ctl rt task draws r s := hspec
      refine ⟨r, s, rfl, ?_⟩
      rw [outcomeByPhase_succeeded h.outcome]
      have hlost : ¬ Lost (Stage.ended, s) := fun hlost => by
        obtain ⟨o, ho, hraised⟩ := h.reach.raised_of_lost hlost
        rw [hquiet o ho] at hraised
        cases hraised
      constructor
      · intro hphase
        obtain ⟨d, hd, -⟩ := (h.reach.accounts.decided rfl (by simp [hphase])).one hphase
        obtain ⟨v, hv, hstatus, -⟩ := h.reach.verdict_of_terminal (List.mem_of_head? hd)
        exact ⟨d, v, hv, verdictStatus_eq_terminal.mp hstatus⟩
      · intro haccepts
        refine (h.reach.accepting_of_accepts hlost haccepts).resolve_left ?_
        exact Stage.not_accepting rfl rfl
  · obtain ⟨st, h⟩ := run_reach ctl rt task draws world
    obtain ⟨c₀, -, h₀, rfl, ⟨hstage, -⟩, -⟩ := h.trace hlog (by simp)
    have hlost : ¬ Lost c₀ := not_lost h₀.inv (by simp [hstage]) (by simp [hstage])
    rcases h₀.accepting_of_accepts hlost haccepts with ha | hphase
    · rw [hstage] at ha
      exact Stage.not_accepting rfl rfl ha
    · have hselection := h₀.inv.phase
      rw [hstage, hphase] at hselection
      cases hselection
  · have h := Reported.of_run hrun
    exact ⟨h.reportsBest, SearchResult.solution_none⟩

/-- A success reports the first accepted candidate exactly when none beats it. -/
theorem run_reports_first_iff_unbeaten {r : SearchResult K} {s : RunState K W}
    (hrun : ctl.run rt task draws world = .ok r s) (hout : r.outcome = .succeeded) :
    ReportsFirst ctl.config r s.log ↔ Unbeaten ctl.config s.log := by
  have h := Reported.of_run hrun
  have hfailed : s.machine.phase ≠ .failed := by
    simp [(outcomeByPhase_succeeded h.outcome).mp hout]
  obtain ⟨d, rest, t, hterminals, hrest, hlog, ht, -, hpath, hsolution⟩ := h.success hout
  have hmem : ∀ c, c ∈ d :: rest ↔
      ∃ v, (c, .ok v) ∈ evaluationsIn s.log ∧ verdictStatus ctl.config v = .terminal := by
    intro c
    rw [← hterminals, h.reach.mem_terminals_iff hfailed]
  have hscore : ∀ c v, (c, .ok v) ∈ evaluationsIn s.log →
      verdictStatus ctl.config v = .terminal → (s.tree.arena.node c).score = v.score := by
    intro c v hv hstatus
    obtain ⟨w, hw, -, hs⟩ := h.reach.verdict_of_terminal
      ((h.reach.mem_terminals_iff hfailed).mpr ⟨v, hv, hstatus⟩)
    have he := List.inj_on_of_nodup_map h.reach.verdictLedger.once hv hw rfl
    cases he
    exact hs
  -- the first accepted candidate is the first accepted node
  obtain ⟨v, hv, hstatus⟩ := (hmem d).mp (List.mem_cons_self ..)
  have hfirst : FirstAccepted ctl.config s.log d v := by
    refine ⟨⟨hv, hstatus⟩, fun c w hw hwstatus => ?_⟩
    rcases List.mem_cons.mp ((hmem c).mpr ⟨w, hw, hwstatus⟩) with rfl | hc
    · exact le_rfl
    · exact (hrest c hc).le
  have hunique : ∀ d' v', FirstAccepted ctl.config s.log d' v' → d' = d ∧ v' = v := by
    rintro d' v' ⟨⟨hv', hstatus'⟩, hle⟩
    have hd : d' = d := le_antisymm (hle d v hv hstatus) (hfirst.2 d' v' hv' hstatus')
    subst hd
    have he := List.inj_on_of_nodup_map h.reach.verdictLedger.once hv' hv rfl
    cases he
    exact ⟨rfl, rfl⟩
  have hbest : Unbeaten ctl.config s.log ↔ s.tree.arena.bestTerminal = some d := by
    rw [bestTerminal_eq_first hterminals]
    constructor
    · intro hunbeaten c hc
      obtain ⟨w, hw, hwstatus⟩ := (hmem c).mp (List.mem_cons_of_mem _ hc)
      rw [hscore c w hw hwstatus, hscore d v hv hstatus]
      exact hunbeaten d v hfirst c w (hrest c hc) hw hwstatus
    · intro hall d' v' hfirst' c w hlt hw hwstatus
      obtain ⟨rfl, rfl⟩ := hunique d' v' hfirst'
      have hc := List.mem_of_ne_of_mem hlt.ne' ((hmem c).mpr ⟨w, hw, hwstatus⟩)
      have hgt := hall c hc
      rwa [hscore c w hw hwstatus, hscore d' v' hv hstatus] at hgt
  rw [hbest, ht]
  constructor
  · rintro ⟨d', v', hfirst', -, hlast, -⟩
    obtain ⟨rfl, -⟩ := hunique d' v' hfirst'
    rw [hpath, pathFromRoot_getLast] at hlast
    exact hlast
  · intro he
    cases he
    refine ⟨d, v, hfirst, ?_, ?_, hsolution⟩
    · rw [hlog, hscore d v hv hstatus]
    · rw [hpath, pathFromRoot_getLast]

/-- Two candidates that both are accepted, the one called `weaker` with the lower score. -/
def twoWinners (weaker : Str) : TreeSearchController ℚ Unit :=
  pathController smallConfig (fun _ => [lit "candidate-0", lit "candidate-1"]) fun path =>
    if path.getLast? = some weaker then ⟨24 / 25, true, [], by decide +kernel⟩
    else ⟨1, true, [], by decide +kernel⟩

/-- A run that accepts both candidates of its only batch. -/
theorem run_succeeds_iff_accepted_twoWinners :
    ∃ r s, (twoWinners (lit "candidate-0")).run (Runtime.still fun _ _ => 0) (lit "task") 0 () =
        .ok r s ∧ (r.outcome = .succeeded ↔ Accepts smallConfig s.log) :=
  (run_succeeds_iff_accepted (twoWinners (lit "candidate-0")) (Runtime.still fun _ _ => 0)
    (lit "task") 0 ()).1 (by decide +kernel)

/-- With the better candidate first, the report agrees with the event. -/
theorem run_reports_first_iff_unbeaten_twoWinners :
    ∃ r s, (twoWinners (lit "candidate-1")).run (Runtime.still fun _ _ => 0) (lit "task") 0 () =
        .ok r s ∧ (ReportsFirst smallConfig r s.log ↔ Unbeaten smallConfig s.log) := by
  obtain ⟨r, s, hrun, hout⟩ := exists_ok_of_returned (show (returned
    ((twoWinners (lit "candidate-1")).run (Runtime.still fun _ _ => 0) (lit "task") 0 ())).map
      (fun r => r.outcome) = some .succeeded by decide +kernel)
  exact ⟨r, s, hrun, run_reports_first_iff_unbeaten (twoWinners (lit "candidate-1"))
    (Runtime.still fun _ _ => 0) (lit "task") 0 () hrun hout⟩

/-- With the better candidate second, the event names the first candidate and the report
ends at the second. -/
theorem run_reports_other_than_first :
    ∃ r s, (twoWinners (lit "candidate-0")).run (Runtime.still fun _ _ => 0) (lit "task") 0 () =
        .ok r s ∧ r.outcome = .succeeded ∧ ¬ ReportsFirst smallConfig r s.log := by
  obtain ⟨r, s, hrun, hout⟩ := exists_ok_of_returned (show (returned
    ((twoWinners (lit "candidate-0")).run (Runtime.still fun _ _ => 0) (lit "task") 0 ())).map
      (fun r => (r.outcome, r.bestPath.getLast?)) = some (.succeeded, some 2) by decide +kernel)
  have hlog : (successesIn (finalState ((twoWinners (lit "candidate-0")).run
      (Runtime.still fun _ _ => 0) (lit "task") 0 ())).log).map Prod.fst = [some 1] := by
    decide +kernel
  rw [hrun] at hlog
  refine ⟨r, s, hrun, congrArg Prod.fst hout, ?_⟩
  rintro ⟨d, v, -, hsuccess, hlast, -⟩
  have hlog : (successesIn s.log).map Prod.fst = [some 1] := hlog
  rw [hsuccess] at hlog
  have hpath : r.bestPath.getLast? = some 2 := congrArg Prod.snd hout
  rw [hlast] at hpath
  cases hpath
  cases hlog

end Solutions

end CognitiveTree.Search
