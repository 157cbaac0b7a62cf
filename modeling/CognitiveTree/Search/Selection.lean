import CognitiveTree.Search.Atomicity

/-!
# Revision requests and prunes in the log

A revision request is logged where selection stands at a saturated node, and a granted one is
followed by the announcement and the expansion of the node. A prune is logged for a leaf at the
depth cap, behind a refused request, or behind an expansion without candidates.
-/

namespace CognitiveTree.Search

open Arena

variable {K W : Type} [PyFloat K] {ctl : TreeSearchController K W} {rt : Runtime K W}

/-- The entry is a revision request. -/
def Obs.isRevise : Obs K → Bool
  | .revise _ _ => true
  | _ => false

/-- The entry is an answer of the generator. -/
def Obs.isGenerate : Obs K → Bool
  | .generate .. => true
  | _ => false

/-- The entry is a prune. -/
def Obs.isPruned : Obs K → Bool
  | .pruned _ _ => true
  | _ => false

/-- A transition adds no entry of another kind. -/
theorem countP_transitioned {p : Obs K → Bool} (htransition : ∀ r i n t, p (.transition r i n t) = false)
    (hsink : ∀ e, p (.sinkRaised e) = false) {s : RunState K W} {target : SearchPhase}
    {node : Option Nat} {detail : Str} (h : s.machine.canTransition target = true) :
    ((s.transitioned rt target node detail h).mirrored ctl rt target node detail).1.log.countP p =
      s.log.countP p := by
  have hentry : (s.transitioned rt target node detail h).log.countP p = s.log.countP p :=
    List.countP_cons_of_neg (by simp [htransition])
  rw [RunState.mirrored_log, ← hentry]
  cases ((s.transitioned rt target node detail h).mirrored ctl rt target node detail).2 with
  | none => rfl
  | some e => exact List.countP_cons_of_neg (by simp [hsink])

/-- A new entry of one kind raises its count. -/
theorem countP_lt_of_written {p : Obs K → Bool} {log newest : List (Obs K)} {o : Obs K} (ho : p o = true) :
    log.countP p < (newest ++ o :: log).countP p := by
  rw [List.countP_append, List.countP_cons_of_pos ho]
  omega

/-- The entry a step wrote in front of the log is the one it is known to have written. -/
theorem eq_of_written {log newest : List (Obs K)} {o o' : Obs K} (h : o' :: log = newest ++ o :: log) :
    newest = [] ∧ o' = o := by
  rcases newest with _ | ⟨x, newest⟩
  · exact ⟨rfl, (List.cons.inj h).1⟩
  · have hlength := congrArg List.length (List.cons.inj h).2
    simp at hlength
    omega

/-- A revision request is made at a saturated node and leaves behind what the policy leaves behind,
and a grant opens the node. -/
theorem Step.revise_written {c c' : Stage K × RunState K W} (hs : Step ctl rt c c')
    {newest : List (Obs K)} {n : Nat} {answer : Except Exc Bool}
    (hlog : c'.2.log = newest ++ .revise n answer :: c.2.log) :
    c.1 = .selecting ∧ n < c.2.tree.arena.size ∧ (c.2.tree.arena.node n).isLive = true ∧
      Saturated c.2.tree.arena n ∧ ∃ policy, ctl.revisionPolicy = some policy ∧
        answer = (policy n c.2.tree.arena c.2.metadata c.2.world).answer ∧
        c'.2.metadata = (policy n c.2.tree.arena c.2.metadata c.2.world).metadata ∧
        (answer = .ok true → c'.1 = .opened n true) ∧ newest = [] := by
  have hcount : c.2.log.countP Obs.isRevise < c'.2.log.countP Obs.isRevise :=
    hlog ▸ countP_lt_of_written rfl
  cases hs with
  | @revise s m policy reply granted alloc live saturated hpolicy hreply hanswer =>
    obtain ⟨hnil, hsame⟩ := eq_of_written hlog
    cases hsame
    refine ⟨rfl, alloc, live, saturated, policy, hpolicy, hreply ▸ rfl, hreply ▸ rfl,
      fun hgranted => ?_, hnil⟩
    cases hanswer.symm.trans hgranted
    rfl
  | @reviseRaised s m policy reply e alloc live saturated hpolicy hreply hanswer =>
    obtain ⟨hnil, hsame⟩ := eq_of_written hlog
    cases hsame
    refine ⟨rfl, alloc, live, saturated, policy, hpolicy, hreply ▸ rfl, hreply ▸ rfl,
      fun hgranted => ?_, hnil⟩
    cases hanswer.symm.trans hgranted
  | advance _ legal | advanceRaised _ legal =>
    rw [countP_transitioned (fun _ _ _ _ => rfl) (fun _ => rfl) legal] at hcount
    exact absurd hcount (lt_irrefl _)
  | _ => exact absurd hcount (lt_irrefl _)

/-- An expansion is asked for in the stage of its node, and leaves behind what the generator leaves
behind. -/
theorem Step.generate_written {c c' : Stage K × RunState K W} (hs : Step ctl rt c c')
    {newest : List (Obs K)} {n k : Nat} {answer : Except Exc (List Str)}
    (hlog : c'.2.log = newest ++ .generate n k answer :: c.2.log) :
    c.1 = .expanding n ∧ k = ctl.config.branchingFactor ∧
      answer = (ctl.generator n k c.2.tree.arena c.2.metadata c.2.world).answer ∧
      c'.2.world = (ctl.generator n k c.2.tree.arena c.2.metadata c.2.world).world ∧ newest = [] := by
  have hcount : c.2.log.countP Obs.isGenerate < c'.2.log.countP Obs.isGenerate :=
    hlog ▸ countP_lt_of_written rfl
  cases hs with
  | @generate s m reply candidates hreply hanswer =>
    obtain ⟨hnil, hsame⟩ := eq_of_written hlog
    cases hsame
    exact ⟨rfl, rfl, hreply ▸ rfl, hreply ▸ rfl, hnil⟩
  | @generateRaised s m reply e hreply hanswer =>
    obtain ⟨hnil, hsame⟩ := eq_of_written hlog
    cases hsame
    exact ⟨rfl, rfl, hreply ▸ rfl, hreply ▸ rfl, hnil⟩
  | advance _ legal | advanceRaised _ legal =>
    rw [countP_transitioned (fun _ _ _ _ => rfl) (fun _ => rfl) legal] at hcount
    exact absurd hcount (lt_irrefl _)
  | _ => exact absurd hcount (lt_irrefl _)

/-- The places where a node is pruned. -/
theorem Step.pruned_written {c c' : Stage K × RunState K W} (hs : Step ctl rt c c')
    {newest : List (Obs K)} {n k : Nat} (hlog : c'.2.log = newest ++ .pruned n k :: c.2.log) :
    c.1 = .selecting ∧ (c.2.tree.arena.node n).children = [] ∨ c.1 = .refused n ∨ c.1 = .barren n := by
  have hcount : c.2.log.countP Obs.isPruned < c'.2.log.countP Obs.isPruned :=
    hlog ▸ countP_lt_of_written rfl
  cases hs with
  | cap alloc live leaf deep =>
    obtain ⟨-, hsame⟩ := eq_of_written hlog
    cases hsame
    exact Or.inl ⟨rfl, leaf⟩
  | collapse =>
    obtain ⟨-, hsame⟩ := eq_of_written hlog
    cases hsame
    exact Or.inr (Or.inl rfl)
  | retreat =>
    obtain ⟨-, hsame⟩ := eq_of_written hlog
    cases hsame
    exact Or.inr (Or.inr rfl)
  | advance _ legal | advanceRaised _ legal =>
    rw [countP_transitioned (fun _ _ _ _ => rfl) (fun _ => rfl) legal] at hcount
    exact absurd hcount (lt_irrefl _)
  | _ => exact absurd hcount (lt_irrefl _)

/-- The last entry at a node that is about to be pruned says why. -/
def Condemned (ctl : TreeSearchController K W) (c : Stage K × RunState K W) : Prop :=
  match c.1 with
  | .refused n => ctl.revisionPolicy = none ∨ c.2.log.head? = some (.revise n (.ok false))
  | .barren n => ∃ record iteration tree, c.2.log.head? =
      some (.transition record iteration (some n) tree) ∧ record.target = .backtracking ∧
        record.note = lit "expansion produced no candidates"
  | _ => True

theorem Reach.condemned {task : Str} {draws : Nat} {c : Stage K × RunState K W}
    (h : Reach ctl rt task draws c) : Condemned ctl c := by
  refine h.invariant (P := Condemned ctl) (fun world => trivial) fun c c' hc hs => ?_
  cases hs with
  | @advance s st st' target node detail edge legal quiet =>
    cases edge
    case deadEnd n seen =>
      refine ⟨⟨s.machine.phase, .backtracking, lit "expansion produced no candidates",
        (rt.monotonic s.world).1⟩, s.iteration, s.tree, ?_, rfl, rfl⟩
      rw [RunState.mirrored_log, quiet]
      rfl
    all_goals exact trivial
  | @advanceRaised s st st' target node detail e edge legal raised => cases edge <;> exact trivial
  | pollCancel | pollDeadline => split <;> exact trivial
  | @revise s n policy reply granted alloc live saturated hpolicy hreply answer =>
    cases granted with
    | true => exact trivial
    | false => exact Or.inr (by rw [answer]; rfl)
  | unrevised _ _ _ policy => exact Or.inl policy
  | _ => exact trivial

/-- From these control points the only way on is a transition. -/
def Stage.announces : Stage K → Bool
  | .opened _ _ | .reviving _ => true
  | _ => false

theorem Step.announced {c c' : Stage K × RunState K W} (hs : Step ctl rt c c')
    (h : c.1.announces = true) : ∃ target node detail st' record raised,
      Edge ctl c.2 c.1 target node detail st' ∧ record.target = target ∧ record.note = detail ∧
      c'.2.log = raised ++ .transition record c.2.iteration node c.2.tree :: c.2.log ∧
      (ctl.QuietSink → raised = [] ∧ c'.1 = st') := by
  cases hs with
  | @advance s st st' target node detail edge legal quiet =>
    refine ⟨target, node, detail, st', ⟨s.machine.phase, target, detail, (rt.monotonic s.world).1⟩, [],
      edge, rfl, rfl, ?_, fun _ => ⟨rfl, rfl⟩⟩
    rw [RunState.mirrored_log, quiet]
    rfl
  | @advanceRaised s st st' target node detail e edge legal raised =>
    refine ⟨target, node, detail, st', ⟨s.machine.phase, target, detail, (rt.monotonic s.world).1⟩,
      [.sinkRaised e], edge, rfl, rfl, ?_, fun quiet => ?_⟩
    · rw [RunState.mirrored_log, raised]
      rfl
    · obtain ⟨sink, event, tree, world, hsink, hraised, -⟩ := RunState.mirrored_raised ctl rt _ _ _ _ raised
      exact absurd hraised (quiet sink hsink event tree world e)
  | _ => cases h

/-- The entries behind a granted revision, oldest last: its announcement and, with a quiet sink,
the expansion of the node. -/
structure Reopened (quiet : Prop) (newer : List (Obs K)) (n : Nat) : Prop where
  announced : ∃ newest record iteration tree,
    newer = newest ++ [.transition record iteration (some n) tree] ∧ record.target = .backtracking ∧
      record.note = lit "reopened node for revision attempt"
  expanded : quiet → ∃ newest k answer expansion selection backtracking i j l t u v,
    newer = newest ++ [.generate n k answer, .transition expansion i (some n) t,
      .transition selection j (some n) u, .transition backtracking l (some n) v] ∧
    expansion.target = .expansion ∧ selection.target = .selection ∧ backtracking.target = .backtracking

/-- A granted revision is announced, and with a quiet sink the node is expanded again. -/
theorem Reach.reopened {task : Str} {draws : Nat} {c₁ c : Stage K × RunState K W}
    (h : Reach ctl rt task draws c₁) (hs : Steps ctl rt c₁ c) {n : Nat} (hopen : c₁.1 = .opened n true)
    (hover : c.1.between = true) {newer : List (Obs K)} (hlog : c.2.log = newer ++ c₁.2.log) :
    Reopened ctl.QuietSink newer n := by
  -- a run that is over has left every control point on the way
  have hnext : ∀ {b}, Steps ctl rt b c → b.1.between = false →
      ∃ b', Step ctl rt b b' ∧ Steps ctl rt b' c := by
    intro b hb hinside
    rcases hb.cases_head with rfl | hstep
    · rw [hover] at hinside
      cases hinside
    · exact hstep
  obtain ⟨c₂, h₁₂, hs₂⟩ := hnext hs (by rw [hopen]; rfl)
  have h₂ := h.step h₁₂
  obtain ⟨target, node, detail, st, record, raised, edge, rfl, rfl, hlog₂, hquiet₂⟩ :=
    h₁₂.announced (by rw [hopen]; rfl)
  obtain ⟨newest, hnewest⟩ := h₂.log_extends hs₂
  rw [hopen] at edge
  generalize htarget : record.target = target at edge
  generalize hnote : record.note = note at edge
  cases edge
  constructor
  · refine ⟨newest ++ raised, record, c₁.2.iteration, c₁.2.tree, ?_, htarget, hnote⟩
    rw [hlog, hlog₂] at hnewest
    apply (List.append_left_inj c₁.2.log).mp
    simpa using hnewest
  · intro quiet
    obtain ⟨rfl, hst₂⟩ := hquiet₂ quiet
    obtain ⟨c₃, h₂₃, hs₃⟩ := hnext hs₂ (by rw [hst₂]; rfl)
    obtain ⟨target₃, node₃, detail₃, st₃, record₃, raised₃, edge₃, rfl, rfl, hlog₃, hquiet₃⟩ :=
      h₂₃.announced (by rw [hst₂]; rfl)
    rw [hst₂] at edge₃
    generalize htarget₃ : record₃.target = target₃ at edge₃
    generalize hnote₃ : record₃.note = note₃ at edge₃
    cases edge₃
    obtain ⟨rfl, hst₃⟩ := hquiet₃ quiet
    obtain ⟨c₄, h₃₄, hs₄⟩ := hnext hs₃ (by rw [hst₃]; rfl)
    obtain ⟨target₄, node₄, detail₄, st₄, record₄, raised₄, edge₄, rfl, rfl, hlog₄, hquiet₄⟩ :=
      h₃₄.announced (by rw [hst₃]; rfl)
    rw [hst₃] at edge₄
    generalize htarget₄ : record₄.target = target₄ at edge₄
    generalize hnote₄ : record₄.note = note₄ at edge₄
    cases edge₄
    obtain ⟨rfl, hst₄⟩ := hquiet₄ quiet
    obtain ⟨c₅, h₄₅, hs₅⟩ := hnext hs₄ (by rw [hst₄]; rfl)
    have h₅ := ((h₂.step h₂₃).step h₃₄).step h₄₅
    obtain ⟨last, hlast⟩ := h₅.log_extends hs₅
    obtain ⟨k, answer, hlog₅⟩ : ∃ k answer, c₅.2.log = .generate n k answer :: c₄.2.log := by
      generalize hc₄ : c₄.1 = stage at hst₄
      subst hst₄
      cases h₄₅ with
      | generate => cases hc₄; exact ⟨_, _, rfl⟩
      | generateRaised => cases hc₄; exact ⟨_, _, rfl⟩
      | advance edge => cases hc₄; cases edge
      | advanceRaised edge => cases hc₄; cases edge
      | _ => cases hc₄
    refine ⟨last, k, answer, record₄, record₃, record, c₃.2.iteration, c₂.2.iteration, c₁.2.iteration,
      c₃.2.tree, c₂.2.tree, c₁.2.tree, ?_, htarget₄, htarget₃, htarget⟩
    apply (List.append_left_inj c₁.2.log).mp
    rw [← hlog, hlast, hlog₅, hlog₄, hlog₃, hlog₂]
    simp

/-- A granted revision in the log of a run that is between iterations, or over, was carried out. -/
theorem Reach.reopened_of_granted {task : Str} {draws : Nat} {c : Stage K × RunState K W}
    (h : Reach ctl rt task draws c) (hover : c.1.between = true) {newer older : List (Obs K)} {n : Nat}
    (hlog : c.2.log = newer ++ .revise n (.ok true) :: older) : Reopened ctl.QuietSink newer n := by
  obtain ⟨c₀, c₁, newest, h₀, rfl, hlog₁, -, h₀₁, h₁⟩ := h.trace_step hlog (by simp)
  obtain ⟨-, -, -, -, policy, -, -, -, hopened, rfl⟩ := h₀₁.revise_written hlog₁
  refine (h₀.step h₀₁).reopened h₁ (hopened rfl) hover ?_
  rw [hlog₁]
  exact hlog

end CognitiveTree.Search
