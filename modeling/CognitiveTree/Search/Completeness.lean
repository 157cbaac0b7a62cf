import CognitiveTree.Search.Coverage

/-!
# The search is complete

The expandable paths that were not handed to the generator yet are what a run has left
to do, whichever children selection prefers. A run ends by acceptance, with its budget,
or with a dead root, and a dead root leaves no expandable path.
-/

namespace CognitiveTree.Search

open Arena

variable {K W : Type} [PyFloat K]

/-- Some candidate of an expandable path is accepted. -/
def Solvable (config : SearchConfig K) (children : List Str → List Str)
    (verdict : List Str → Evaluation K) (task : Str) : Prop :=
  ∃ path ∈ expandables config children verdict task, ∃ text ∈ candidates config children path,
    verdictStatus config (verdict (path ++ [text])) = .terminal

instance (config : SearchConfig K) (children : List Str → List Str)
    (verdict : List Str → Evaluation K) (task : Str) :
    Decidable (Solvable config children verdict task) :=
  inferInstanceAs (Decidable (∃ path ∈ _, ∃ text ∈ _, _))

/-- How a foreseeable run ends. -/
def Closed (config : SearchConfig K) (s : RunState K W) : Prop :=
  (s.machine.phase = .succeeded ∧ s.iteration = (generatedIn s.log).length) ∨
  (s.machine.phase = .exhausted ∧ s.iteration = (generatedIn s.log).length ∧
    config.maxIterations ≤ s.iteration) ∨
  (s.machine.phase = .exhausted ∧ s.iteration = (generatedIn s.log).length + 1 ∧
    (s.tree.arena.node 0).isLive = false)

section CandidateNodes

variable {config : SearchConfig K} {children : List Str → List Str}
  {verdict : List Str → Evaluation K} {task : Str}

theorem ne_nil_of_expandable {path : List Str}
    (h : path ∈ expandables config children verdict task) : path ≠ [] := by
  obtain ⟨xs, rfl, -⟩ := mem_grow.mp h
  simp

/-- No path of the candidate tree is listed twice. -/
theorem candidateNodes_nodup : (candidateNodes config children verdict task).Nodup := by
  rw [candidateNodes, List.nodup_cons, List.nodup_flatMap]
  refine ⟨?_, fun path _ => ?_, ?_⟩
  · intro hm
    obtain ⟨path, hpath, hm⟩ := List.mem_flatMap.mp hm
    obtain ⟨text, -, he⟩ := List.mem_map.mp hm
    have hpos := List.length_pos_iff.mpr (ne_nil_of_expandable hpath)
    have hlen := congrArg List.length he
    rw [List.length_append, List.length_singleton, List.length_singleton] at hlen
    omega
  · exact (candidates_nodup config children path).map fun x y he => by simpa using he
  · refine (expandables_nodup config children verdict task).imp fun {p q} hne u hp hq => hne ?_
    obtain ⟨x, -, rfl⟩ := List.mem_map.mp hp
    obtain ⟨y, -, he⟩ := List.mem_map.mp hq
    exact ((List.append_inj' he rfl).1).symm

end CandidateNodes

variable {ctl : TreeSearchController K W} {rt : Runtime K W} {children : List Str → List Str}
  {verdict : List Str → Evaluation K} {task : Str} {draws : Nat}

/-- Acceptance, a spent budget and a dead root are the only ends. -/
theorem Reach.closed {c : Stage K × RunState K W} (h : Reach ctl rt task draws c)
    (hf : Foreseeable ctl rt children verdict) (hst : c.1 = .ended) : Closed ctl.config c.2 := by
  revert hst
  refine h.strengthen (P := fun c => c.1 = .ended → Closed ctl.config c.2)
    (fun world hst => by cases hst) fun c c' hr hc hs hst => ?_
  have hcovered := hr.covered hf
  cases hs with
  | @advance s st st' target node detail edge h' quiet =>
    cases hst
    have hm := RunState.mirrored_fields ctl rt (s.transitioned rt target node detail h') target
      node detail
    have hgenerated : generatedIn ((s.transitioned rt target node detail h').mirrored ctl rt target
        node detail).1.log = generatedIn s.log := generatedIn_transitioned h'
    have htree := congrArg (fun t : ThoughtTree K => t.arena) hm.1
    unfold Closed
    dsimp only at htree ⊢
    rw [hm.2.1, hm.2.2.2.1, hgenerated, htree]
    cases edge
    case halt => exact hcovered.foreseen.elim
    case failed => exact hcovered.foreseen.elim
    case spent hspent => exact Or.inr (Or.inl ⟨rfl, hcovered.count (by simp), hspent⟩)
    case frontierEmpty hdead => exact Or.inr (Or.inr ⟨rfl, hcovered.count (by simp), hdead⟩)
    case accepted => exact Or.inl ⟨rfl, hcovered.count (by simp)⟩
  | @advanceRaised s st st' target node detail e edge h' raised =>
    obtain ⟨sink, event, tree, world, hsink, hx, -⟩ := RunState.mirrored_raised ctl rt _ _ _ _ raised
    exact absurd hx (hf.sink sink hsink event tree world e)
  | refuse source target sink =>
    exact absurd (List.mem_of_head? sink) (hr.no_sinkRaised hf.sink _)
  | pollCancel | pollDeadline | revise => split at hst <;> cases hst
  | _ => cases hst

namespace Reach

variable {s : RunState K W}

/-- At the end every node but the root has the verdict of its path. -/
theorem verdict_of_node (h : Reach ctl rt task draws (.ended, s))
    (hf : Foreseeable ctl rt children verdict) {n : Nat} (h0 : 0 < n)
    (hn : n < s.tree.arena.size) :
    (n, .ok (verdict (s.tree.arena.pathContents n))) ∈ evaluationsIn s.log := by
  have hj := h.judged
  have hpending : (s.tree.arena.node n).status ≠ .pending := fun hp => by
    have hm := hj.pending (h.not_lost hf) n h0 hn hp
    cases hm
  obtain ⟨v, hv, -⟩ := hj.verdict n h0 hn hpending
  have hanswer : v = verdict (s.tree.arena.pathContents n) :=
    Except.ok.inj ((h.covered hf).answers _ hv).2
  exact hanswer ▸ hv

/-- At the end the candidates of a path that was explored are nodes. -/
theorem exists_child (h : Reach ctl rt task draws (.ended, s))
    (hf : Foreseeable ctl rt children verdict) {p : Nat} (hp : p ∈ generatedIn s.log) {text : Str}
    (ht : text ∈ candidates ctl.config children (s.tree.arena.pathContents p)) :
    ∃ d, 0 < d ∧ d < s.tree.arena.size ∧
      s.tree.arena.pathContents d = s.tree.arena.pathContents p ++ [text] := by
  obtain ⟨hcontents, -⟩ := (h.covered hf).settled p hp (by simp [Stage.growing])
  rw [← hcontents] at ht
  obtain ⟨d, hd, rfl⟩ := List.mem_map.mp ht
  obtain ⟨hds, hparent⟩ := mem_children.mp hd
  exact ⟨d, Nat.zero_lt_of_lt (lt_of_mem_children hd), hds, pathContents_child _ hds hparent⟩

/-- Different nodes have different root paths. -/
theorem paths_injective {c : Stage K × RunState K W} (h : Reach ctl rt task draws c) {m n : Nat}
    (hm : m < c.2.tree.arena.size) (hn : n < c.2.tree.arena.size)
    (he : c.2.tree.arena.pathContents m = c.2.tree.arena.pathContents n) : m = n :=
  pathContents_injective h.inv.sound.siblings hm hn he

/-- The generator is called on expandable paths only, at most once on each. -/
theorem generated_subperm {c : Stage K × RunState K W} (h : Reach ctl rt task draws c)
    (hf : Foreseeable ctl rt children verdict) :
    ((generatedIn c.2.log).map c.2.tree.arena.pathContents).Subperm
      (expandables ctl.config children verdict task) := by
  have hc := h.covered hf
  apply List.subperm_of_subset
  · exact hc.once.map_on fun m hm n hn he => h.paths_injective (hc.alloc m hm) (hc.alloc n hn) he
  · intro path hpath
    obtain ⟨n, hn, rfl⟩ := List.mem_map.mp hpath
    exact hc.expandable n hn

/-- A dead root means that the generator was called on every expandable path. -/
theorem generated_of_dead (h : Reach ctl rt task draws (.ended, s))
    (hf : Foreseeable ctl rt children verdict) (hphase : s.machine.phase = .exhausted)
    (hroot : (s.tree.arena.node 0).isLive = false) {path : List Str}
    (hpath : path ∈ expandables ctl.config children verdict task) :
    ∃ n ∈ generatedIn s.log, s.tree.arena.pathContents n = path := by
  have hc := h.covered hf
  have hx := h.explored
  have hpruned : ∀ n, n < s.tree.arena.size → (s.tree.arena.node n).status = .pruned := by
    intro n hn
    refine h.pruned_of_dead (by simp [hphase]) (by simp [hphase]) hn ?_
    cases hlive : (s.tree.arena.node n).isLive with
    | false => rfl
    | true =>
      exact (h.inv.sound.live_lineage hn hlive (root_mem_lineage _ hn)).symm.trans hroot
  refine grow_induction (P := fun path => ∃ n ∈ generatedIn s.log,
    s.tree.arena.pathContents n = path) ?_ ?_ hpath
  · have h0 := s.tree.arena.linked.nonempty
    refine ⟨0, hx.generated 0 h0 (hpruned 0 h0) ?_ (Or.inl rfl), ?_⟩
    · have hbounds := ctl.config.bounds
      rw [show (s.tree.arena.node 0).depth = 0 from s.tree.arena.linked.root_depth]
      omega
    · rw [pathContents_root, show (s.tree.arena.node 0).content = task from hc.root]
  · rintro u text - ⟨p, hp, rfl⟩ htext hlen
    obtain ⟨hcandidate, hevaluated⟩ := List.mem_filter.mp htext
    obtain ⟨d, h0, hd, hpath⟩ := h.exists_child hf hp hcandidate
    refine ⟨d, hx.generated d hd (hpruned d hd) ?_ (Or.inr ⟨_, h.verdict_of_node hf h0 hd, ?_⟩),
      hpath⟩
    · have hdepth := length_pathContents _ hd
      rw [hpath, List.length_append, List.length_singleton] at hdepth
      rw [List.length_singleton] at hlen
      change (s.tree.arena.node d).depth < _
      omega
    · rw [hpath]
      exact of_decide_eq_true hevaluated

/-- Once every expandable path was explored, an acceptable candidate was accepted. -/
theorem succeeded_of_solvable (h : Reach ctl rt task draws (.ended, s))
    (hf : Foreseeable ctl rt children verdict)
    (hsolvable : Solvable ctl.config children verdict task)
    (hall : ∀ path ∈ expandables ctl.config children verdict task,
      ∃ n ∈ generatedIn s.log, s.tree.arena.pathContents n = path) :
    s.machine.phase = .succeeded := by
  obtain ⟨path, hpath, text, htext, hstatus⟩ := hsolvable
  obtain ⟨p, hp, rfl⟩ := hall path hpath
  obtain ⟨d, h0, hd, hdp⟩ := h.exists_child hf hp htext
  have haccepts : Accepts ctl.config s.log :=
    ⟨d, _, h.verdict_of_node hf h0 hd, verdictStatus_eq_terminal.mp (by rw [hdp, hstatus])⟩
  exact (h.accepting_of_accepts (h.not_lost hf) haccepts).resolve_left
    (Stage.not_accepting rfl rfl)

/-- An accepted node is an accepted candidate of an expandable path. -/
theorem solvable_of_succeeded (h : Reach ctl rt task draws (.ended, s))
    (hf : Foreseeable ctl rt children verdict) (hphase : s.machine.phase = .succeeded) :
    Solvable ctl.config children verdict task := by
  have hc := h.covered hf
  obtain ⟨d, hd, -⟩ := (h.accounts.decided rfl (by simp [hphase])).one hphase
  obtain ⟨v, hv, hstatus, -⟩ := h.verdict_of_terminal (List.mem_of_head? hd)
  obtain ⟨h0, hds⟩ := h.verdictLedger.alloc _ hv
  obtain ⟨p, hp, hlt, hps⟩ := exists_parent (Nat.pos_iff_ne_zero.mp h0) hds
  have hchild : d ∈ (s.tree.arena.node p).children := mem_children.mpr ⟨hds, hp⟩
  have hpg := h.explored.expanded p (List.ne_nil_of_mem hchild)
  have hanswer : v = verdict (s.tree.arena.pathContents d) := Except.ok.inj (hc.answers _ hv).2
  refine ⟨_, hc.expandable p hpg, (s.tree.arena.node d).content, ?_, ?_⟩
  · rw [← (hc.settled p hpg (by simp [Stage.growing])).1]
    exact List.mem_map.mpr ⟨d, hchild, rfl⟩
  · rw [← pathContents_child _ hds hp, ← hanswer]
    exact hstatus

/-- The nodes of a complete search are those of the candidate tree. -/
theorem nodes_perm (h : Reach ctl rt task draws (.ended, s))
    (hf : Foreseeable ctl rt children verdict)
    (hall : ∀ path ∈ expandables ctl.config children verdict task,
      ∃ n ∈ generatedIn s.log, s.tree.arena.pathContents n = path) :
    ((List.range s.tree.arena.size).map s.tree.arena.pathContents).Perm
      (candidateNodes ctl.config children verdict task) := by
  have hc := h.covered hf
  have hroot : s.tree.arena.pathContents 0 = [task] := by
    rw [pathContents_root, show (s.tree.arena.node 0).content = task from hc.root]
  have hnodup : ((List.range s.tree.arena.size).map s.tree.arena.pathContents).Nodup :=
    List.nodup_range.map_on fun m hm n hn he =>
      h.paths_injective (List.mem_range.mp hm) (List.mem_range.mp hn) he
  rw [List.perm_ext_iff_of_nodup hnodup candidateNodes_nodup]
  intro path
  rw [List.mem_map, candidateNodes, List.mem_cons, List.mem_flatMap]
  constructor
  · rintro ⟨d, hd, rfl⟩
    have hds := List.mem_range.mp hd
    rcases Nat.eq_zero_or_pos d with rfl | h0
    · exact Or.inl hroot
    · obtain ⟨p, hp, hlt, hps⟩ := exists_parent (Nat.pos_iff_ne_zero.mp h0) hds
      have hchild : d ∈ (s.tree.arena.node p).children := mem_children.mpr ⟨hds, hp⟩
      have hpg := h.explored.expanded p (List.ne_nil_of_mem hchild)
      refine Or.inr ⟨_, hc.expandable p hpg, ?_⟩
      rw [pathContents_child _ hds hp, ← (hc.settled p hpg (by simp [Stage.growing])).1]
      exact List.mem_map.mpr ⟨_, List.mem_map.mpr ⟨d, hchild, rfl⟩, rfl⟩
  · rintro (rfl | ⟨path, hpath, hm⟩)
    · exact ⟨0, List.mem_range.mpr s.tree.arena.linked.nonempty, hroot⟩
    · obtain ⟨text, htext, rfl⟩ := List.mem_map.mp hm
      obtain ⟨p, hp, rfl⟩ := hall path hpath
      obtain ⟨d, -, hd, hdp⟩ := h.exists_child hf hp htext
      exact ⟨d, List.mem_range.mpr hd, hdp⟩

end Reach

/-- The plain controllers are foreseeable. -/
theorem pathController_foreseeable {config : SearchConfig K} {children : List Str → List Str}
    {verdict : List Str → Evaluation K} (hdeadline : config.maxWallSeconds = none)
    (random : Option Int → Nat → K) : Foreseeable (W := W) (pathController config children verdict)
      (.still random) children verdict where
  generator := pathController_generator config children verdict
  evaluator := pathController_evaluator config children verdict
  critic _ h := by cases h
  reward _ h := by cases h
  sink _ h := by cases h
  revision := rfl
  stop := rfl
  deadline := hdeadline
  cancel := rfl

/-- A candidate that its verdict discards. -/
def hopeless : Evaluation ℚ := ⟨0, false, [], by decide +kernel⟩

section CandidateTrees

variable (ctl : TreeSearchController K W) (rt : Runtime K W) (task : Str) (draws : Nat) (world : W)
  {children : List Str → List Str} {verdict : List Str → Evaluation K}

/-- With enough budget a solvable task is solved within the number of expandable paths,
and any other one is exhausted in the iteration after the last of them. -/
theorem run_explores_candidate_tree (h : Foreseeable ctl rt children verdict) :
    (Solvable ctl.config children verdict task →
      (expandables ctl.config children verdict task).length ≤ ctl.config.maxIterations →
      ∃ r s, ctl.run rt task draws world = .ok r s ∧ r.outcome = .succeeded ∧
        r.iterations ≤ (expandables ctl.config children verdict task).length) ∧
    (¬ Solvable ctl.config children verdict task →
      (expandables ctl.config children verdict task).length + 1 ≤ ctl.config.maxIterations →
      ∃ r s, ctl.run rt task draws world = .ok r s ∧ r.outcome = .exhausted ∧
        r.iterations = (expandables ctl.config children verdict task).length + 1 ∧
        ((generatedIn s.log).map r.tree.arena.pathContents).Perm
          (expandables ctl.config children verdict task) ∧
        ((List.range r.tree.arena.size).map r.tree.arena.pathContents).Perm
          (candidateNodes ctl.config children verdict task)) := by
  obtain ⟨r, s, hrun, hr⟩ := run_ok_of_quiet ctl rt task draws world h.sink
  have hsub := hr.reach.generated_subperm h
  have hle := hsub.length_le
  rw [List.length_map] at hle
  dsimp only at hle
  -- a budget or a dead root ends the run only after the last expandable path
  have hfull : ∀ {path}, path ∈ expandables ctl.config children verdict task →
      (expandables ctl.config children verdict task).length ≤ (generatedIn s.log).length →
      ∃ n ∈ generatedIn s.log, s.tree.arena.pathContents n = path := by
    intro path hpath hlen
    have hperm := hsub.perm_of_length_le (by rw [List.length_map]; exact hlen)
    exact List.mem_map.mp (hperm.mem_iff.mpr hpath)
  have hexhausted : s.machine.phase = .exhausted → r.outcome = .exhausted := by
    intro hphase
    have houtcome := hr.outcome
    rw [hphase] at houtcome
    exact (Option.some.inj houtcome).symm
  refine ⟨fun hsolvable hbudget => ⟨r, s, hrun, ?_⟩, fun hsolvable hbudget => ⟨r, s, hrun, ?_⟩⟩
  · rw [hr.iterations, outcomeByPhase_succeeded hr.outcome]
    rcases hr.reach.closed h rfl with ⟨hphase, hiteration⟩ | ⟨hphase, hiteration, hspent⟩ |
      ⟨hphase, hiteration, hroot⟩
    · exact ⟨hphase, hiteration.le.trans hle⟩
    · have hsucceeded := hr.reach.succeeded_of_solvable h hsolvable
        fun path hpath => hfull hpath (by dsimp only at hiteration hspent; omega)
      cases hphase.symm.trans hsucceeded
    · have hsucceeded := hr.reach.succeeded_of_solvable h hsolvable
        fun path hpath => hr.reach.generated_of_dead h hphase hroot hpath
      cases hphase.symm.trans hsucceeded
  · rw [hr.iterations, hr.tree]
    rcases hr.reach.closed h rfl with ⟨hphase, -⟩ | ⟨hphase, hiteration, hspent⟩ |
      ⟨hphase, hiteration, hroot⟩
    · exact absurd (hr.reach.solvable_of_succeeded h hphase) hsolvable
    · dsimp only at hiteration hspent
      omega
    · have hall : ∀ path ∈ expandables ctl.config children verdict task,
          ∃ n ∈ generatedIn s.log, s.tree.arena.pathContents n = path :=
        fun path hpath => hr.reach.generated_of_dead h hphase hroot hpath
      have hperm : ((generatedIn s.log).map s.tree.arena.pathContents).Perm
          (expandables ctl.config children verdict task) := by
        refine hsub.antisymm (List.subperm_of_subset (expandables_nodup ..) fun path hpath => ?_)
        exact List.mem_map.mpr (hall path hpath)
      have hlen := hperm.length_eq
      rw [List.length_map] at hlen
      exact ⟨hexhausted hphase, by rw [hiteration, hlen], hperm, hr.reach.nodes_perm h hall⟩

/-- One task whose only batch holds a solution, and one whose only candidate is hopeless. -/
theorem run_explores_candidate_tree_small :
    (∃ r s, (twoWinners (lit "candidate-0")).run (Runtime.still fun _ _ => 0) (lit "task") 0 () =
      .ok r s ∧ r.outcome = .succeeded ∧ r.iterations ≤ 1) ∧
    ∃ r s, (pathController smallConfig (fun _ => [lit "go on"]) (fun _ => hopeless) :
        TreeSearchController ℚ Unit).run (Runtime.still fun _ _ => 0) (lit "task") 0 () = .ok r s ∧
      r.outcome = .exhausted ∧ r.iterations = 2 := by
  constructor
  · obtain ⟨r, s, hrun, hout, hiterations⟩ := (run_explores_candidate_tree
      (twoWinners (lit "candidate-0")) (Runtime.still fun _ _ => 0) (lit "task") 0 ()
      (pathController_foreseeable rfl _)).1 (by decide +kernel) (by decide +kernel)
    exact ⟨r, s, hrun, hout, hiterations.trans (by decide +kernel)⟩
  · obtain ⟨r, s, hrun, hout, hiterations, -⟩ := (run_explores_candidate_tree
      (pathController smallConfig (fun _ => [lit "go on"]) (fun _ => hopeless) :
        TreeSearchController ℚ Unit) (Runtime.still fun _ _ => 0) (lit "task") 0 ()
      (pathController_foreseeable rfl _)).2 (by decide +kernel) (by decide +kernel)
    exact ⟨r, s, hrun, hout, hiterations.trans (by decide +kernel)⟩

end CandidateTrees

end CognitiveTree.Search
