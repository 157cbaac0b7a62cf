import CognitiveTree.Search.Acceptance

/-!
# A raising evaluation

The verdicts of a batch are stored only after all of them have arrived. So once an
evaluation of the batch has raised, the run ends with the tree it had when the batch was
handed over, and with every new child still pending.
-/

namespace CognitiveTree.Search

open Arena

variable {K W : Type} [PyFloat K]

/-- No evaluation in the log raised. -/
def Unfailed (log : List (Obs K)) : Prop := ∀ d e, Obs.evaluate d (.error e) ∉ log

theorem Unfailed.cons {log : List (Obs K)} (h : Unfailed log) {o : Obs K}
    (ho : ∀ d e, o ≠ .evaluate d (.error e)) : Unfailed (o :: log) := by
  intro d e hmem
  rcases List.mem_cons.mp hmem with he | hmem
  · exact ho d e he.symm
  · exact h d e hmem

/-- What the log may hold after the hand-over of the nodes from `first` up to `size`: their
evaluations, the transition into `FAILED`, and faults of the event sink. -/
def Obs.follows (first size : Nat) : Obs K → Prop
  | .evaluate d _ => first ≤ d ∧ d < size
  | .transition record _ _ _ => record.target = .failed
  | .sinkRaised _ => True
  | .refused _ _ => True
  | _ => False

/-- The log goes back to a hand-over: `n` was expanded in `tree₀`, its new children are the
pending nodes that `tree` has in addition, and nothing but their evaluation followed. -/
structure HandedOver (log : List (Obs K)) (n : Nat) (tree₀ tree : ThoughtTree K) : Prop where
  trace : ∃ newer record iteration k answer record₀ iteration₀ older,
    log = newer ++ .transition record iteration (some n) tree :: .generate n k answer ::
      .transition record₀ iteration₀ (some n) tree₀ :: older ∧
    record.target = .evaluation ∧ record₀.target = .expansion ∧ Unfailed older ∧
    ∀ o ∈ newer, o.follows tree₀.arena.size tree.arena.size
  fresh : ∀ r, tree₀.arena.size ≤ r → r < tree.arena.size →
    r ∈ (tree.arena.node n).children ∧ (tree.arena.node r).status = .pending

namespace HandedOver

variable {log : List (Obs K)} {n : Nat} {tree₀ tree : ThoughtTree K}

theorem cons (h : HandedOver log n tree₀ tree) {o : Obs K}
    (ho : o.follows tree₀.arena.size tree.arena.size) : HandedOver (o :: log) n tree₀ tree := by
  obtain ⟨⟨newer, record, iteration, k, answer, record₀, iteration₀, older, rfl, ht, ht₀, hold,
    hnewer⟩, hfresh⟩ := h
  refine ⟨⟨o :: newer, record, iteration, k, answer, record₀, iteration₀, older, rfl, ht, ht₀, hold,
    fun x hx => ?_⟩, hfresh⟩
  rcases List.mem_cons.mp hx with rfl | hx
  · exact ho
  · exact hnewer x hx

/-- Only evaluations of new children can have raised. -/
theorem raised (h : HandedOver log n tree₀ tree) {d : Nat} {e : Exc}
    (hmem : .evaluate d (.error e) ∈ log) : tree₀.arena.size ≤ d ∧ d < tree.arena.size := by
  obtain ⟨⟨newer, record, iteration, k, answer, record₀, iteration₀, older, rfl, -, -, hold,
    hnewer⟩, -⟩ := h
  rcases List.mem_append.mp hmem with hmem | hmem
  · exact hnewer _ hmem
  · simp only [List.mem_cons, reduceCtorEq, false_or] at hmem
    exact absurd hmem (hold d e)

end HandedOver

/-- What the log tells at a control point. -/
def Stage.traced (s : RunState K W) : Stage K → Prop
  | .expanding n => Unfailed s.log ∧ ∃ record iteration older,
    s.log = .transition record iteration (some n) s.tree :: older ∧ record.target = .expansion
  | .attaching n _ _ batch => Unfailed s.log ∧ ∃ tree₀ k answer record iteration older,
    s.log = .generate n k answer :: .transition record iteration (some n) tree₀ :: older ∧
    record.target = .expansion ∧ tree₀.arena.size ≤ s.tree.arena.size ∧
    ∀ r, r ∈ batch ↔ tree₀.arena.size ≤ r ∧ r < s.tree.arena.size
  | .collecting n batch _ => ∃ tree₀, HandedOver s.log n tree₀ s.tree ∧
    ∀ r, r ∈ batch ↔ tree₀.arena.size ≤ r ∧ r < s.tree.arena.size
  | .faulted _ => Unfailed s.log ∨ ∃ n tree₀, HandedOver s.log n tree₀ s.tree
  | .ended => Unfailed s.log ∨ s.machine.phase = .failed ∧ ∃ n tree₀, HandedOver s.log n tree₀ s.tree
  | _ => Unfailed s.log

/-- Outside of a batch's evaluation no evaluation has raised. -/
theorem Stage.unfailed_of_traced {s : RunState K W} {st : Stage K} (h : st.traced s)
    (hcollecting : ∀ n batch results, st ≠ .collecting n batch results)
    (hfaulted : ∀ e, st ≠ .faulted e) (hended : st ≠ .ended) : Unfailed s.log := by
  cases st
  case expanding => exact h.1
  case attaching => exact h.1
  case collecting => exact absurd rfl (hcollecting _ _ _)
  case faulted => exact absurd rfl (hfaulted _)
  case ended => exact absurd rfl hended
  all_goals exact h

/-- An exception outside of a batch's evaluation. -/
theorem Unfailed.afterFault {s : RunState K W} (h : Unfailed s.log) (st : Stage K) (e : Exc) :
    (st.afterFault e).traced s := by
  cases st <;> exact Or.inl h

variable {ctl : TreeSearchController K W} {rt : Runtime K W}

/-- A transition keeps the trace, and the one into `EVALUATION` begins it. -/
theorem Edge.traced {s s' : RunState K W} {st st' : Stage K} {target node detail}
    (edge : Edge ctl s st target node detail st') (hi : Inv ctl rt (st, s)) (h : st.traced s)
    {record : PhaseTransition K} (htree : s'.tree = s.tree) (hphase : s'.machine.phase = target)
    (hlog : s'.log = .transition record s.iteration node s.tree :: s.log)
    (hrecord : record.target = target) : st'.traced s' := by
  have hopen : (∀ n batch results, st ≠ .collecting n batch results) → (∀ e, st ≠ .faulted e) →
      st ≠ .ended → Unfailed s'.log := by
    intro hcollecting hfaulted hended
    rw [hlog]
    exact (Stage.unfailed_of_traced h hcollecting hfaulted hended).cons (by simp)
  cases edge
  case expand n =>
    exact ⟨hopen (by simp) (by simp) (by simp), record, s.iteration, s.log,
      by rw [hlog, htree], hrecord⟩
  case candidates n seen batch hne =>
    obtain ⟨hun, tree₀, k, answer, record₀, iteration₀, older, hbefore, ht₀, -, hbatch⟩ := h
    have hw := hi.working n rfl
    refine ⟨tree₀, ⟨⟨[], record, s.iteration, k, answer, record₀, iteration₀, older, ?_, hrecord, ht₀,
      ?_, by simp⟩, fun r hge hlt => ?_⟩, by rwa [htree]⟩
    · rw [hlog, htree, hbefore]
      rfl
    · intro d e hmem
      rw [hbefore] at hun
      exact hun d e (List.mem_cons_of_mem _ (List.mem_cons_of_mem _ hmem))
    · rw [htree] at hlt ⊢
      have hr := (hbatch r).mpr ⟨hge, hlt⟩
      exact ⟨hw.attached r hr, hw.pending r hr⟩
  case failed e =>
    rcases h with hun | ⟨n, tree₀, hover⟩
    · rw [Stage.traced, hlog]
      exact Or.inl (hun.cons (by simp))
    · rw [Stage.traced, hlog, htree]
      exact Or.inr ⟨hphase, n, tree₀, hover.cons hrecord⟩
  case halt => exact Or.inl (hopen (by simp) (by simp) (by simp))
  case spent => exact Or.inl (hopen (by simp) (by simp) (by simp))
  case frontierEmpty => exact Or.inl (hopen (by simp) (by simp) (by simp))
  case accepted => exact Or.inl (hopen (by simp) (by simp) (by simp))
  all_goals exact hopen (by simp) (by simp) (by simp)

/-- An exception of the sink joins the trace. -/
theorem Stage.traced_sinkRaised {s s' : RunState K W} {st : Stage K} {e : Exc} (h : st.traced s)
    (htree : s'.tree = s.tree) (hphase : s'.machine.phase = s.machine.phase)
    (hlog : s'.log = .sinkRaised e :: s.log) : (st.afterFault e).traced s' := by
  have hlost : (∃ n tree₀, HandedOver s.log n tree₀ s.tree) →
      ∃ n tree₀, HandedOver s'.log n tree₀ s'.tree := by
    rintro ⟨n, tree₀, hover⟩
    rw [hlog, htree]
    exact ⟨n, tree₀, hover.cons trivial⟩
  have hopen : Unfailed s.log → Unfailed s'.log := by
    intro hun
    rw [hlog]
    exact hun.cons (by simp)
  cases st
  case collecting n batch results =>
    obtain ⟨tree₀, hover, -⟩ := h
    exact Or.inr (hlost ⟨n, tree₀, hover⟩)
  case faulted => exact h.imp hopen hlost
  case ended => exact h.imp hopen fun h => ⟨hphase.trans h.1, hlost h.2⟩
  case expanding => exact (hopen h.1).afterFault _ e
  case attaching => exact (hopen h.1).afterFault _ e
  all_goals exact (hopen h).afterFault _ e

theorem Step.traced {task : Str} {draws : Nat} {c c' : Stage K × RunState K W}
    (hs : Step ctl rt c c') (hr : Reach ctl rt task draws c) (h : c.1.traced c.2) :
    c'.1.traced c'.2 := by
  have hi := hr.inv
  cases hs with
  | @advance s st st' target node detail edge legal quiet =>
    have hm := RunState.mirrored_fields ctl rt (s.transitioned rt target node detail legal) target
      node detail
    have hlog := RunState.mirrored_log ctl rt (s.transitioned rt target node detail legal) target
      node detail
    rw [quiet] at hlog
    exact edge.traced hi h hm.1 (by rw [hm.2.1]; rfl) hlog rfl
  | @advanceRaised s st st' target node detail e edge legal raised =>
    have hm := RunState.mirrored_fields ctl rt (s.transitioned rt target node detail legal) target
      node detail
    have hlog := RunState.mirrored_log ctl rt (s.transitioned rt target node detail legal) target
      node detail
    rw [raised] at hlog
    have hquiet : st'.traced (s.transitioned rt target node detail legal) :=
      edge.traced hi h rfl rfl rfl rfl
    exact Stage.traced_sinkRaised hquiet hm.1 (by rw [hm.2.1]) hlog
  | refuse source target =>
    exact h.imp (fun hun => hun.cons (by simp)) fun h =>
      ⟨h.1, h.2.imp fun n h => h.imp fun tree₀ hover => hover.cons trivial⟩
  | pollCancel | pollDeadline => split <;> exact h
  | @revise s n policy reply granted =>
    have hun : Unfailed (.revise n reply.answer :: s.log) := Unfailed.cons h (by simp)
    split <;> exact hun
  | mark | stop | «continue» | begin | pick | cap | collapse | retreat | shape | credit
  | uncritiqued | critiqued => exact Unfailed.cons h (by simp)
  | stopRaised | reviseRaised | generateRaised | critiqueRaised | shapeRaised =>
    exact Or.inl (Unfailed.cons (Stage.unfailed_of_traced h (by simp) (by simp) (by simp)) (by simp))
  | @generate s n reply candidates hreply answer =>
    obtain ⟨hun, record, iteration, older, hlog, ht⟩ := h
    refine ⟨hun.cons (by simp), s.tree, ctl.config.branchingFactor, reply.answer, record, iteration,
      older, congrArg (List.cons _) hlog, ht, le_rfl, fun r => ?_⟩
    simp only [List.not_mem_nil, false_iff, not_and, not_lt]
    exact fun hle => hle
  | skip => exact h
  | @attach s n content rest seen batch c tree nonempty new added =>
    have halloc := (hi.working n rfl).alloc
    rw [ThoughtTree.addChild, if_pos (hi.indexed n halloc)] at added
    cases added
    obtain ⟨hun, tree₀, k, answer, record, iteration, older, hlog, ht, hle, hbatch⟩ := h
    have hsize := attachChild_size (Str.strip content) halloc
    refine ⟨hun, tree₀, k, answer, record, iteration, older, hlog, ht, ?_, fun r => ?_⟩
    · exact hle.trans (hsize ▸ Nat.le_succ s.tree.arena.size)
    · change _ ↔ _ ∧ r < (s.tree.arena.attachChild n (Str.strip content)).size
      change tree₀.arena.size ≤ s.tree.arena.size at hle
      rw [hsize, List.mem_append, List.mem_singleton, hbatch r]
      dsimp only
      omega
  | @evaluate s n d batch results reply pending fresh hreply =>
    obtain ⟨tree₀, hover, hbatch⟩ := h
    exact ⟨tree₀, hover.cons ((hbatch d).mp pending), hbatch⟩
  | @collected s n batch results verdicts order answers =>
    obtain ⟨tree₀, hover, hbatch⟩ := h
    intro d e hmem
    -- the exception would be the one answer for its node, which has a verdict
    have hledger := hr.verdictLedger
    have hd : d ∈ verdicts.map Prod.fst := order ▸ (hbatch d).mpr (hover.raised hmem)
    obtain ⟨cv, hcv, rfl⟩ := List.mem_map.mp hd
    have hboth := List.inj_on_of_nodup_map hledger.once (hledger.known _ (answers cv hcv))
      (mem_evaluationsIn.mpr hmem) rfl
    cases hboth
  | @collectRaised s n d batch before after results e order earlier failure =>
    obtain ⟨tree₀, hover, -⟩ := h
    exact Or.inr ⟨n, tree₀, hover⟩
  | _ => exact h

/-- The control points of the main loop outside of an iteration. -/
def Stage.between : Stage K → Bool
  | .starting | .boundary | .halting _ _ | .faulted _ | .ended => true
  | _ => false

/-- Outside of an iteration a step stays there, or it begins one. -/
theorem Step.between {c c' : Stage K × RunState K W} (hs : Step ctl rt c c')
    (h : c.1.between = true) : c'.1.between = true ∨ 0 < c'.2.iteration := by
  cases hs with
  | advance edge => cases edge <;> first | exact Or.inl rfl | cases h
  | @advanceRaised s st st' => cases st' <;> exact Or.inl rfl
  | pollCancel | pollDeadline => split <;> exact Or.inl rfl
  | begin => exact Or.inr (Nat.succ_pos _)
  | _ => first | exact Or.inl rfl | cases h

namespace Reach

variable {task : Str} {draws : Nat} {c : Stage K × RunState K W}

/-- The trace is kept along every run. -/
theorem traced (h : Reach ctl rt task draws c) : c.1.traced c.2 := by
  refine h.strengthen (P := fun c => c.1.traced c.2) (fun world => ?_)
    fun c c' hr hc hs => hs.traced hr hc
  intro d e hmem
  cases hmem

/-- Before the first iteration a run is outside of an iteration. -/
theorem between (h : Reach ctl rt task draws c) (h0 : c.2.iteration = 0) : c.1.between = true := by
  revert h0
  refine h.invariant (P := fun c => c.2.iteration = 0 → c.1.between = true) (fun world _ => rfl)
    fun c c' hc hs h0 => ?_
  have hbefore : c.2.iteration = 0 := by
    rcases hs.iteration with he | ⟨he, -⟩ <;> omega
  exact (hs.between (hc hbefore)).resolve_right (by omega)

/-- Before the first iteration nothing is evaluated. -/
theorem evaluations_nil (h : Reach ctl rt task draws c) (h0 : c.2.iteration = 0) :
    evaluationsIn c.2.log = [] := by
  revert h0
  refine h.strengthen (P := fun c => c.2.iteration = 0 → evaluationsIn c.2.log = [])
    (fun world _ => rfl) fun c c' hr hc hs h0 => ?_
  have hbefore : c.2.iteration = 0 := by
    rcases hs.iteration with he | ⟨he, -⟩ <;> omega
  rcases hs.evaluation_cases hr.inv with ⟨hlog, -⟩ | ⟨n, batch, results, d, answer, hst, -⟩
  · rw [hlog, hc hbefore]
  · have hbetween := hr.between hbefore
    rw [hst] at hbetween
    cases hbetween

end Reach

/-- A run stops outside of an iteration, however it ends. -/
theorem run_between (ctl : TreeSearchController K W) (rt : Runtime K W) (task : Str) (draws : Nat)
    (world : W) : ∃ st, Reach ctl rt task draws (st, finalState (ctl.run rt task draws world)) ∧
      st.between = true := by
  obtain ⟨st, hreach, hover⟩ := run_over ctl rt task draws world
  rcases hover with rfl | h0
  · exact ⟨_, hreach, rfl⟩
  · exact ⟨st, hreach, hreach.between h0⟩

section Run

variable (ctl rt) (task : Str) (draws : Nat) (world : W)

/-- A run one of whose evaluations raised is over, with the tree it handed over. -/
theorem run_handedOver {d : Nat} {e : Exc}
    (h : .evaluate d (.error e) ∈ (finalState (ctl.run rt task draws world)).log) :
    (finalState (ctl.run rt task draws world)).machine.phase = .failed ∧
    ∃ n tree₀, HandedOver (finalState (ctl.run rt task draws world)).log n tree₀
      (finalState (ctl.run rt task draws world)).tree := by
  obtain ⟨st, hreach, hover⟩ := run_over ctl rt task draws world
  rcases hover with rfl | h0
  · rcases hreach.traced with hun | htrace
    · exact absurd h (hun d e)
    · exact htrace
  · have hmem := mem_evaluationsIn.mpr h
    rw [hreach.evaluations_nil h0] at hmem
    cases hmem

end Run

end CognitiveTree.Search
