import CognitiveTree.Search.Statistics

/-!
# Stored verdicts

A node other than the root is pending until its verdict arrives; afterwards its score,
rationale and status are those of the one verdict the log has for it, except that
selection may still prune what the verdict left alive.
-/

namespace CognitiveTree.Search

open Arena

variable {K W : Type} [PyFloat K] {ctl : TreeSearchController K W} {rt : Runtime K W}

/-- A node as its verdict left it, or pruned since. -/
structure JudgedBy (config : SearchConfig K) (node : ThoughtNode K) (v : Evaluation K) : Prop where
  score : node.score = v.score
  rationale : node.rationale = v.rationale
  status : node.status = verdictStatus config v ∨
    verdictStatus config v = .evaluated ∧ node.status = .pruned

theorem verdictStatus_ne_pending (config : SearchConfig K) (v : Evaluation K) :
    verdictStatus config v ≠ .pending := by
  unfold verdictStatus
  split
  · simp
  · split <;> simp

/-- A verdict leaves its node alive only as evaluated. -/
theorem verdictStatus_live {config : SearchConfig K} {v : Evaluation K}
    (h : (verdictStatus config v).isLive = true) : verdictStatus config v = .evaluated := by
  unfold verdictStatus at h ⊢
  split
  · rename_i ht
    rw [if_pos ht] at h
    cases h
  · rename_i ht
    rw [if_neg ht] at h
    split
    · rename_i hp
      rw [if_pos hp] at h
      cases h
    · rfl

/-- A verdict is accepted when it is terminal and its raw score reaches the threshold. -/
theorem verdictStatus_eq_terminal {config : SearchConfig K} {v : Evaluation K} :
    verdictStatus config v = .terminal ↔
      v.isTerminal = true ∧ PyFloat.le config.acceptThreshold v.score = true := by
  unfold verdictStatus
  split
  · rename_i h
    simpa using h
  · rename_i h
    simp only [Bool.and_eq_true] at h
    split <;> simp [h]

/-- Every node that is not pending has its verdict in the log, and as long as no exception
interfered only unjudged nodes of the current batch are pending. -/
structure Judged (config : SearchConfig K) (c : Stage K × RunState K W) : Prop where
  verdict : ∀ r, 0 < r → r < c.2.tree.arena.size → (c.2.tree.arena.node r).status ≠ .pending →
    ∃ v, (r, .ok v) ∈ evaluationsIn c.2.log ∧ JudgedBy config (c.2.tree.arena.node r) v
  pending : ¬ Lost c → ∀ r, 0 < r → r < c.2.tree.arena.size →
    (c.2.tree.arena.node r).status = .pending → r ∈ c.1.unjudged
  root : (c.2.tree.arena.node 0).status = .pending ∨ (c.2.tree.arena.node 0).status = .pruned

/-- No answer of the evaluator is ever taken back. -/
theorem Step.evaluations_mono {c c' : Stage K × RunState K W} (hs : Step ctl rt c c')
    (hi : Inv ctl rt c) {p : Nat × Except Exc (Evaluation K)} (hp : p ∈ evaluationsIn c.2.log) :
    p ∈ evaluationsIn c'.2.log := by
  rcases hs.evaluation_cases hi with ⟨hlog, -⟩ | ⟨_, _, _, _, _, -, -, -, -, -, -, hlog⟩ <;>
    rw [hlog]
  · exact hp
  · exact List.mem_cons_of_mem _ hp

/-- A pending node leaves the unjudged ones only with its verdict, or with an exception. -/
theorem Step.pending_kept {c c' : Stage K × RunState K W} (hs : Step ctl rt c c')
    (hi : Inv ctl rt c) (hlost : ¬ Lost c')
    (h : ∀ r, 0 < r → r < c.2.tree.arena.size → (c.2.tree.arena.node r).status = .pending →
      r ∈ c.1.unjudged) :
    ∀ r, 0 < r → r < c'.2.tree.arena.size → (c'.2.tree.arena.node r).status = .pending →
      r ∈ c'.1.unjudged := by
  have hprune : ∀ {s : RunState K W} {n : Nat}, s = c.2 → c.1.unjudged = [] →
      Frontier s.tree.arena n → ∀ r, 0 < r → r < (s.pruned n).tree.arena.size →
        ((s.pruned n).tree.arena.node r).status ≠ .pending := by
    intro s n hsc hnil hn r h0 hr hpending
    subst hsc
    have he : (c.2.pruned n).tree.arena = c.2.tree.arena.setStatus n .pruned := by
      change (c.2.tree.arena.pruneSubtree n).1 = _
      rw [hn.pruneSubtree_eq hi.sound]
    rw [he] at hr hpending
    rw [setStatus_node] at hpending
    split at hpending
    · cases hpending
    · have hm := h r h0 hr hpending
      rw [hnil] at hm
      cases hm
  cases hs with
  | @advance s st st' target node detail edge h' quiet =>
    rw [(RunState.mirrored_fields ctl rt (s.transitioned rt target node detail h') target node
      detail).1]
    cases edge <;> exact h
  | @advanceRaised s st st' target node detail e edge h' raised =>
    rw [(RunState.mirrored_fields ctl rt (s.transitioned rt target node detail h') target node
      detail).1]
    cases edge <;> first
      | exact absurd (Or.inl ⟨_, rfl⟩) hlost
      | exact h
  | pollCancel | pollDeadline | revise => split <;> exact h
  | cap alloc live leaf _ =>
    intro r h0 hr hpending
    exact absurd hpending (hprune rfl rfl (Inv.frontier_of_leaf alloc live leaf) r h0 hr)
  | collapse | retreat =>
    intro r h0 hr hpending
    exact absurd hpending (hprune rfl rfl (hi.working _ rfl).frontier r h0 hr)
  | stopRaised | reviseRaised | generateRaised | collectRaised | critiqueRaised | shapeRaised =>
    exact absurd (Or.inl ⟨_, rfl⟩) hlost
  | @attach s n content rest seen batch c tree _ _ added =>
    have halloc := (hi.working n rfl).alloc
    rw [ThoughtTree.addChild, if_pos (hi.indexed n halloc)] at added
    cases added
    intro r h0 hr hpending
    change r < (s.tree.arena.attachChild n (Str.strip content)).size at hr
    change ((s.tree.arena.attachChild n (Str.strip content)).node r).status = _ at hpending
    rw [attachChild_size _ halloc] at hr
    by_cases hne : r = s.tree.arena.size
    · exact List.mem_append_right _ (List.mem_singleton.mpr hne)
    · rw [attachChild_old _ halloc hne] at hpending
      exact List.mem_append_left _ (h r h0 (Nat.lt_of_le_of_ne (Nat.lt_succ_iff.mp hr) hne) hpending)
  | collected order _ =>
    intro r h0 hr hpending
    have hm := h r h0 hr hpending
    rw [← order] at hm
    exact hm
  | @judge s n d v todo solution values =>
    intro r h0 hr hpending
    change ((s.tree.arena.applyEvaluation d v.score _ v.rationale).node r).status = _ at hpending
    rw [applyEvaluation_node] at hpending
    split at hpending
    · exact absurd hpending (verdictStatus_ne_pending ctl.config v)
    · rename_i hne
      exact (List.mem_cons.mp (h r h0 hr hpending)).resolve_left hne
  | @credit s n solution values =>
    have hcore := sameCore_backpropagate s.tree.arena values
    intro r h0 hr hpending
    change ((backpropagateArena s.tree.arena values).node r).status = _ at hpending
    rw [hcore.status_eq] at hpending
    exact h r h0 (hcore.size_eq ▸ hr) hpending
  | _ => exact h

/-- The root never has a verdict. -/
theorem Step.root_kept {c c' : Stage K × RunState K W} (hs : Step ctl rt c c')
    (hi : Inv ctl rt c) (h : (c.2.tree.arena.node 0).status = .pending ∨
      (c.2.tree.arena.node 0).status = .pruned) :
    (c'.2.tree.arena.node 0).status = .pending ∨ (c'.2.tree.arena.node 0).status = .pruned := by
  rcases hs.tree_cases hi with ⟨-, hchange⟩ | ⟨n, solution, valued, -, -, -, he⟩
  · generalize c'.2.tree.arena = b at hchange ⊢
    cases hchange with
    | same => exact h
    | prune n frontier site =>
      rw [setStatus_node]
      split
      · exact Or.inr rfl
      · exact h
    | verdict n d v todo solution valued judging pending =>
      have hd : d ∈ (c.2.tree.arena.node n).children :=
        (hi.working n (by rw [judging]; rfl)).attached d (by simp [judging, Stage.batch])
      have hne : 0 ≠ d := (Nat.zero_lt_of_lt (lt_of_mem_children hd)).ne
      rw [applyEvaluation_node, if_neg hne]
      exact h
    | child n content focus =>
      have halloc := (hi.working n focus).alloc
      rw [attachChild_old content halloc c.2.tree.arena.linked.nonempty.ne]
      exact h
  · rw [he, (sameCore_backpropagate c.2.tree.arena valued).status_eq]
    exact h

namespace Reach

variable {task : Str} {draws : Nat} {c : Stage K × RunState K W}

theorem judged (h : Reach ctl rt task draws c) : Judged ctl.config c := by
  refine h.strengthen (P := Judged ctl.config) (fun world => ⟨?_, ?_, Or.inl rfl⟩) fun c c' hr hc hs => ?_
  · intro r h0 hr
    exact absurd hr (Nat.not_lt.mpr h0)
  · intro _ r h0 hr
    exact absurd hr (Nat.not_lt.mpr h0)
  have hi := hr.inv
  refine ⟨fun r h0 hlt hne => ?_, fun hlost =>
    hs.pending_kept hi hlost (hc.pending (hs.batch_kept hi hlost).1), hs.root_kept hi hc.root⟩
  -- the node had its verdict before
  have hold : r < c.2.tree.arena.size → (c.2.tree.arena.node r).status ≠ .pending →
      (c'.2.tree.arena.node r).score = (c.2.tree.arena.node r).score →
      (c'.2.tree.arena.node r).rationale = (c.2.tree.arena.node r).rationale →
      (c'.2.tree.arena.node r).status = (c.2.tree.arena.node r).status →
      ∃ v, (r, .ok v) ∈ evaluationsIn c'.2.log ∧
        JudgedBy ctl.config (c'.2.tree.arena.node r) v := by
    intro hlt hne hscore hrationale hstatus
    obtain ⟨v, hv, hj⟩ := hc.verdict r h0 hlt hne
    refine ⟨v, hs.evaluations_mono hi hv, ?_, ?_, ?_⟩
    · rw [hscore, hj.score]
    · rw [hrationale, hj.rationale]
    · rw [hstatus]
      exact hj.status
  rcases hs.tree_cases hi with ⟨-, hchange⟩ | ⟨n, solution, valued, -, -, -, he⟩
  · generalize hb : c'.2.tree.arena = b at hchange hlt hne hold ⊢
    cases hchange with
    | same => exact hold hlt hne rfl rfl rfl
    | prune n frontier site =>
      rw [setStatus_node] at hne hold ⊢
      split
      · -- only a node with a verdict that left it alive is pruned
        rename_i hrn
        subst hrn
        have hopen : ¬ Lost c := by
          rcases site with hst | hst | hst <;>
            exact not_lost hi (by simp [hst]) (by simp [hst])
        have hidle : c.1.unjudged = [] := by
          rcases site with hst | hst | hst <;> simp [hst, Stage.unjudged]
        have hne' : (c.2.tree.arena.node r).status ≠ .pending := fun hpending => by
          have hm := hc.pending hopen r h0 hlt hpending
          rw [hidle] at hm
          cases hm
        obtain ⟨v, hv, hj⟩ := hc.verdict r h0 hlt hne'
        refine ⟨v, hs.evaluations_mono hi hv, hj.score, hj.rationale, Or.inr ⟨?_, rfl⟩⟩
        rcases hj.status with hstatus | ⟨hstatus, -⟩
        · have hlive := frontier.live
          rw [hstatus] at hlive
          exact verdictStatus_live hlive
        · exact hstatus
      · rename_i hrn
        rw [if_neg hrn] at hne hold
        exact hold hlt hne rfl rfl rfl
    | verdict n d v todo solution valued judging pending =>
      rw [applyEvaluation_node] at hne hold ⊢
      split
      · rename_i hrd
        subst hrd
        have hknown := hr.verdictLedger.known (r, .ok v) (by
          rw [judging]
          exact List.mem_cons_self ..)
        exact ⟨v, hs.evaluations_mono hi hknown, rfl, rfl, Or.inl rfl⟩
      · rename_i hrd
        rw [if_neg hrd] at hne hold
        exact hold hlt hne rfl rfl rfl
    | child n content focus =>
      have halloc := (hi.working n focus).alloc
      rw [attachChild_size content halloc] at hlt
      by_cases hnew : r = c.2.tree.arena.size
      · rw [hnew, attachChild_new content halloc] at hne
        exact absurd rfl hne
      · rw [attachChild_old content halloc hnew] at hne hold ⊢
        exact hold (by omega) hne rfl rfl rfl
  · have hcore := sameCore_backpropagate c.2.tree.arena valued
    rw [he] at hlt hne
    rw [hcore.status_eq] at hne
    rw [hcore.size_eq] at hlt
    refine hold hlt hne ?_ ?_ ?_ <;> rw [he]
    · exact hcore.score_eq r
    · exact hcore.rationale_eq r
    · exact hcore.status_eq r

end Reach

end CognitiveTree.Search
