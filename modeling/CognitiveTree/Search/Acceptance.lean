import CognitiveTree.Search.Verdict
import Mathlib.Data.List.Sort

/-!
# Accepted candidates

The verdict loop remembers the first accepted candidate of a batch, and the main loop
ends the run with it. Along every run the remembered candidate is the first accepted
node of the tree, and an accepted verdict is lost only to an exception.
-/

namespace CognitiveTree.Search

open Arena

variable {K W : Type} [PyFloat K]

section Terminals

omit [PyFloat K] in
/-- The same terminal nodes on the same links stand in the same order. -/
theorem terminals_congr {a b : Arena K} (hl : SameLinks a b)
    (h : ∀ r, (b.node r).status = .terminal ↔ (a.node r).status = .terminal) :
    b.terminals = a.terminals := by
  unfold terminals
  rw [hl.walk]
  apply List.filter_congr
  intro r _
  exact decide_eq_decide.mpr (h r)

omit [PyFloat K] in
/-- There are no terminals when no node is one. -/
theorem terminals_eq_nil {a : Arena K} :
    a.terminals = [] ↔ ∀ r, r < a.size → (a.node r).status ≠ .terminal := by
  rw [List.eq_nil_iff_forall_not_mem]
  simp only [mem_terminals, not_and]

omit [PyFloat K] in
/-- Accepted nodes of one batch are met in candidate order. -/
theorem Arena.Working.terminals_eq {maxDepth : Nat} {a : Arena K} {n : Nat}
    {batch unjudged : List Nat} (h : Working maxDepth a n batch unjudged)
    (hsub : ∀ r ∈ a.terminals, r ∈ batch) :
    a.terminals = batch.filter fun r => (a.node r).status = .terminal := by
  have hkids : a.terminals = (a.node n).children.filter fun r => (a.node r).status = .terminal :=
    walk_filter_children a h.alloc fun r hr ht =>
      h.attached r (hsub r (mem_terminals.mpr ⟨hr, of_decide_eq_true ht⟩))
  have hsorted : ((a.node n).children.filter fun r => (a.node r).status = .terminal).Pairwise
      (· < ·) := by
    rw [a.linked.children_eq]
    exact (List.pairwise_lt_range.filter _).filter _
  rw [hkids]
  refine hsorted.eq_of_mem_iff (h.sorted.filter _) fun r => ?_
  rw [← hkids, List.mem_filter, mem_terminals, decide_eq_true_eq]
  exact ⟨fun hr => ⟨hsub r (mem_terminals.mpr hr), hr.2⟩, fun hr => ⟨h.mem_alloc hr.1, hr.2⟩⟩

omit [PyFloat K] in
/-- Judging a node of the batch leaves all terminals inside the batch. -/
theorem Arena.Working.terminals_judge_subset {maxDepth : Nat} {a : Arena K} {n d : Nat}
    {batch unjudged : List Nat} (h : Working maxDepth a n batch (d :: unjudged))
    (hsub : ∀ r ∈ a.terminals, r ∈ batch) (score : K) (status : NodeStatus) (rationale : Str) :
    ∀ r ∈ (a.applyEvaluation d score status rationale).terminals, r ∈ batch := by
  intro r hr
  rw [mem_terminals, applyEvaluation_node] at hr
  obtain ⟨hrs, ht⟩ := hr
  split at ht
  · rename_i hrd
    exact hrd ▸ h.subset d (List.mem_cons_self ..)
  · exact hsub r (mem_terminals.mpr ⟨hrs, ht⟩)

omit [PyFloat K] in
/-- An accepted child comes after all accepted before it. -/
theorem Arena.Working.terminals_judge {maxDepth : Nat} {a : Arena K} {n d : Nat}
    {before rest : List Nat} (h : Working maxDepth a n (before ++ d :: rest) (d :: rest))
    (hsub : ∀ r ∈ a.terminals, r ∈ before ++ d :: rest) (score : K) (status : NodeStatus)
    (rationale : Str) : (a.applyEvaluation d score status rationale).terminals =
      a.terminals ++ if status = .terminal then [d] else [] := by
  have hpending : (d :: rest).filter (fun r => (a.node r).status = .terminal) = [] := by
    rw [List.filter_eq_nil_iff]
    intro x hx
    simp [h.pending x hx]
  have hnodup := h.nodup
  rw [List.nodup_append, List.nodup_cons] at hnodup
  obtain ⟨-, ⟨hdrest, -⟩, hdisjoint⟩ := hnodup
  rw [(h.judge score status rationale).terminals_eq
    (h.terminals_judge_subset hsub score status rationale), h.terminals_eq hsub,
    List.filter_append, List.filter_append, hpending, List.append_nil]
  have hother : ∀ x, x ≠ d → (a.applyEvaluation d score status rationale).node x = a.node x := by
    intro x hx
    rw [applyEvaluation_node, if_neg hx]
  congr 1
  · apply List.filter_congr
    intro x hx
    rw [hother x (hdisjoint x hx d (List.mem_cons_self ..))]
  · have hd : ((a.applyEvaluation d score status rationale).node d).status = status := by
      rw [applyEvaluation_node, if_pos rfl]
      rfl
    have hrest : rest.filter (fun r =>
        ((a.applyEvaluation d score status rationale).node r).status = .terminal) = [] := by
      rw [List.filter_eq_nil_iff]
      intro x hx
      rw [hother x fun he => hdrest (he ▸ hx)]
      simp [h.pending x (List.mem_cons_of_mem _ hx)]
    rw [List.filter_cons, hrest, hd]
    by_cases ht : status = .terminal <;> simp [ht]

end Terminals

/-- The solution variable of `_evaluate`, up to date with the verdicts stored. -/
def Stage.solution (config : SearchConfig K) : Stage K → Option Nat
  | .judging _ _ solution _ | .propagating _ solution _ | .settled _ solution => solution
  | .diagnosing _ c v _ solution _ | .shaping _ c v _ _ solution _ =>
    nextSolution (verdictStatus config v) c solution
  | _ => none

/-- The solution is the first accepted node of the tree, and accepted nodes are found in
the current batch only. -/
structure Chosen (config : SearchConfig K) (c : Stage K × RunState K W) : Prop where
  first : c.2.tree.arena.terminals.head? = c.1.solution config
  order : c.2.tree.arena.terminals.Pairwise (· < ·)
  within : (∀ n solution, c.1 ≠ .settled n solution) →
    ∀ r ∈ c.2.tree.arena.terminals, r ∈ c.1.batch

namespace Chosen

variable {config : SearchConfig K} {s s' : RunState K W} {st st' : Stage K}

/-- A step that accepts nothing. -/
theorem move (hc : Chosen config (st, s))
    (hterminals : s'.tree.arena.terminals = s.tree.arena.terminals)
    (hsolution : st'.solution config = st.solution config)
    (hsettled : ∀ n solution, st ≠ .settled n solution)
    (hbatch : ∀ r ∈ st.batch, r ∈ st'.batch) : Chosen config (st', s') where
  first := by
    rw [hterminals, hsolution]
    exact hc.first
  order := by
    rw [hterminals]
    exact hc.order
  within _ r hr := by
    rw [hterminals] at hr
    exact hbatch r (hc.within hsettled r hr)

/-- Outside of a batch nothing is accepted. -/
theorem terminals_nil (hc : Chosen config (st, s)) (h : st.solution config = none) :
    s.tree.arena.terminals = [] :=
  List.head?_eq_none_iff.mp (hc.first.trans h)

/-- Without terminals nothing is chosen. -/
theorem of_nil (hterminals : s.tree.arena.terminals = []) (h : st.solution config = none) :
    Chosen config (st, s) where
  first := by
    rw [hterminals, h]
    rfl
  order := by
    rw [hterminals]
    exact .nil
  within _ r hr := by
    rw [hterminals] at hr
    cases hr

end Chosen

variable {ctl : TreeSearchController K W} {rt : Runtime K W}

/-- Pruning a frontier node neither accepts a node nor drops an accepted one. -/
theorem terminals_pruned {maxDepth : Nat} {s : RunState K W} {n : Nat}
    (h : Frontier s.tree.arena n) (hs : Sound maxDepth s.tree.arena) :
    (s.pruned n).tree.arena.terminals = s.tree.arena.terminals := by
  change (s.tree.arena.pruneSubtree n).1.terminals = _
  rw [h.pruneSubtree_eq hs]
  refine terminals_congr (sameLinks_setStatus _ n .pruned) fun r => ?_
  rw [setStatus_node]
  split
  · rename_i hr
    subst hr
    have hlive := h.live
    constructor <;> intro ht
    · cases ht
    · rw [ht] at hlive
      cases hlive
  · rfl

/-- Storing a verdict on the next child of the batch updates the solution as the loop
does. -/
theorem Chosen.judge {n d : Nat} {v : Evaluation K} {todo : List (Nat × Evaluation K)}
    {solution : Option Nat} {values : List (Nat × K)} {s : RunState K W}
    (hi : Inv ctl rt (.judging n ((d, v) :: todo) solution values, s))
    (hc : Chosen ctl.config (.judging n ((d, v) :: todo) solution values, s)) :
    Chosen ctl.config (.diagnosing n d v todo solution values,
      s.judged d v (verdictStatus ctl.config v)) := by
  have hw : Working ctl.config.maxDepth s.tree.arena n
      (values.map Prod.fst ++ d :: todo.map Prod.fst) (d :: todo.map Prod.fst) := hi.working n rfl
  have hsub : ∀ r ∈ s.tree.arena.terminals, r ∈ values.map Prod.fst ++ d :: todo.map Prod.fst :=
    hc.within (by simp)
  have hsub' := hw.terminals_judge_subset hsub v.score (verdictStatus ctl.config v) v.rationale
  have hw' := hw.judge v.score (verdictStatus ctl.config v) v.rationale
  have hfirst : s.tree.arena.terminals.head? = solution := hc.first
  refine ⟨?_, ?_, fun _ => hsub'⟩
  · have hafter := hw.terminals_judge hsub v.score (verdictStatus ctl.config v) v.rationale
    change (s.tree.arena.applyEvaluation _ _ _ _).terminals.head? = nextSolution _ _ _
    rw [hafter, List.head?_append, hfirst, nextSolution]
    by_cases ht : verdictStatus ctl.config v = .terminal <;> cases solution <;> simp [ht]
  · change (s.tree.arena.applyEvaluation _ _ _ _).terminals.Pairwise _
    rw [hw'.terminals_eq hsub']
    exact hw'.sorted.filter _

/-- As long as the run goes on without an exception, every step keeps the solution up to
date. -/
theorem Step.chosen {c c' : Stage K × RunState K W} (hs : Step ctl rt c c') (hi : Inv ctl rt c)
    (hlost : ¬ Lost c') (hover : c'.1 ≠ .ended) (hc : Chosen ctl.config c) :
    Chosen ctl.config c' := by
  cases hs with
  | @advance s st st' target node detail edge h quiet =>
    have htree := (RunState.mirrored_fields ctl rt (s.transitioned rt target node detail h) target
      node detail).1
    have hterminals := congrArg (fun t : ThoughtTree K => t.arena.terminals) htree
    cases edge
    case iterated n => exact .of_nil (hterminals.trans (hc.terminals_nil rfl)) rfl
    case valued =>
      exact hc.move hterminals rfl (by simp) fun r hr => by simpa [Stage.batch] using hr
    case candidates => exact hc.move hterminals rfl (by simp) fun r hr => hr
    all_goals first
      | exact absurd rfl hover
      | exact hc.move hterminals rfl (by simp) fun r hr => absurd hr List.not_mem_nil
  | @advanceRaised s st st' target node detail e edge h raised =>
    cases edge <;> first
      | exact absurd rfl hover
      | exact absurd (Or.inl ⟨_, rfl⟩) hlost
  | refuse => exact absurd rfl hover
  | stopRaised | reviseRaised | generateRaised | collectRaised | critiqueRaised | shapeRaised =>
    exact absurd (Or.inl ⟨_, rfl⟩) hlost
  | pollCancel | pollDeadline | revise =>
    split <;> exact hc.move rfl rfl (by simp) fun r hr => absurd hr List.not_mem_nil
  | cap alloc live leaf _ =>
    exact hc.move (terminals_pruned (Inv.frontier_of_leaf alloc live leaf) hi.sound) rfl (by simp)
      fun r hr => hr
  | collapse | retreat =>
    exact hc.move (terminals_pruned (hi.working _ rfl).frontier hi.sound) rfl (by simp)
      fun r hr => hr
  | @attach s n content rest seen batch c tree _ _ added =>
    have halloc := (hi.working n rfl).alloc
    rw [ThoughtTree.addChild, if_pos (hi.indexed n halloc)] at added
    cases added
    refine .of_nil (terminals_eq_nil.mpr fun r hr ht => ?_) rfl
    change r < (s.tree.arena.attachChild n (Str.strip content)).size at hr
    change ((s.tree.arena.attachChild n (Str.strip content)).node r).status = _ at ht
    rw [attachChild_size _ halloc] at hr
    by_cases hne : r = s.tree.arena.size
    · rw [hne, attachChild_new _ halloc] at ht
      cases ht
    · rw [attachChild_old _ halloc hne] at ht
      exact terminals_eq_nil.mp (hc.terminals_nil rfl) r
        (Nat.lt_of_le_of_ne (Nat.lt_succ_iff.mp hr) hne) ht
  | collected order _ =>
    refine hc.move rfl rfl (by simp) fun r hr => ?_
    rw [← order] at hr
    exact hr
  | judge => exact hc.judge hi
  | unshaped | shape =>
    exact hc.move rfl rfl (by simp) fun r hr => by simpa [Stage.batch] using hr
  | @credit s n solution values =>
    have hcore := sameCore_backpropagate s.tree.arena values
    have hterminals : (backpropagateArena s.tree.arena values).terminals =
        s.tree.arena.terminals :=
      terminals_congr hcore.toSameLinks fun r => by rw [hcore.status_eq]
    exact ⟨(congrArg List.head? hterminals).trans hc.first, hterminals ▸ hc.order,
      fun hsettled => absurd rfl (hsettled n solution)⟩
  | _ => exact hc.move rfl rfl (by simp) fun r hr => hr

/-- The transitions into `SUCCEEDED` in a log: the node and the note of each. -/
def successesIn (log : List (Obs K)) : List (Option Nat × Str) :=
  log.filterMap fun
    | .transition record _ node _ =>
      if record.target = .succeeded then some (node, record.note) else none
    | _ => none

/-- The note of an accepted candidate. -/
def acceptedNote (score : K) : Str := lit "accepted with score " ++ PyFloat.fixed3 score

/-- How the run ended, as far as accepted candidates are concerned. -/
structure Decided (c : Stage K × RunState K W) : Prop where
  order : c.2.tree.arena.terminals.Pairwise (· < ·)
  none : c.2.machine.phase ≠ .succeeded → c.2.tree.arena.terminals = []
  one : c.2.machine.phase = .succeeded → ∃ d, c.2.tree.arena.terminals.head? = some d ∧
    successesIn c.2.log = [(some d, acceptedNote (c.2.tree.arena.node d).score)]

section Transition

variable {s : RunState K W} {target : SearchPhase} {node : Option Nat} {detail : Str}

/-- A transition is a success when it enters `SUCCEEDED`. -/
theorem successesIn_transitioned (h : s.machine.canTransition target = true) :
    successesIn ((s.transitioned rt target node detail h).mirrored ctl rt target node detail).1.log =
      (if target = .succeeded then [(node, detail)] else []) ++ successesIn s.log := by
  have hentry : successesIn (s.transitioned rt target node detail h).log =
      (if target = .succeeded then [(node, detail)] else []) ++ successesIn s.log := by
    change List.filterMap _ (_ :: _) = _
    by_cases ht : target = .succeeded <;> simp [ht, successesIn]
  rw [RunState.mirrored_log, ← hentry]
  cases ((s.transitioned rt target node detail h).mirrored ctl rt target node detail).2 <;> rfl

/-- The transition that ends the run settles what was accepted. -/
theorem Edge.decided {s' : RunState K W} {st st' : Stage K}
    (edge : Edge ctl s st target node detail .ended) (hi : Inv ctl rt (st, s))
    (hc : st ≠ .ended → ¬ Lost (st, s) → Chosen ctl.config (st, s)) (htree : s'.tree = s.tree)
    (hphase : s'.machine.phase = target) (hfailed : target ≠ .failed)
    (hlog : successesIn s'.log = if target = .succeeded then [(node, detail)] else []) :
    Decided (st', s') := by
  have hchosen : (∀ e, st ≠ .faulted e) → st ≠ .ended → Chosen ctl.config (st, s) :=
    fun hfault hover => hc hover (not_lost hi hfault hover)
  have hnil : ∀ h : Chosen ctl.config (st, s), st.solution ctl.config = none →
      target ≠ .succeeded → Decided (st', s') := by
    intro h hnone hne
    have hterminals : s'.tree.arena.terminals = [] := by
      rw [htree]
      exact h.terminals_nil hnone
    exact ⟨by rw [hterminals]; exact .nil, fun _ => hterminals, fun he => absurd (hphase ▸ he) hne⟩
  cases edge
  case failed => exact absurd rfl hfailed
  case halt =>
    refine hnil (hchosen (by simp) (by simp)) rfl ?_
    have hm := hi.phase.2
    rintro rfl
    revert hm
    decide
  case spent => exact hnil (hchosen (by simp) (by simp)) rfl (by decide)
  case frontierEmpty => exact hnil (hchosen (by simp) (by simp)) rfl (by decide)
  case accepted n c =>
    have h := hchosen (by simp) (by simp)
    refine ⟨?_, fun hne => absurd hphase hne, fun _ => ⟨c, ?_, ?_⟩⟩
    · rw [htree]
      exact h.order
    · rw [htree]
      exact h.first
    · rw [hlog, htree]
      rfl

end Transition

/-- The run is not over before a step that does not end it. -/
theorem Step.ne_ended {c c' : Stage K × RunState K W} (hs : Step ctl rt c c')
    (h : c'.1 ≠ .ended) : c.1 ≠ .ended := by
  intro he
  cases hs
  case refuse => exact h rfl
  case advance edge _ _ => cases he; cases edge
  case advanceRaised edge _ _ => cases he; cases edge
  all_goals cases he

/-- What a run knows about accepted candidates. -/
structure Accounts (config : SearchConfig K) (c : Stage K × RunState K W) : Prop where
  chosen : c.1 ≠ .ended → ¬ Lost c → Chosen config c
  decided : c.1 = .ended → c.2.machine.phase ≠ .failed → Decided c
  none : c.2.machine.phase ≠ .succeeded → successesIn c.2.log = []

namespace Reach

variable {task : Str} {draws : Nat} {c : Stage K × RunState K W}

/-- The accounts are right in every reachable state. -/
theorem accounts (h : Reach ctl rt task draws c) : Accounts ctl.config c := by
  refine h.strengthen (P := Accounts ctl.config) (fun world => ⟨fun _ _ => ?_, ?_, fun _ => rfl⟩)
    fun c c' hr hc hs => ?_
  · refine .of_nil (terminals_eq_nil.mpr fun r _ ht => ?_) rfl
    cases ht
  · intro he
    cases he
  have hi := hr.inv
  have hchosen : c'.1 ≠ .ended → ¬ Lost c' → Chosen ctl.config c' := fun hover hlost =>
    hs.chosen hi hlost hover (hc.chosen (hs.ne_ended hover) (hs.batch_kept hi hlost).1)
  -- a transition, whether or not the sink then raised
  have hadvanced : ∀ {s st st' st'' target node detail}, c = (st, s) →
      Edge ctl s st target node detail st' → (h : s.machine.canTransition target = true) →
      c' = (st'', ((s.transitioned rt target node detail h).mirrored ctl rt target node detail).1) →
      (st'' = .ended → st' = .ended) → Accounts ctl.config c' := by
    intro s st st' st'' target node detail hcs edge h hcs' hover
    subst hcs hcs'
    have hm := RunState.mirrored_fields ctl rt (s.transitioned rt target node detail h) target
      node detail
    have hopen : s.machine.phase ≠ .succeeded := fun hphase => by
      rw [SearchStateMachine.canTransition, hphase] at h
      cases h
    have hphase : ((s.transitioned rt target node detail h).mirrored ctl rt target node
      detail).1.machine.phase = target := by
      rw [hm.2.1]
      rfl
    have hlog : successesIn ((s.transitioned rt target node detail h).mirrored ctl rt target node
        detail).1.log = _ := successesIn_transitioned h
    rw [hc.none hopen, List.append_nil] at hlog
    refine ⟨hchosen, fun he hfailed => ?_, fun hne => ?_⟩
    · have he' := hover he
      subst he'
      exact edge.decided hi hc.chosen hm.1 hphase (hphase ▸ hfailed) hlog
    · rw [hlog, if_neg (hphase ▸ hne)]
  cases hs with
  | @advance s st st' target node detail edge h quiet => exact hadvanced rfl edge h rfl id
  | @advanceRaised s st st' target node detail e edge h raised =>
    refine hadvanced rfl edge h rfl fun he => ?_
    cases st'
    case ended => rfl
    all_goals cases he
  | @refuse s e source target sink =>
    refine ⟨hchosen, fun he hfailed => ?_, hc.none⟩
    have hd := hc.decided rfl hfailed
    exact ⟨hd.order, hd.none, hd.one⟩
  | pollCancel | pollDeadline | revise =>
    refine ⟨hchosen, fun he => ?_, hc.none⟩
    split at he <;> cases he
  | _ => exact ⟨hchosen, (fun he => by cases he), hc.none⟩

end Reach

section Accepting

/-- Some verdict of the run was accepted. -/
def Accepts (config : SearchConfig K) (log : List (Obs K)) : Prop :=
  ∃ c v, (c, .ok v) ∈ evaluationsIn log ∧ v.isTerminal = true ∧
    PyFloat.le config.acceptThreshold v.score = true

/-- An accepted verdict is still to be stored, or there is a solution. -/
def Stage.accepting (config : SearchConfig K) (st : Stage K) : Prop :=
  (∃ c v, (c, .ok v) ∈ st.verdicts ∧ verdictStatus config v = .terminal) ∨
    st.solution config ≠ none

/-- Without verdicts nothing is accepted. -/
theorem Stage.not_accepting {config : SearchConfig K} {st : Stage K} (hv : st.verdicts = [])
    (hs : st.solution config = none) : ¬ st.accepting config := by
  rintro (⟨c, v, hm, -⟩ | hne)
  · rw [hv] at hm
    cases hm
  · exact hne hs

/-- There is a solution once a terminal node was judged. -/
theorem nextSolution_ne_none {status : NodeStatus} {c : Nat} {solution : Option Nat} :
    nextSolution status c solution ≠ none ↔ status = .terminal ∨ solution ≠ none := by
  unfold nextSolution
  cases solution <;> by_cases h : status = .terminal <;> simp [h]

/-- The evaluator has answered for candidates of the batch only. -/
theorem Reach.results_batch {task : Str} {draws : Nat} {c : Stage K × RunState K W}
    (h : Reach ctl rt task draws c) {n : Nat} {batch : List Nat}
    {results : List (Nat × Except Exc (Evaluation K))} (hst : c.1 = .collecting n batch results) :
    ∀ p ∈ results, p.1 ∈ batch := by
  revert n batch results
  refine h.invariant (P := fun c => ∀ {n batch results}, c.1 = .collecting n batch results →
    ∀ p ∈ results, p.1 ∈ batch) (fun world => ?_) fun c c' hc hs => ?_
  · intro n batch results hst
    cases hst
  · intro n batch results hst
    cases hs with
    | advance edge =>
      cases edge <;> cases hst
      exact fun p hp => absurd hp List.not_mem_nil
    | @advanceRaised s st st' target node detail e edge => cases st' <;> cases hst
    | pollCancel | pollDeadline | revise => split at hst <;> cases hst
    | evaluate pending =>
      cases hst
      intro p hp
      rcases List.mem_append.mp hp with hp | hp
      · exact hc rfl p hp
      · rw [List.mem_singleton.mp hp]
        exact pending
    | _ => cases hst

/-- An accepted verdict is not forgotten before the run succeeds or fails. -/
theorem Step.accepting_kept {task : Str} {draws : Nat} {c c' : Stage K × RunState K W}
    (hs : Step ctl rt c c') (hr : Reach ctl rt task draws c) (hlost : ¬ Lost c')
    (h : c.1.accepting ctl.config) :
    c'.1.accepting ctl.config ∨ c'.2.machine.phase = .succeeded := by
  cases hs with
  | @advance s st st' target node detail edge h' quiet =>
    have hphase : ((s.transitioned rt target node detail h').mirrored ctl rt target node
        detail).1.machine.phase = target := by
      rw [(RunState.mirrored_fields ctl rt (s.transitioned rt target node detail h') target node
        detail).2.1]
      rfl
    cases edge
    case valued =>
      rcases h with ⟨_, _, hm, -⟩ | hne
      · cases hm
      · exact Or.inl (Or.inr hne)
    case accepted => exact Or.inr hphase
    all_goals exact absurd h (Stage.not_accepting rfl rfl)
  | @advanceRaised s st st' target node detail e edge h' raised =>
    have hphase : ((s.transitioned rt target node detail h').mirrored ctl rt target node
        detail).1.machine.phase = target := by
      rw [(RunState.mirrored_fields ctl rt (s.transitioned rt target node detail h') target node
        detail).2.1]
      rfl
    cases edge
    case accepted => exact Or.inr hphase
    all_goals first
      | exact absurd (Or.inl ⟨_, rfl⟩) hlost
      | exact absurd h (Stage.not_accepting rfl rfl)
  | stopRaised | reviseRaised | generateRaised | collectRaised | critiqueRaised | shapeRaised =>
    exact absurd (Or.inl ⟨_, rfl⟩) hlost
  | evaluate =>
    rcases h with ⟨d, v, hm, hv⟩ | hne
    · exact Or.inl (Or.inl ⟨d, v, List.mem_append_left _ hm, hv⟩)
    · exact absurd rfl hne
  | @collected s n batch results verdicts order answers =>
    rcases h with ⟨d, v, hm, hv⟩ | hne
    · -- the answer kept for `d` is the one that was accepted
      have hd : d ∈ verdicts.map Prod.fst := by
        rw [order]
        exact hr.results_batch rfl _ hm
      obtain ⟨⟨d', w⟩, hw, rfl⟩ := List.mem_map.mp hd
      have hledger := hr.verdictLedger
      have he := List.inj_on_of_nodup_map hledger.once (hledger.known _ hm)
        (hledger.known _ (answers _ hw)) rfl
      cases he
      exact Or.inl (Or.inl ⟨d', w, List.mem_map.mpr ⟨_, hw, rfl⟩, hv⟩)
    · exact absurd rfl hne
  | judge => exact Or.inl (h.imp_right fun hne => nextSolution_ne_none.mpr (Or.inr hne))
  | unexamined | uncritiqued | critiqued => exact Or.inl h
  | unshaped | shape =>
    refine Or.inl (h.elim ?_ Or.inr)
    rintro ⟨d, w, hm, hw⟩
    rcases List.mem_cons.mp hm with he | hm
    · cases he
      exact Or.inr (nextSolution_ne_none.mpr (Or.inl hw))
    · exact Or.inl ⟨d, w, hm, hw⟩
  | credit =>
    rcases h with ⟨_, _, hm, -⟩ | hne
    · cases hm
    · exact Or.inl (Or.inr hne)
  | _ => exact absurd h (Stage.not_accepting rfl rfl)

/-- A run that has succeeded stays that way. -/
theorem Step.succeeded_kept {c c' : Stage K × RunState K W} (hs : Step ctl rt c c')
    (hi : Inv ctl rt c) (h : c.2.machine.phase = .succeeded) :
    c'.2.machine.phase = .succeeded := by
  have hended : c.1 = .ended := by
    by_contra hne
    have hopen := Stage.agrees_nonterminal hi.phase hne
    rw [h] at hopen
    cases hopen
  cases hs
  case refuse => exact h
  case advance edge _ _ => cases hended; cases edge
  case advanceRaised edge _ _ => cases hended; cases edge
  all_goals cases hended

namespace Reach

variable {task : Str} {draws : Nat} {c : Stage K × RunState K W}

/-- Unless an exception interfered, an accepted verdict is on its way to success. -/
theorem accepting_of_accepts (h : Reach ctl rt task draws c) (hlost : ¬ Lost c)
    (ha : Accepts ctl.config c.2.log) :
    c.1.accepting ctl.config ∨ c.2.machine.phase = .succeeded := by
  revert hlost ha
  refine h.strengthen (P := fun c => ¬ Lost c → Accepts ctl.config c.2.log →
    c.1.accepting ctl.config ∨ c.2.machine.phase = .succeeded) (fun world _ ha => ?_)
    fun c c' hr hc hs hlost ha => ?_
  · obtain ⟨d, v, hm, -⟩ := ha
    cases hm
  · have hi := hr.inv
    have hold : Accepts ctl.config c.2.log →
        c'.1.accepting ctl.config ∨ c'.2.machine.phase = .succeeded := fun ha =>
      (hc (hs.batch_kept hi hlost).1 ha).elim (hs.accepting_kept hr hlost) fun hp =>
        Or.inr (hs.succeeded_kept hi hp)
    obtain ⟨d, v, hm, hv⟩ := ha
    rcases hs.evaluation_cases hi with ⟨hlog, -⟩ | ⟨n, batch, results, x, answer, -, hst', -, -, -, -, hlog⟩
    · rw [hlog] at hm
      exact hold ⟨d, v, hm, hv⟩
    · rw [hlog] at hm
      rcases List.mem_cons.mp hm with he | hm
      · cases he
        refine Or.inl (Or.inl ⟨d, v, ?_, verdictStatus_eq_terminal.mpr hv⟩)
        rw [hst']
        exact List.mem_append_right _ (List.mem_singleton.mpr rfl)
      · exact hold ⟨d, v, hm, hv⟩

/-- An accepted node has its accepted verdict in the log. -/
theorem verdict_of_terminal (h : Reach ctl rt task draws c) {r : Nat}
    (hr : r ∈ c.2.tree.arena.terminals) : ∃ v, (r, .ok v) ∈ evaluationsIn c.2.log ∧
      verdictStatus ctl.config v = .terminal ∧ (c.2.tree.arena.node r).score = v.score := by
  obtain ⟨hrs, ht⟩ := mem_terminals.mp hr
  have h0 : 0 < r := by
    rcases Nat.eq_zero_or_pos r with rfl | h0
    · rcases h.judged.root with hroot | hroot <;>
        · rw [hroot] at ht
          cases ht
    · exact h0
  obtain ⟨v, hv, hj⟩ := h.judged.verdict r h0 hrs (by simp [ht])
  refine ⟨v, hv, ?_, hj.score⟩
  rcases hj.status with hs | ⟨-, hs⟩
  · exact hs.symm.trans ht
  · rw [ht] at hs
    cases hs

end Reach

section Raised

/-- The log only grows. -/
theorem Step.log_mono {c c' : Stage K × RunState K W} (hs : Step ctl rt c c') (hi : Inv ctl rt c)
    {o : Obs K} (ho : o ∈ c.2.log) : o ∈ c'.2.log := by
  rcases hs.logged hi with he | ⟨x, he, -⟩ | ⟨e, x, he, -⟩ <;> rw [he]
  · exact ho
  · exact List.mem_cons_of_mem _ ho
  · exact List.mem_cons_of_mem _ (List.mem_cons_of_mem _ ho)

/-- The evaluations are those of the log. -/
theorem mem_evaluationsIn {log : List (Obs K)} {d : Nat} {answer : Except Exc (Evaluation K)} :
    (d, answer) ∈ evaluationsIn log ↔ .evaluate d answer ∈ log := by
  unfold evaluationsIn
  rw [List.mem_filterMap]
  constructor
  · rintro ⟨o, ho, he⟩
    cases o <;> cases he
    exact ho
  · exact fun ho => ⟨_, ho, rfl⟩

/-- A batch is lost only to an exception in the log. -/
theorem Step.raised_of_lost {c c' : Stage K × RunState K W} (hs : Step ctl rt c c')
    (hi : Inv ctl rt c) (hledger : VerdictLedger c) (hlost : Lost c') :
    Lost c ∨ ∃ o ∈ c'.2.log, o.raised = true := by
  cases hs with
  | @advance s st st' target node detail edge h quiet =>
    have hm := RunState.mirrored_fields ctl rt (s.transitioned rt target node detail h) target
      node detail
    rcases hlost with ⟨e, he⟩ | hphase
    · cases he
      cases edge
    · rw [hm.2.1] at hphase
      have hphase : target = .failed := hphase
      subst hphase
      cases edge
      case failed e => exact Or.inl (Or.inl ⟨e, rfl⟩)
      case halt => exact absurd hi.phase.2 (by decide)
  | @advanceRaised s st st' target node detail e edge h raised =>
    refine Or.inr ⟨.sinkRaised e, ?_, rfl⟩
    rw [RunState.mirrored_log, raised]
    exact List.mem_cons_self ..
  | stopRaised condition answer =>
    exact Or.inr ⟨_, List.mem_cons_self .., by rw [answer]; rfl⟩
  | reviseRaised alloc live saturated hpolicy hreply answer =>
    exact Or.inr ⟨_, List.mem_cons_self .., by rw [answer]; rfl⟩
  | generateRaised hreply answer =>
    exact Or.inr ⟨_, List.mem_cons_self .., by rw [answer]; rfl⟩
  | critiqueRaised hcritic hreply answer =>
    exact Or.inr ⟨_, List.mem_cons_self .., by rw [answer]; rfl⟩
  | shapeRaised hmodel hreply answer =>
    exact Or.inr ⟨_, List.mem_cons_self .., by rw [answer]; rfl⟩
  | @collectRaised s n d batch before after results e order earlier failure =>
    exact Or.inr ⟨_, mem_evaluationsIn.mp (hledger.known _ failure), rfl⟩
  | pollCancel | pollDeadline | revise =>
    rcases hlost with ⟨e, he⟩ | hphase
    · split at he <;> cases he
    · exact Or.inl (Or.inr hphase)
  | _ =>
    rcases hlost with ⟨e, he⟩ | hphase
    · cases he
    · exact Or.inl (Or.inr hphase)

/-- A batch is lost only to an exception, which the log shows. -/
theorem Reach.raised_of_lost {task : Str} {draws : Nat} {c : Stage K × RunState K W}
    (h : Reach ctl rt task draws c) (hlost : Lost c) : ∃ o ∈ c.2.log, o.raised = true := by
  revert hlost
  refine h.strengthen (P := fun c => Lost c → ∃ o ∈ c.2.log, o.raised = true)
    (fun world hlost => ?_) fun c c' hr hc hs hlost => ?_
  · rcases hlost with ⟨e, he⟩ | hphase
    · cases he
    · cases hphase
  · rcases hs.raised_of_lost hr.inv hr.verdictLedger hlost with hlost | hraised
    · obtain ⟨o, ho, hraised⟩ := hc hlost
      exact ⟨o, hs.log_mono hr.inv ho, hraised⟩
    · exact hraised

end Raised

end Accepting

end CognitiveTree.Search
