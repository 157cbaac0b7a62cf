import CognitiveTree.Search.Invariant

/-!
# The controller's methods follow the transition system

Every method, run from a control point of the transition system, ends at the
control point that its return value names, or raises at one from which the handler
of `run` takes over. In particular no loop runs out of fuel.
-/

namespace CognitiveTree.Search

open Arena

variable {K W α : Type} [PyFloat K]

/-- A family of states that steps within one iteration cannot leave. -/
structure Follows (ctl : TreeSearchController K W) (rt : Runtime K W)
    (G : Stage K → RunState K W → Prop) : Prop where
  inv : ∀ {st s}, G st s → Inv ctl rt (st, s)
  step : ∀ {st s st' s'}, G st s → Step ctl rt (st, s) (st', s') →
    s'.iteration = s.iteration → G st' s'

/-- Where a method may raise: on the way to the handler, or, because of the event
sink, in a run that is already over. -/
def Fault (G : Stage K → RunState K W → Prop) : Signal → RunState K W → Prop
  | .raised e, s => G (.faulted e) s ∨ (G .ended s ∧ ∃ e', s.log.head? = some (.sinkRaised e'))
  | .diverged, _ => False

/-- What selection returns: a node to expand, or nothing when the root is dead. -/
def Selected (G : Stage K → RunState K W → Prop) : Option (Nat × Bool) → RunState K W → Prop
  | none, s => G .selecting s ∧ (s.tree.arena.node 0).isLive = false
  | some (n, revived), s => G (.opened n revived) s

/-- A policy call, split by its answer. -/
theorem consult_spec {P : RunState K W → Prop} {Q : α → RunState K W → Prop}
    {E : Signal → RunState K W → Prop} {call : Call K W α} {o : Except Exc α → Obs K}
    (returned : ∀ s a, P s → (call s.tree.arena s.metadata s.world).answer = .ok a →
      Q a (s.consulted (call s.tree.arena s.metadata s.world)
        (o (call s.tree.arena s.metadata s.world).answer)))
    (raised : ∀ s e, P s → (call s.tree.arena s.metadata s.world).answer = .error e →
      E (.raised e) (s.consulted (call s.tree.arena s.metadata s.world)
        (o (call s.tree.arena s.metadata s.world).answer))) :
    Triple P (consult call o) Q E := by
  intro s hs
  have hrun : consult call o s = answered (call s.tree.arena s.metadata s.world).answer
    (s.consulted (call s.tree.arena s.metadata s.world)
      (o (call s.tree.arena s.metadata s.world).answer)) := rfl
  rw [hrun]
  cases ha : (call s.tree.arena s.metadata s.world).answer with
  | ok a =>
    have h := returned s a hs ha
    rw [ha] at h
    exact h
  | error e =>
    have h := raised s e hs ha
    rw [ha] at h
    exact h

section Measure

/-- How many nodes are still live. -/
def Arena.liveCount (a : Arena K) : Nat :=
  ((List.range a.size).filter fun r => (a.node r).isLive).length

omit [PyFloat K] in
theorem Arena.liveCount_le (a : Arena K) : a.liveCount ≤ a.size := by
  have h := List.length_filter_le (fun r => (a.node r).isLive) (List.range a.size)
  rwa [List.length_range] at h

omit [PyFloat K] in
/-- Pruning a frontier node uses up one live node. -/
theorem Arena.Frontier.liveCount_prune {maxDepth : Nat} {a : Arena K} {n : Nat}
    (h : Frontier a n) (hs : Sound maxDepth a) :
    (a.pruneSubtree n).1.liveCount < a.liveCount := by
  rw [h.pruneSubtree_eq hs]
  have hsub : (List.range a.size).filter (fun r => ((a.setStatus n .pruned).node r).isLive) ⊆
      ((List.range a.size).filter fun r => (a.node r).isLive).erase n := by
    intro r hr
    rw [List.mem_filter] at hr
    have hne : r ≠ n := by
      rintro rfl
      rw [setStatus_node, if_pos rfl] at hr
      cases hr.2
    rw [List.mem_erase_of_ne hne, List.mem_filter]
    rw [setStatus_node, if_neg hne] at hr
    exact hr
  have hle := (List.nodup_range.filter _).length_le_of_subset hsub
  have hn : n ∈ (List.range a.size).filter fun r => (a.node r).isLive :=
    List.mem_filter.mpr ⟨List.mem_range.mpr h.alloc, h.live⟩
  rw [List.length_erase_of_mem hn] at hle
  have hpos := List.length_pos_of_mem hn
  change ((List.range a.size).filter fun r =>
    ((a.setStatus n .pruned).node r).isLive).length < a.liveCount
  unfold liveCount
  omega

end Measure

section Advance

variable (ctl : TreeSearchController K W) (rt : Runtime K W) {s : RunState K W}
  {target : SearchPhase} (node : Option Nat) (detail : Str)

/-- A legal `_advance` records the transition and returns or raises as the sink does. -/
theorem advance_run (h : s.machine.canTransition target = true) :
    advance ctl rt target node detail s =
      match ((s.transitioned rt target node detail h).mirrored ctl rt target node detail).2 with
      | none =>
        .ok ⟨⟩ ((s.transitioned rt target node detail h).mirrored ctl rt target node detail).1
      | some e => .error (.raised e)
        ((s.transitioned rt target node detail h).mirrored ctl rt target node detail).1 := by
  have ht : transition rt target node detail s =
      .ok ⟨⟩ (s.transitioned rt target node detail h) := by
    change (if h : s.machine.canTransition target = true then _ else _ : Run K W PUnit) s = _
    rw [dif_pos h]
    rfl
  rw [advance, bind_of_ok ht]
  change (match ((s.transitioned rt target node detail h).mirrored ctl rt target node detail).2
    with
    | none => pure ()
    | some e => raise e : Run K W PUnit) _ = _
  cases ((s.transitioned rt target node detail h).mirrored ctl rt target node detail).2 <;> rfl

/-- An illegal `_advance` leaves its trace and raises. -/
theorem advance_refused (h : s.machine.canTransition target = false) :
    advance ctl rt target node detail s =
      .error (.raised (invalidTransition s.machine.phase target))
        (s.noted (.refused s.machine.phase target)) := by
  have ht : transition rt target node detail s =
      .error (.raised (invalidTransition s.machine.phase target))
        (s.noted (.refused s.machine.phase target)) := by
    change (if h : s.machine.canTransition target = true then _ else _ : Run K W PUnit) s = _
    rw [dif_neg (by simp [h])]
    rfl
  change EStateM.bind (transition rt target node detail) _ s = _
  unfold EStateM.bind
  rw [ht]

end Advance

namespace Follows

variable {ctl : TreeSearchController K W} {rt : Runtime K W}
  {G : Stage K → RunState K W → Prop} (hG : Follows ctl rt G)

include hG

/-- `_advance` from a control point makes the edge it was called for; it raises only
what the event sink raised. -/
theorem advance_or_sink {p q : Stage K} {target : SearchPhase} {node : Option Nat}
    {detail : Str} :
    Triple (fun s => G p s ∧ Edge ctl s p target node detail q)
      (advance ctl rt target node detail)
      (fun _ s => G q s ∧ s.machine.phase = target)
      (fun sig s => ∃ e, sig = .raised e ∧ G (q.afterFault e) s ∧
        s.log.head? = some (.sinkRaised e)) := by
  rintro s ⟨hs, edge⟩
  have hcan : s.machine.canTransition target = true :=
    decide_eq_true (edge.legal (hG.inv hs).phase).1
  have hm := RunState.mirrored_fields ctl rt (s.transitioned rt target node detail hcan)
    target node detail
  have hlog := RunState.mirrored_log ctl rt (s.transitioned rt target node detail hcan)
    target node detail
  have hstep := fun quiet => hG.step hs (.advance edge hcan quiet) hm.2.2.2.1
  have hraise := fun e raised => hG.step hs (.advanceRaised (e := e) edge hcan raised) hm.2.2.2.1
  rw [advance_run ctl rt node detail hcan]
  cases hreact : ((s.transitioned rt target node detail hcan).mirrored ctl rt target node
    detail).2 with
  | none =>
    refine ⟨hstep hreact, ?_⟩
    rw [hm.2.1]
    rfl
  | some e =>
    refine ⟨e, rfl, hraise e hreact, ?_⟩
    rw [hlog, hreact]
    rfl

theorem advance {p q : Stage K} {target : SearchPhase} {node : Option Nat} {detail : Str} :
    Triple (fun s => G p s ∧ Edge ctl s p target node detail q)
      (advance ctl rt target node detail)
      (fun _ s => G q s ∧ s.machine.phase = target) (Fault G) := by
  refine hG.advance_or_sink.conseq (fun _ h => h) (fun _ _ h => h) ?_
  rintro _ s ⟨e, rfl, hs, hsink⟩
  cases q with
  | ended => exact Or.inr ⟨hs, e, hsink⟩
  | _ => exact Or.inl hs

/-- The notifications of a revision lead back to the opened node. -/
theorem reopen (n : Nat) (revived : Bool) :
    Triple (G (.opened n revived)) (reopen ctl rt n revived)
      (fun _ => G (.opened n false)) (Fault G) := by
  cases revived with
  | false => exact Triple.pure _ fun _ hs => hs
  | true =>
    refine Triple.bind (hG.advance.pre fun s hs => ⟨hs, .reopen n⟩) fun _ => ?_
    exact (hG.advance.pre fun s hs => ⟨hs.1, .prepared n⟩).post fun _ _ hs => hs.1

omit hG in
/-- The keys of children with parents are computed without exception. -/
theorem childKeys_run (live : List Nat) (s : RunState K W)
    (h : ∀ c ∈ live, ∃ p, (s.tree.arena.node c).parent = some p) :
    ∃ keys, childKeys ctl rt live s = .ok keys { s with draws := s.draws + live.length } ∧
      keys.map Prod.fst = live := by
  induction live generalizing s with
  | nil => exact ⟨[], rfl, rfl⟩
  | cons c cs ih =>
    obtain ⟨p, hp⟩ := h c (List.mem_cons_self ..)
    have hkey : ∃ key, childKey ctl rt c s = .ok key { s with draws := s.draws + 1 } := by
      refine ⟨((s.tree.arena.node c).uctScore (s.tree.arena.node p).visits
        ctl.config.explorationWeight, rt.random ctl.config.seed s.draws), ?_⟩
      rw [childKey, get_bind_run]
      simp only [hp]
      rfl
    obtain ⟨key, hkey⟩ := hkey
    obtain ⟨keys, hkeys, hmap⟩ := ih { s with draws := s.draws + 1 }
      fun d hd => h d (List.mem_cons_of_mem _ hd)
    refine ⟨(c, key) :: keys, ?_, by rw [List.map_cons, hmap]⟩
    rw [childKeys, bind_of_ok hkey, bind_of_ok hkeys, List.length_cons]
    change EStateM.Result.ok _ _ = _
    congr 2
    change s.draws + 1 + cs.length = s.draws + (cs.length + 1)
    omega

/-- `max` over live children picks one of them and touches nothing else. -/
theorem pickChild (live : List Nat) (a : Arena K) :
    Triple (fun s => G .selecting s ∧ s.tree.arena = a ∧ live ≠ [] ∧
        ∀ c ∈ live, ∃ p, (a.node c).parent = some p)
      (pickChild ctl rt live)
      (fun c s => G .selecting s ∧ s.tree.arena = a ∧ c ∈ live) (Fault G) := by
  refine Triple.get_bind ?_
  rintro s ⟨hs, rfl, hne, hparent⟩
  obtain ⟨keys, hrun, hkeys⟩ := @childKeys_run K W _ ctl rt live s hparent
  refine Triple.of_ok hrun ?_
  have hkne : keys ≠ [] := fun he => hne (by rw [← hkeys, he]; rfl)
  obtain ⟨c, hc⟩ : ∃ c, maxByKey PyFloat.pairGt keys = some c := maxByKey_isSome hkne
  refine Triple.bind (Triple.modify _ (Q := fun _ s' => G .selecting s' ∧
    s'.tree.arena = s.tree.arena) ?_) fun _ => ?_
  · rintro _ rfl
    exact ⟨hG.step hs (.pick live (keys.map fun k => k.2.1)) rfl, rfl⟩
  · rw [hc]
    have hmem := hkeys ▸ maxByKey_mem hc
    exact Triple.pure _ fun s' hs' => ⟨hs'.1, hs'.2, hmem⟩

/-- One descent ends at a node to expand or prunes one and asks for a restart. -/
theorem descend (fuel n : Nat) (a : Arena K) :
    Triple (fun s => G .selecting s ∧ s.tree.arena = a ∧ n < a.size ∧
        (a.node n).isLive = true ∧ a.size ≤ n + fuel)
      (descend ctl rt fuel n)
      (fun d s => match d with
        | .restart => G .selecting s ∧ s.tree.arena.liveCount < a.liveCount
        | .found m revived => G (.opened m revived) s) (Fault G) := by
  induction fuel generalizing n with
  | zero =>
    rintro s ⟨-, -, hn, -, hfuel⟩
    omega
  | succ fuel ih =>
    refine Triple.get_bind ?_
    rintro s ⟨hs, rfl, hn, hlive, hfuel⟩
    have hsound := (hG.inv hs).sound
    refine Triple.ite (fun hleaf => Triple.ite (fun hshallow => ?_) fun hdeep => ?_) fun hkids =>
      Triple.ite (fun hsat => ?_) fun hopen => ?_
    · refine Triple.pure _ ?_
      rintro _ rfl
      exact hG.step hs (.found hn hlive hleaf hshallow) rfl
    · -- a leaf at the depth cap
      refine Triple.bind (Triple.modify _ (Q := fun _ s' => G .selecting s' ∧
        s'.tree.arena.liveCount < s.tree.arena.liveCount) ?_) fun _ => Triple.pure _ fun _ h => h
      rintro _ rfl
      exact ⟨hG.step hs (.cap hn hlive hleaf (by omega)) rfl,
        (Inv.frontier_of_leaf hn hlive hleaf).liveCount_prune hsound⟩
    · -- a saturated node, offered to the revision policy
      have hfront := Inv.frontier_of_saturated hn hlive hsat
      refine Triple.bind (Q := fun granted s' => s'.tree = s.tree ∧
        G (if granted = true then .opened n true else .refused n) s') ?_ fun granted => ?_
      · unfold revise
        cases hp : ctl.revisionPolicy with
        | none =>
          refine Triple.pure _ ?_
          rintro _ rfl
          exact ⟨rfl, hG.step hs (.unrevised hn hlive ⟨hkids, hsat⟩ hp) rfl⟩
        | some policy =>
          refine consult_spec ?_ ?_
          · rintro _ granted rfl ha
            exact ⟨rfl, hG.step hs (.revise hn hlive ⟨hkids, hsat⟩ hp rfl ha) rfl⟩
          · rintro _ e rfl ha
            exact Or.inl (hG.step hs (.reviseRaised hn hlive ⟨hkids, hsat⟩ hp rfl ha) rfl)
      · cases granted with
        | true => exact Triple.pure _ fun _ h => h.2
        | false =>
          refine Triple.bind (Triple.modify _ (Q := fun _ s' => G .selecting s' ∧
            s'.tree.arena.liveCount < s.tree.arena.liveCount) ?_) fun _ =>
              Triple.pure _ fun _ h => h
          rintro s' ⟨htree, hs'⟩
          refine ⟨hG.step hs' .collapse rfl, ?_⟩
          change (s'.tree.arena.pruneSubtree n).1.liveCount < _
          rw [htree]
          exact hfront.liveCount_prune hsound
    · refine Triple.bind ((hG.pickChild (s.tree.arena.liveChildren n) s.tree.arena).pre ?_)
        fun c => (ih c).pre ?_
      · rintro _ rfl
        refine ⟨hs, rfl, hopen, fun c hc => ?_⟩
        exact ⟨n, (mem_children.mp (mem_liveChildren.mp hc).1).2⟩
      · rintro s' ⟨hs', ha, hc⟩
        obtain ⟨hcn, hclive⟩ := mem_liveChildren.mp hc
        have hlt := lt_of_mem_children hcn
        exact ⟨hs', ha, (mem_children.mp hcn).1, hclive, by omega⟩

/-- Selection restarts until it finds a node or the root is dead. -/
theorem selectFrom (fuel : Nat) :
    Triple (fun s => G .selecting s ∧ s.tree.arena.liveCount < fuel)
      (selectFrom ctl rt fuel) (Selected G) (Fault G) := by
  induction fuel with
  | zero =>
    rintro s ⟨-, hfuel⟩
    omega
  | succ fuel ih =>
    refine Triple.get_bind ?_
    rintro s ⟨hs, hfuel⟩
    refine Triple.ite (fun hlive => ?_) fun hdead => ?_
    · refine Triple.bind ((hG.descend s.tree.arena.size 0 s.tree.arena).pre ?_) fun d => ?_
      · rintro s' rfl
        exact ⟨hs, rfl, s'.tree.arena.linked.nonempty, hlive, by omega⟩
      · cases d with
        | restart => exact ih.pre fun s' hs' => ⟨hs'.1, by omega⟩
        | found m revived => exact Triple.pure _ fun _ h => h
    · refine Triple.pure _ ?_
      rintro _ rfl
      exact ⟨hs, by simpa using hdead⟩

/-- A node of the tree always accepts a child. -/
theorem addChild_run {n : Nat} {todo seen : List Str} {batch : List Nat} {s : RunState K W}
    (hs : G (.attaching n todo seen batch) s) (content : Str) :
    ∃ c tree, s.tree.addChild rt.freshId n content = .ok (c, tree) ∧
      Search.addChild rt n content s = .ok c (s.grown c tree) := by
  have hi := hG.inv hs
  have hadd : s.tree.addChild rt.freshId n content = .ok (s.tree.arena.size,
      ⟨s.tree.arena.attachChild n content,
        s.tree.index.set (rt.freshId s.tree.arena.size) s.tree.arena.size⟩) := by
    rw [ThoughtTree.addChild, if_pos (hi.indexed n (hi.working n rfl).alloc)]
  refine ⟨_, _, hadd, ?_⟩
  rw [Search.addChild, get_bind_run]
  simp only [hadd]
  rfl

/-- The candidate loop consumes all candidates and returns the batch it attached. -/
theorem attachAll (n : Nat) (todo seen : List Str) (batch : List Nat) :
    Triple (G (.attaching n todo seen batch)) (attachAll rt n todo seen batch)
      (fun batch' s => ∃ seen', G (.attaching n [] seen' batch') s) (Fault G) := by
  induction todo generalizing seen batch with
  | nil => exact Triple.pure _ fun _ hs => ⟨seen, hs⟩
  | cons content rest ih =>
    refine Triple.ite (fun hskip => ?_) fun hnew => ?_
    · exact (ih seen batch).pre fun s hs => hG.step hs (.skip hskip) rfl
    · rw [not_or] at hnew
      refine Triple.of_forall fun s hs => ?_
      obtain ⟨c, tree, hadd, hrun⟩ := hG.addChild_run hs (Str.strip content)
      refine Triple.of_ok hrun ((ih (Str.strip content :: seen) (batch ++ [c])).pre ?_)
      rintro _ rfl
      exact hG.step hs (.attach hnew.1 hnew.2 hadd) rfl

/-- `_expand` asks the generator once and attaches what is new. -/
theorem expand (n : Nat) :
    Triple (G (.expanding n)) (expand ctl rt n)
      (fun batch s => ∃ seen, G (.attaching n [] seen batch) s) (Fault G) := by
  refine Triple.bind (Q := fun candidates s => G (.attaching n
    (candidates.take ctl.config.branchingFactor)
    ((s.tree.arena.node n).children.map fun c => (s.tree.arena.node c).content) []) s) ?_ ?_
  · refine consult_spec ?_ ?_
    · intro s candidates hs ha
      exact hG.step hs (.generate rfl ha) rfl
    · intro s e hs ha
      exact Or.inl (hG.step hs (.generateRaised rfl ha) rfl)
  · intro candidates
    refine Triple.get_bind fun s hs => (hG.attachAll n _ _ []).pre ?_
    rintro _ rfl
    exact hs

/-- The critic sees pruned children only. -/
theorem diagnose (n c : Nat) (v : Evaluation K) (todo : List (Nat × Evaluation K))
    (solution : Option Nat) (valued : List (Nat × K)) :
    Triple (G (.diagnosing n c v todo solution valued))
      (diagnose ctl c (verdictStatus ctl.config v))
      (fun critique s => G (.shaping n c v critique todo solution valued) s) (Fault G) := by
  unfold Search.diagnose
  cases hcritic : ctl.critic with
  | none => exact Triple.pure _ fun s hs => hG.step hs (.unexamined (Or.inl hcritic)) rfl
  | some critic =>
    refine Triple.ite (fun hpruned => ?_) fun hkept => ?_
    · refine Triple.bind (Q := fun critique s => G (.shaping n c v critique todo solution valued)
        (critique.elim s (s.annotated c))) ?_ ?_
      · refine consult_spec ?_ ?_
        · intro s critique hs ha
          cases critique with
          | none => exact hG.step hs (.uncritiqued hcritic hpruned rfl ha) rfl
          | some k => exact hG.step hs (.critiqued hcritic hpruned rfl ha) rfl
        · intro s e hs ha
          exact Or.inl (hG.step hs (.critiqueRaised hcritic rfl ha) rfl)
      · intro critique
        cases critique with
        | none => exact Triple.pure _ fun _ hs => hs
        | some k =>
          exact Triple.bind (Triple.modify _ fun _ hs => hs) fun _ =>
            Triple.pure _ fun _ hs => hs
    · exact Triple.pure _ fun s hs => hG.step hs (.unexamined (Or.inr hkept)) rfl

/-- The value of a judged child joins those of the batch. -/
theorem shapeValue (n c : Nat) (v : Evaluation K) (critique : Option (Critique K))
    (todo : List (Nat × Evaluation K)) (solution : Option Nat) (valued : List (Nat × K)) :
    Triple (G (.shaping n c v critique todo solution valued)) (shapeValue ctl c v.score critique)
      (fun value s => G (.judging n todo (nextSolution (verdictStatus ctl.config v) c solution)
        (valued ++ [(c, value)])) s) (Fault G) := by
  unfold Search.shapeValue
  cases hmodel : ctl.rewardModel with
  | none => exact Triple.pure _ fun s hs => hG.step hs (.unshaped hmodel) rfl
  | some model =>
    refine consult_spec ?_ ?_
    · intro s value hs ha
      exact hG.step hs (.shape hmodel rfl ha) rfl
    · intro s e hs ha
      exact Or.inl (hG.step hs (.shapeRaised hmodel rfl ha) rfl)

/-- The verdict loop judges every child of the batch. -/
theorem judge (n : Nat) (todo : List (Nat × Evaluation K)) (solution : Option Nat)
    (valued : List (Nat × K)) :
    Triple (G (.judging n todo solution valued))
      (judge ctl (todo.map Prod.fst) (todo.map Prod.snd) solution valued)
      (fun r s => G (.judging n [] r.1 r.2) s) (Fault G) := by
  induction todo generalizing solution valued with
  | nil => exact Triple.pure _ fun _ hs => hs
  | cons cv rest ih =>
    obtain ⟨c, v⟩ := cv
    refine Triple.bind (Q := fun _ s => G (.diagnosing n c v rest solution valued) s)
      (Triple.modify _ fun s hs => hG.step hs .judge rfl) fun _ => ?_
    refine Triple.bind (hG.diagnose n c v rest solution valued) fun critique => ?_
    exact Triple.bind (hG.shapeValue n c v critique rest solution valued) fun value => ih _ _

end Follows

end CognitiveTree.Search
