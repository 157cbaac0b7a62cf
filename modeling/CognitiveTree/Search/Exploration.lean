import CognitiveTree.Search.Acceptance

/-!
# Nothing is discarded unexplored

Selection asks the generator and the revision policy about nodes that are still live, so
what the log says about a dead node is final. A node that a verdict left alive dies only
at the depth cap, after an expansion without candidates, or saturated and not revived.
-/

namespace CognitiveTree.Search

open Arena

variable {K W : Type} [PyFloat K] {ctl : TreeSearchController K W} {rt : Runtime K W}

section Requests

/-- What selection and expansion ask for one node, and the tree an expansion starts on. -/
inductive Request (K : Type) where
  | expansion (node : Nat) (arena : Arena K)
  | generate (node : Nat) (answer : Except Exc (List Str))
  | revise (node : Nat) (answer : Except Exc Bool)

/-- The node a request is about. -/
def Request.node : Request K → Nat
  | .expansion n _ | .generate n _ | .revise n _ => n

/-- The requests in a log, newest first. -/
def requestsIn (log : List (Obs K)) : List (Request K) :=
  log.filterMap fun
    | .transition record _ (some n) tree =>
      if record.target = .expansion then some (.expansion n tree.arena) else none
    | .generate n _ answer => some (.generate n answer)
    | .revise n answer => some (.revise n answer)
    | _ => none

/-- The nodes the generator was called on, newest first. -/
def generatedIn (log : List (Obs K)) : List Nat :=
  (requestsIn log).filterMap fun
    | .generate n _ => some n
    | _ => none

/-- The answer to the last revision request for a node. -/
def lastRevision (log : List (Obs K)) (n : Nat) : Option (Except Exc Bool) :=
  (requestsIn log).findSome? fun
    | .revise m answer => if m = n then some answer else none
    | _ => none

/-- The tree on which the last expansion of a node started. -/
def lastExpansion (log : List (Obs K)) (n : Nat) : Option (Arena K) :=
  (requestsIn log).findSome? fun
    | .expansion m arena => if m = n then some arena else none
    | _ => none

section Other

variable {log log' : List (Obs K)} {q : Request K} {n : Nat}

/-- A request for another node changes no last request of this one. -/
theorem lastRevision_other (h : requestsIn log' = q :: requestsIn log) (hne : q.node ≠ n) :
    lastRevision log' n = lastRevision log n := by
  unfold lastRevision
  rw [h, List.findSome?_cons]
  cases q with
  | revise m answer => simp only [if_neg (show m ≠ n from hne)]
  | _ => rfl

theorem lastExpansion_other (h : requestsIn log' = q :: requestsIn log) (hne : q.node ≠ n) :
    lastExpansion log' n = lastExpansion log n := by
  unfold lastExpansion
  rw [h, List.findSome?_cons]
  cases q with
  | expansion m arena => simp only [if_neg (show m ≠ n from hne)]
  | _ => rfl

/-- The generator's calls are never taken back. -/
theorem generatedIn_mono (h : requestsIn log' = q :: requestsIn log) (hn : n ∈ generatedIn log) :
    n ∈ generatedIn log' := by
  rw [generatedIn, h]
  cases q with
  | generate => exact List.mem_cons_of_mem _ hn
  | _ => exact hn

end Other

/-- A transition into another phase than `EXPANSION` is no request. -/
theorem requestsIn_transitioned {s : RunState K W} {target : SearchPhase} {node : Option Nat}
    {detail : Str} (h : s.machine.canTransition target = true) (hne : target ≠ .expansion) :
    requestsIn ((s.transitioned rt target node detail h).mirrored ctl rt target node detail).1.log =
      requestsIn s.log := by
  have hentry : requestsIn (s.transitioned rt target node detail h).log = requestsIn s.log := by
    change List.filterMap _ (_ :: _) = _
    cases node <;> simp [hne, requestsIn]
  rw [RunState.mirrored_log, ← hentry]
  cases ((s.transitioned rt target node detail h).mirrored ctl rt target node detail).2 <;> rfl

theorem requestsIn_expansion {s : RunState K W} {n : Nat} {detail : Str}
    (h : s.machine.canTransition .expansion = true) :
    requestsIn ((s.transitioned rt .expansion (some n) detail h).mirrored ctl rt .expansion
      (some n) detail).1.log = .expansion n s.tree.arena :: requestsIn s.log := by
  have hentry : requestsIn (s.transitioned rt .expansion (some n) detail h).log =
      .expansion n s.tree.arena :: requestsIn s.log := rfl
  rw [RunState.mirrored_log, ← hentry]
  cases ((s.transitioned rt .expansion (some n) detail h).mirrored ctl rt .expansion (some n)
    detail).2 <;> rfl

/-- A transition calls no generator. -/
theorem generatedIn_transitioned {s : RunState K W} {target : SearchPhase} {node : Option Nat}
    {detail : Str} (h : s.machine.canTransition target = true) :
    generatedIn ((s.transitioned rt target node detail h).mirrored ctl rt target node detail).1.log =
      generatedIn s.log := by
  have hentry : generatedIn (s.transitioned rt target node detail h).log = generatedIn s.log := by
    change List.filterMap _ (List.filterMap _ (_ :: _)) = _
    cases node <;> by_cases ht : target = .expansion <;> simp [generatedIn, requestsIn, ht]
  rw [RunState.mirrored_log, ← hentry]
  cases ((s.transitioned rt target node detail h).mirrored ctl rt target node detail).2 <;> rfl

end Requests

/-- A node with children was given up for a reason: it could not be revised, or its last
expansion left it with the children it had. -/
def GivenUp (ctl : TreeSearchController K W) (log : List (Obs K)) (a : Arena K) (n : Nat) : Prop :=
  ctl.revisionPolicy = none ∨ lastRevision log n = some (.ok false) ∨
    ∃ b, lastExpansion log n = some b ∧ (a.node n).children = (b.node n).children

/-- What is known about the node an iteration works on. -/
def Stage.progress (ctl : TreeSearchController K W) (log : List (Obs K)) (a : Arena K) :
    Stage K → Prop
  | .refused n => (a.node n).children ≠ [] ∧
    (ctl.revisionPolicy = none ∨ lastRevision log n = some (.ok false))
  | .expanding n => ∃ b, lastExpansion log n = some b ∧ (a.node n).children = (b.node n).children
  | .attaching n _ _ batch => n ∈ generatedIn log ∧
    ∃ b, lastExpansion log n = some b ∧ (a.node n).children = (b.node n).children ++ batch
  | .barren n => n ∈ generatedIn log ∧
    ∃ b, lastExpansion log n = some b ∧ (a.node n).children = (b.node n).children
  | _ => True

/-- The verdict of a node left it evaluated; the root needs none. -/
def Promising (config : SearchConfig K) (log : List (Obs K)) (n : Nat) : Prop :=
  n = 0 ∨ ∃ v, (n, .ok v) ∈ evaluationsIn log ∧ verdictStatus config v = .evaluated

/-- What a run has explored: nodes with children were expanded, promising nodes above the
depth cap did not die before, and nodes with children were not given up without reason. -/
structure Explored (ctl : TreeSearchController K W) (c : Stage K × RunState K W) : Prop where
  expanded : ∀ n, (c.2.tree.arena.node n).children ≠ [] → n ∈ generatedIn c.2.log
  generated : ∀ n, n < c.2.tree.arena.size → (c.2.tree.arena.node n).status = .pruned →
    (c.2.tree.arena.node n).depth < ctl.config.maxDepth → Promising ctl.config c.2.log n →
    n ∈ generatedIn c.2.log
  givenUp : ∀ n, n < c.2.tree.arena.size → (c.2.tree.arena.node n).status = .pruned →
    (c.2.tree.arena.node n).children ≠ [] → GivenUp ctl c.2.log c.2.tree.arena n
  progress : c.1.progress ctl c.2.log c.2.tree.arena

namespace Explored

variable {s s' : RunState K W} {st st' : Stage K}

/-- A step that asks for nothing and moves statistics at most. -/
theorem move (h : Explored ctl (st, s)) (hcore : SameCore s.tree.arena s'.tree.arena)
    (hrequests : requestsIn s'.log = requestsIn s.log)
    (hverdicts : evaluationsIn s'.log = evaluationsIn s.log)
    (hprogress : st'.progress ctl s'.log s'.tree.arena) : Explored ctl (st', s') := by
  have hgenerated : generatedIn s'.log = generatedIn s.log := by
    rw [generatedIn, hrequests, generatedIn]
  refine ⟨fun n => ?_, fun n => ?_, fun n => ?_, hprogress⟩
  · rw [hcore.children_eq, hgenerated]
    exact h.expanded n
  · unfold Promising
    rw [hcore.size_eq, hcore.status_eq, hcore.depth_eq, hgenerated, hverdicts]
    exact h.generated n
  · unfold GivenUp lastRevision lastExpansion
    rw [hcore.size_eq, hcore.status_eq, hcore.children_eq, hrequests]
    exact h.givenUp n

/-- A request for a live node says nothing about the dead ones. -/
theorem ask (h : Explored ctl (st, s)) (htree : s'.tree.arena = s.tree.arena) {q : Request K}
    (hrequests : requestsIn s'.log = q :: requestsIn s.log)
    (hverdicts : evaluationsIn s'.log = evaluationsIn s.log)
    (hlive : (s.tree.arena.node q.node).isLive = true)
    (hprogress : st'.progress ctl s'.log s.tree.arena) : Explored ctl (st', s') := by
  have hgenerated : ∀ n ∈ generatedIn s.log, n ∈ generatedIn s'.log :=
    fun n hn => generatedIn_mono hrequests hn
  have hdead : ∀ n, (s.tree.arena.node n).status = .pruned → n ≠ q.node := by
    rintro n hn rfl
    rw [ThoughtNode.isLive, hn] at hlive
    cases hlive
  constructor
  · change ∀ n, (s'.tree.arena.node n).children ≠ [] → _
    rw [htree]
    exact fun n hn => hgenerated n (h.expanded n hn)
  · change ∀ n, n < s'.tree.arena.size → _ → _ → Promising _ s'.log n → _
    unfold Promising
    rw [htree, hverdicts]
    exact fun n hn hs hd hp => hgenerated n (h.generated n hn hs hd hp)
  · change ∀ n, n < s'.tree.arena.size → (s'.tree.arena.node n).status = _ → _ →
      GivenUp ctl s'.log s'.tree.arena n
    rw [htree]
    intro n hn hs hc
    have hne := hdead n hs
    rw [GivenUp, lastRevision_other hrequests hne.symm, lastExpansion_other hrequests hne.symm]
    exact h.givenUp n hn hs hc
  · change st'.progress ctl s'.log s'.tree.arena
    rw [htree]
    exact hprogress

end Explored

/-- Pruning a node that may be given up. -/
theorem Explored.prune {s : RunState K W} {st st' : Stage K} {n : Nat}
    (h : Explored ctl (st, s)) (hi : Inv ctl rt (st, s)) (hn : Frontier s.tree.arena n)
    (hgenerated : (s.tree.arena.node n).depth < ctl.config.maxDepth →
      n ∈ generatedIn s.log)
    (hgiven : (s.tree.arena.node n).children ≠ [] → GivenUp ctl s.log s.tree.arena n)
    (hprogress : ∀ log a, st'.progress ctl log a) : Explored ctl (st', s.pruned n) := by
  have he : (s.pruned n).tree.arena = s.tree.arena.setStatus n .pruned := by
    change (s.tree.arena.pruneSubtree n).1 = _
    rw [hn.pruneSubtree_eq hi.sound]
  have hl := sameLinks_setStatus s.tree.arena n .pruned
  have hstatus : ∀ m, m ≠ n → ((s.tree.arena.setStatus n .pruned).node m).status =
      (s.tree.arena.node m).status := fun m hm => by rw [setStatus_node, if_neg hm]
  constructor
  · change ∀ m, ((s.pruned n).tree.arena.node m).children ≠ [] → _
    rw [he]
    intro m hm
    rw [hl.children_eq] at hm
    exact h.expanded m hm
  · change ∀ m, m < (s.pruned n).tree.arena.size → ((s.pruned n).tree.arena.node m).status = _ →
      ((s.pruned n).tree.arena.node m).depth < _ → _
    rw [he]
    intro m hm hs hd hp
    rw [hl.depth_eq] at hd
    by_cases hmn : m = n
    · subst hmn
      exact hgenerated hd
    · rw [hstatus m hmn] at hs
      exact h.generated m hm hs hd hp
  · change ∀ m, m < (s.pruned n).tree.arena.size → ((s.pruned n).tree.arena.node m).status = _ →
      ((s.pruned n).tree.arena.node m).children ≠ [] →
      GivenUp ctl s.log (s.pruned n).tree.arena m
    rw [he]
    intro m hm hs hc
    rw [hl.children_eq] at hc
    unfold GivenUp
    rw [hl.children_eq]
    by_cases hmn : m = n
    · subst hmn
      exact hgiven hc
    · rw [hstatus m hmn] at hs
      exact h.givenUp m hm hs hc
  · exact hprogress _ _

/-- A new child is pending, and its parent has been expanded. -/
theorem Explored.attach {s : RunState K W} {n : Nat} {content : Str} {rest seen : List Str}
    {batch : List Nat} (h : Explored ctl (.attaching n (content :: rest) seen batch, s))
    (halloc : n < s.tree.arena.size) (hlive : (s.tree.arena.node n).isLive = true)
    {index : Dict Str Nat} :
    Explored ctl (.attaching n rest (Str.strip content :: seen) (batch ++ [s.tree.arena.size]),
      s.grown s.tree.arena.size ⟨s.tree.arena.attachChild n (Str.strip content), index⟩) := by
  obtain ⟨hgenerated, b, hb, hc⟩ := h.progress
  have hsize := attachChild_size (Str.strip content) halloc
  have hold := fun x => attachChild_old (Str.strip content) halloc (x := x)
  have hnew := attachChild_new (Str.strip content) halloc
  have hdead : (s.tree.arena.node n).status ≠ .pruned := fun hs => by
    rw [ThoughtNode.isLive, hs] at hlive
    cases hlive
  generalize hgrown : s.tree.arena.attachChild n (Str.strip content) = a at hsize hold hnew
  refine ⟨fun m (hm : (a.node m).children ≠ []) => ?_,
    fun m (hm : m < a.size) (hs : (a.node m).status = _) (hd : (a.node m).depth < _) hp => ?_,
    fun m (hm : m < a.size) (hs : (a.node m).status = _) (hk : (a.node m).children ≠ []) => ?_,
    ⟨hgenerated, b, hb, ?_⟩⟩
  · by_cases hmn : m = n
    · exact hmn ▸ hgenerated
    · by_cases hms : m = s.tree.arena.size
      · rw [hms, hnew] at hm
        exact absurd rfl hm
      · rw [hold m hms, if_neg hmn, List.append_nil] at hm
        exact h.expanded m hm
  · by_cases hms : m = s.tree.arena.size
    · rw [hms, hnew] at hs
      cases hs
    · rw [hold m hms] at hs hd
      exact h.generated m (show m < s.tree.arena.size by omega) hs hd hp
  · by_cases hms : m = s.tree.arena.size
    · rw [hms, hnew] at hs
      cases hs
    · rw [hold m hms] at hs hk
      have hmn : m ≠ n := fun he => hdead (he ▸ hs)
      rw [if_neg hmn, List.append_nil] at hk
      change GivenUp ctl s.log a m
      rw [GivenUp, hold m hms, if_neg hmn, List.append_nil]
      exact h.givenUp m (show m < s.tree.arena.size by omega) hs hk
  · change (a.node n).children = _
    rw [hold n halloc.ne, if_pos rfl, hc, List.append_assoc]

/-- A verdict that prunes its node leaves it neither promising nor with children. -/
theorem Explored.judge {s : RunState K W} {st st' : Stage K} {d : Nat} {v : Evaluation K}
    {status : NodeStatus} (h : Explored ctl (st, s))
    (hpromising : Promising ctl.config s.log d → status ≠ .pruned)
    (hchildless : (s.tree.arena.node d).children = [])
    (hprogress : ∀ log a, st'.progress ctl log a) :
    Explored ctl (st', s.judged d v status) := by
  have hl := sameLinks_applyEvaluation s.tree.arena d v.score status v.rationale
  have hself : ((s.tree.arena.applyEvaluation d v.score status v.rationale).node d).status =
      status := by
    rw [applyEvaluation_node, if_pos rfl]
    rfl
  have hother : ∀ m, m ≠ d →
      ((s.tree.arena.applyEvaluation d v.score status v.rationale).node m).status =
        (s.tree.arena.node m).status := fun m hm => by
    rw [applyEvaluation_node, if_neg hm]
  generalize hb : s.tree.arena.applyEvaluation d v.score status v.rationale = b
    at hl hself hother
  have htree : (s.judged d v status).tree.arena = b := hb
  refine ⟨fun m => ?_, fun m => ?_, fun m => ?_, hprogress _ _⟩ <;> dsimp only <;> rw [htree]
  · rw [hl.children_eq]
    exact h.expanded m
  · rw [hl.depth_eq]
    intro hm hs hd hp
    by_cases hmd : m = d
    · subst hmd
      exact absurd (hself.symm.trans hs) (hpromising hp)
    · exact h.generated m (hl.size_eq ▸ hm) (hother m hmd ▸ hs) hd hp
  · unfold GivenUp
    rw [hl.children_eq]
    intro hm hs hk
    have hmd : m ≠ d := fun he => hk (he ▸ hchildless)
    exact h.givenUp m (hl.size_eq ▸ hm) (hother m hmd ▸ hs) hk

/-- A transition starts an expansion or asks for nothing. -/
theorem Edge.explored {s : RunState K W} {st st' : Stage K} {target node detail}
    (edge : Edge ctl s st target node detail st') (h : s.machine.canTransition target = true)
    (hi : Inv ctl rt (st, s)) (hx : Explored ctl (st, s)) {st'' : Stage K}
    (hst : st'' = st' ∨ ∀ log a, st''.progress ctl log a) : Explored ctl
      (st'', ((s.transitioned rt target node detail h).mirrored ctl rt target node detail).1) := by
  have htree := (RunState.mirrored_fields ctl rt (s.transitioned rt target node detail h) target
    node detail).1
  have harena := congrArg (fun t : ThoughtTree K => t.arena) htree
  have hcore : SameCore s.tree.arena
      ((s.transitioned rt target node detail h).mirrored ctl rt target node detail).1.tree.arena := by
    rw [htree]
    exact .refl _
  have hverdicts : evaluationsIn ((s.transitioned rt target node detail h).mirrored ctl rt target
      node detail).1.log = evaluationsIn s.log := evaluationsIn_mirrored
  have hmove : target ≠ .expansion → st''.progress ctl ((s.transitioned rt target node detail
      h).mirrored ctl rt target node detail).1.log s.tree.arena → Explored ctl (st'',
        ((s.transitioned rt target node detail h).mirrored ctl rt target node detail).1) :=
    fun hne hprogress => hx.move hcore (requestsIn_transitioned h hne) hverdicts
      (harena.symm ▸ hprogress)
  cases edge
  case expand n =>
    refine hx.ask harena (q := .expansion n s.tree.arena) (requestsIn_expansion h) hverdicts
      (hi.working n rfl).live ?_
    rcases hst with rfl | hst
    · refine ⟨s.tree.arena, ?_, rfl⟩
      rw [lastExpansion, requestsIn_expansion h, List.findSome?_cons]
      simp
    · exact hst _ _
  case deadEnd n seen =>
    refine hmove (by decide) ?_
    rcases hst with rfl | hst
    · obtain ⟨hgenerated, b, hb, hc⟩ := hx.progress
      rw [List.append_nil] at hc
      unfold Stage.progress generatedIn lastExpansion
      rw [requestsIn_transitioned h (by decide)]
      exact ⟨hgenerated, b, hb, hc⟩
    · exact hst _ _
  case halt =>
    have hm := hi.phase.2
    refine hmove ?_ (hst.elim (fun he => he ▸ trivial) fun hst => hst _ _)
    rintro rfl
    exact absurd hm (by decide)
  all_goals exact hmove (by decide) (hst.elim (fun he => he ▸ trivial) fun hst => hst _ _)

/-- Every step keeps track of what was explored. -/
theorem Step.explored {task : Str} {draws : Nat} {c c' : Stage K × RunState K W}
    (hs : Step ctl rt c c') (hr : Reach ctl rt task draws c) (h : Explored ctl c) :
    Explored ctl c' := by
  have hi := hr.inv
  cases hs with
  | advance edge h' quiet => exact edge.explored h' hi h (Or.inl rfl)
  | @advanceRaised s st st' target node detail e edge h' raised =>
    exact edge.explored h' hi h (Or.inr fun _ _ => by cases st' <;> trivial)
  | pollCancel | pollDeadline =>
    split <;> exact h.move (.refl _) rfl rfl trivial
  | cap alloc live leaf deep =>
    exact h.prune hi (Inv.frontier_of_leaf alloc live leaf) (fun hd => absurd hd (not_lt.mpr deep))
      (fun hc => absurd leaf hc) fun _ _ => trivial
  | unrevised alloc live saturated policy =>
    exact h.move (.refl _) rfl rfl ⟨saturated.1, Or.inl policy⟩
  | @revise s n policy reply granted alloc live saturated hpolicy hreply answer =>
    refine h.ask rfl (q := .revise n reply.answer) rfl rfl live ?_
    cases granted with
    | true => trivial
    | false =>
      refine ⟨saturated.1, Or.inr ?_⟩
      change List.findSome? _ (_ :: _) = _
      rw [List.findSome?_cons, answer]
      simp
  | @reviseRaised s n policy reply e alloc live saturated hpolicy hreply answer =>
    exact h.ask rfl (q := .revise n reply.answer) rfl rfl live trivial
  | @collapse s n =>
    obtain ⟨hne, hgiven⟩ := h.progress
    exact h.prune hi (hi.working n rfl).frontier (fun _ => h.expanded n hne)
      (fun _ => hgiven.imp_right Or.inl) fun _ _ => trivial
  | @generate s n reply candidates hreply answer =>
    refine h.ask rfl (q := .generate n reply.answer) rfl rfl (hi.working n rfl).live ?_
    obtain ⟨b, hb, hc⟩ := h.progress
    refine ⟨List.mem_cons_self .., b, hb, ?_⟩
    rw [List.append_nil]
    exact hc
  | @generateRaised s n reply e hreply answer =>
    exact h.ask rfl (q := .generate n reply.answer) rfl rfl (hi.working n rfl).live trivial
  | skip => exact h.move (.refl _) rfl rfl h.progress
  | @attach s n content rest seen batch c tree _ _ added =>
    have hw := hi.working n rfl
    have halloc := hw.alloc
    rw [ThoughtTree.addChild, if_pos (hi.indexed n halloc)] at added
    cases added
    exact h.attach halloc hw.live
  | @retreat s n =>
    obtain ⟨hgenerated, b, hb, hc⟩ := h.progress
    exact h.prune hi (hi.working n rfl).frontier (fun _ => hgenerated)
      (fun _ => Or.inr (Or.inr ⟨b, hb, hc⟩)) fun _ _ => trivial
  | @evaluate s n d batch results reply pending fresh hreply =>
    refine ⟨h.expanded, fun m hm hs hd hp => ?_, h.givenUp, trivial⟩
    refine h.generated m hm hs hd (hp.imp_right ?_)
    rintro ⟨v, hv, hstatus⟩
    rcases List.mem_cons.mp hv with he | hv
    · -- the child is still pending
      have hmd : m = d := congrArg Prod.fst he
      subst hmd
      have hpending := (hi.working n rfl).pending m pending
      cases hs.symm.trans hpending
    · exact ⟨v, hv, hstatus⟩
  | @judge s n d v todo solution values =>
    have hknown := hr.verdictLedger.known (d, .ok v) (List.mem_cons_self ..)
    refine h.judge (fun hp => ?_) ((hi.working n rfl).childless d (by simp [Stage.batch]))
      fun _ _ => trivial
    rcases hp with rfl | ⟨w, hw, hstatus⟩
    · exact absurd (hr.verdictLedger.alloc _ hknown).1 (by simp)
    · have he := List.inj_on_of_nodup_map hr.verdictLedger.once hw hknown rfl
      cases he
      simp [hstatus]
  | @credit s n solution values =>
    exact h.move (sameCore_backpropagate s.tree.arena values) rfl rfl trivial
  | _ => exact h.move (.refl _) rfl rfl trivial

namespace Reach

variable {task : Str} {draws : Nat} {c : Stage K × RunState K W}

theorem explored (h : Reach ctl rt task draws c) : Explored ctl c := by
  refine h.strengthen (P := Explored ctl) (fun world => ?_) fun c c' hr hc hs => hs.explored hr hc
  refine ⟨fun n hn => absurd rfl hn, fun n _ hs => ?_, fun n _ hs => ?_, trivial⟩
  · cases hs
  · cases hs

/-- A run that ended because of an empty frontier ended with a dead root. -/
theorem root_dead (h : Reach ctl rt task draws c) (hst : c.1 = .ended)
    {last : PhaseTransition K} (hlast : c.2.machine.history.getLast? = some last)
    (htarget : last.target = .exhausted) (hnote : last.note = lit "frontier empty") :
    (c.2.tree.arena.node 0).isLive = false := by
  revert hst last
  refine h.strengthen (P := fun c => c.1 = .ended → ∀ {last : PhaseTransition K},
    c.2.machine.history.getLast? = some last → last.target = .exhausted →
    last.note = lit "frontier empty" → (c.2.tree.arena.node 0).isLive = false)
    (fun world hst => by cases hst) fun c c' hr hc hs hst last hlast htarget hnote => ?_
  have hadvanced : ∀ {s st target node detail}, c = (st, s) →
      Edge ctl s st target node detail .ended → (h : s.machine.canTransition target = true) →
      c'.2 = ((s.transitioned rt target node detail h).mirrored ctl rt target node detail).1 →
      (c'.2.tree.arena.node 0).isLive = false := by
    intro s st target node detail hcs edge h' hs'
    subst hcs
    have hm := RunState.mirrored_fields ctl rt (s.transitioned rt target node detail h') target
      node detail
    rw [hs', hm.2.1] at hlast
    have he : (s.machine.history ++ [(⟨s.machine.phase, target, detail,
        (rt.monotonic s.world).1⟩ : PhaseTransition K)]).getLast? = some last := hlast
    rw [List.getLast?_concat] at he
    cases he
    rw [hs', hm.1]
    cases edge
    case frontierEmpty hdead => exact hdead
    case spent =>
      have hne : lit "iteration budget spent" ≠ lit "frontier empty" := by decide
      exact absurd hnote hne
    case halt =>
      have hphase := hr.inv.phase.2
      have htarget : target = .exhausted := htarget
      subst htarget
      exact absurd hphase (by decide)
    all_goals cases htarget
  cases hs with
  | advance edge h' quiet =>
    cases hst
    exact hadvanced rfl edge h' rfl
  | @advanceRaised s st st' target node detail e edge h' raised =>
    have he : st' = .ended := by
      cases st'
      case ended => rfl
      all_goals cases hst
    subst he
    exact hadvanced rfl edge h' rfl
  | refuse => exact hc rfl hlast htarget hnote
  | pollCancel | pollDeadline | revise => split at hst <;> cases hst
  | _ => cases hst

end Reach

/-- The statuses a verdict assigns. -/
theorem verdictStatus_cases (config : SearchConfig K) (v : Evaluation K) :
    verdictStatus config v = .terminal ∨ verdictStatus config v = .pruned ∨
      verdictStatus config v = .evaluated := by
  unfold verdictStatus
  split
  · simp
  · split <;> simp

/-- When a run ends without success or failure, its dead nodes are pruned ones. -/
theorem Reach.pruned_of_dead {task : Str} {draws : Nat} {s : RunState K W}
    (h : Reach ctl rt task draws (.ended, s)) (hfailed : s.machine.phase ≠ .failed)
    (hsucceeded : s.machine.phase ≠ .succeeded) {n : Nat} (hn : n < s.tree.arena.size)
    (hdead : (s.tree.arena.node n).isLive = false) : (s.tree.arena.node n).status = .pruned := by
  have hterminal : (s.tree.arena.node n).status ≠ .terminal :=
    terminals_eq_nil.mp ((h.accounts.decided rfl hfailed).none hsucceeded) n hn
  have hpending : (s.tree.arena.node n).status ≠ .pending := fun hs => by
    rw [ThoughtNode.isLive, hs] at hdead
    cases hdead
  have hj := h.judged
  rcases Nat.eq_zero_or_pos n with rfl | h0
  · exact hj.root.resolve_left hpending
  · obtain ⟨v, -, hv⟩ := hj.verdict n h0 hn hpending
    rcases hv.status with hs | ⟨-, hs⟩
    · rcases verdictStatus_cases ctl.config v with he | he | he
      · exact absurd (hs.trans he) hterminal
      · exact hs.trans he
      · rw [ThoughtNode.isLive, hs.trans he] at hdead
        cases hdead
    · exact hs

section Discards

variable (ctl : TreeSearchController K W) (rt : Runtime K W) (task : Str) (draws : Nat) (world : W)

/-- Every prune changes one node, and an empty frontier leaves nothing unexplored. -/
theorem run_discards_only_explored :
    (∀ newer older n count, (finalState (ctl.run rt task draws world)).log =
        newer ++ .pruned n count :: older → count = 1 ∧
      ∃ c, Reach ctl rt task draws c ∧ c.2.log = older ∧ (c.2.tree.arena.node n).isLive = true ∧
        c.2.tree.arena.pruneSubtree n = (c.2.tree.arena.setStatus n .pruned, count)) ∧
    ∀ r s, ctl.run rt task draws world = .ok r s →
      (∃ last, r.phaseHistory.getLast? = some last ∧ last.target = .exhausted ∧
        last.note = lit "frontier empty") →
      (∀ n, n < r.tree.arena.size → (r.tree.arena.node n).isLive = false) ∧
      0 ∈ generatedIn s.log ∧
      (∀ n v, (n, .ok v) ∈ evaluationsIn s.log → verdictStatus ctl.config v = .evaluated →
        (r.tree.arena.node n).depth < ctl.config.maxDepth → n ∈ generatedIn s.log) ∧
      ∀ n, (r.tree.arena.node n).children ≠ [] → GivenUp ctl s.log r.tree.arena n := by
  refine ⟨fun newer older n count hlog => ?_, ?_⟩
  · obtain ⟨st, h⟩ := run_reach ctl rt task draws world
    obtain ⟨c, -, hc, hcl, ⟨hcount, hfrontier⟩, -⟩ := h.trace hlog (by simp)
    have he := hfrontier.pruneSubtree_eq hc.inv.sound
    have hone : count = 1 := by rw [hcount, he]
    exact ⟨hone, c, hc, hcl, hfrontier.live, by rw [he, hone]⟩
  · rintro r s hrun ⟨last, hlast, htarget, hnote⟩
    have h : Reported ctl rt task draws r s := by
      have hspec := run_spec ctl rt task draws world
      rwa [hrun] at hspec
    rw [h.phaseHistory] at hlast
    have hroot := h.reach.root_dead rfl hlast htarget hnote
    have hx := h.reach.explored
    rw [h.tree]
    have hdead : ∀ n, n < s.tree.arena.size → (s.tree.arena.node n).isLive = false := by
      intro n hn
      cases hlive : (s.tree.arena.node n).isLive with
      | false => rfl
      | true =>
        have hlive₀ := h.reach.inv.sound.live_lineage hn hlive (root_mem_lineage s.tree.arena hn)
        exact hlive₀.symm.trans hroot
    have hphase : s.machine.phase = .exhausted := by
      have hl := s.machine.chained.last
      rw [hlast] at hl
      exact hl.symm.trans htarget
    have hpruned : ∀ n, n < s.tree.arena.size → (s.tree.arena.node n).status = .pruned :=
      fun n hn => h.reach.pruned_of_dead (by simp [hphase]) (by simp [hphase]) hn (hdead n hn)
    refine ⟨hdead, ?_, ?_, ?_⟩
    · have h0 := s.tree.arena.linked.nonempty
      have hbounds := ctl.config.bounds
      refine hx.generated 0 h0 (hpruned 0 h0) ?_ (Or.inl rfl)
      rw [show (s.tree.arena.node 0).depth = 0 from s.tree.arena.linked.root_depth]
      omega
    · intro n v hv hstatus hdepth
      have hn := (h.reach.verdictLedger.alloc _ hv).2
      exact hx.generated n hn (hpruned n hn) hdepth (Or.inr ⟨v, hv, hstatus⟩)
    · intro n hc
      obtain ⟨c, hc'⟩ := List.exists_mem_of_ne_nil _ hc
      have hn : n < s.tree.arena.size :=
        (lt_of_mem_children hc').trans (mem_children.mp hc').1
      exact hx.givenUp n hn (hpruned n hn) hc

end Discards

end CognitiveTree.Search
