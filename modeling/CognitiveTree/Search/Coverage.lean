import CognitiveTree.Search.CandidateTree
import CognitiveTree.Search.Exploration
import CognitiveTree.Search.Solution

/-!
# A run inside the candidate tree

When the candidate tree is fixed in advance, every iteration expands one of its
expandable paths that was not expanded before, and the children it adds are exactly
the candidates of that path.
-/

namespace CognitiveTree.Search

open Arena

variable {K W : Type} [PyFloat K]

/-- The policies answer from the root path, nothing raises, and nothing stops the run. -/
structure Foreseeable (ctl : TreeSearchController K W) (rt : Runtime K W)
    (children : List Str → List Str) (verdict : List Str → Evaluation K) : Prop where
  generator : ctl.PathGenerator children
  evaluator : ctl.PathEvaluator verdict
  critic : ∀ critic, ctl.critic = some critic → ∀ n arena metadata world e,
    (critic n arena metadata world).answer ≠ .error e
  reward : ∀ model, ctl.rewardModel = some model → ∀ n base critique arena metadata world e,
    (model n base critique arena metadata world).answer ≠ .error e
  sink : ctl.QuietSink
  revision : ctl.revisionPolicy = none
  stop : ctl.stopCondition = none
  deadline : ctl.config.maxWallSeconds = none
  cancel : rt.cancelled = none

namespace Stage

/-- The node whose child list is not final yet, or about to be pruned. -/
def growing : Stage K → Option Nat
  | .attaching n _ _ _ | .barren n => some n
  | _ => none

/-- Whether the iteration has been counted and its generator call has not. -/
def ahead : Stage K → Nat
  | .selecting | .refused _ | .opened _ _ | .reviving _ | .expanding _ => 1
  | _ => 0

/-- What the candidate tree says about the node an iteration works on. -/
def foreseen (config : SearchConfig K) (children : List Str → List Str) (log : List (Obs K))
    (a : Arena K) : Stage K → Prop
  | .halting _ _ | .faulted _ | .reviving _ | .opened _ true => False
  | .opened n false | .expanding n => (a.node n).children = [] ∧ n ∉ generatedIn log
  | .attaching n todo seen batch => (a.node n).children = batch ∧
    (batch.map fun c => (a.node c).content) ++ freshTexts todo seen =
      candidates config children (a.pathContents n)
  | .barren n => (a.node n).children = [] ∧ candidates config children (a.pathContents n) = []
  | _ => True

end Stage

/-- The tree found so far is a part of the candidate tree, explored where the generator
was called. -/
structure Covered (ctl : TreeSearchController K W) (children : List Str → List Str)
    (verdict : List Str → Evaluation K) (task : Str) (c : Stage K × RunState K W) : Prop where
  root : (c.2.tree.arena.node 0).content = task
  once : (generatedIn c.2.log).Nodup
  alloc : ∀ n ∈ generatedIn c.2.log, n < c.2.tree.arena.size
  answers : ∀ p ∈ evaluationsIn c.2.log,
    p.1 < c.2.tree.arena.size ∧ p.2 = .ok (verdict (c.2.tree.arena.pathContents p.1))
  settled : ∀ n ∈ generatedIn c.2.log, c.1.growing ≠ some n →
    ((c.2.tree.arena.node n).children.map fun d => (c.2.tree.arena.node d).content) =
        candidates ctl.config children (c.2.tree.arena.pathContents n) ∧
      ((c.2.tree.arena.node n).children = [] → (c.2.tree.arena.node n).status = .pruned)
  expandable : ∀ n ∈ generatedIn c.2.log,
    c.2.tree.arena.pathContents n ∈ expandables ctl.config children verdict task
  foreseen : c.1.foreseen ctl.config children c.2.log c.2.tree.arena
  count : c.1 ≠ .ended → c.2.iteration = (generatedIn c.2.log).length + c.1.ahead


variable {ctl : TreeSearchController K W} {rt : Runtime K W} {children : List Str → List Str}
  {verdict : List Str → Evaluation K}

/-- No foreseeable step logs an exception. -/
theorem Foreseeable.unraised (h : Foreseeable ctl rt children verdict)
    {c c' : Stage K × RunState K W} (hs : Step ctl rt c c')
    (hc : ∀ o ∈ c.2.log, o.raised = false) : ∀ o ∈ c'.2.log, o.raised = false := by
  have hcons : ∀ {o : Obs K}, o.raised = false → ∀ x ∈ o :: c.2.log, x.raised = false :=
    fun ho => List.forall_mem_cons.mpr ⟨ho, hc⟩
  cases hs with
  | @advance s st st' target node detail edge h' quiet =>
    rw [RunState.mirrored_log, quiet]
    exact hcons rfl
  | @advanceRaised s st st' target node detail e edge h' raised =>
    obtain ⟨sink, event, tree, world, hsink, hx, -⟩ := RunState.mirrored_raised ctl rt _ _ _ _ raised
    exact absurd hx (h.sink sink hsink event tree world e)
  | refuse source target sink => cases hc _ (List.mem_of_head? sink)
  | stop condition | «continue» condition | stopRaised condition =>
    rw [h.stop] at condition
    cases condition
  | revise _ _ _ hpolicy | reviseRaised _ _ _ hpolicy =>
    rw [h.revision] at hpolicy
    cases hpolicy
  | generate hreply answer =>
    refine hcons ?_
    rw [answer]
    rfl
  | generateRaised hreply answer =>
    rw [hreply, h.generator] at answer
    cases answer
  | evaluate pending fresh hreply =>
    refine hcons ?_
    rw [hreply, h.evaluator]
    rfl
  | uncritiqued hcritic _ hreply answer | critiqued hcritic _ hreply answer =>
    refine hcons ?_
    rw [answer]
    rfl
  | critiqueRaised hcritic hreply answer =>
    rw [hreply] at answer
    exact absurd answer (h.critic _ hcritic _ _ _ _ _)
  | shape hmodel hreply answer =>
    refine hcons ?_
    rw [answer]
    rfl
  | shapeRaised hmodel hreply answer =>
    rw [hreply] at answer
    exact absurd answer (h.reward _ hmodel _ _ _ _ _ _ _)
  | mark | begin | pick | cap | collapse | retreat | credit => exact hcons rfl
  | _ => exact hc

section Reach

variable {task : Str} {draws : Nat} {c : Stage K × RunState K W}

theorem Reach.unraised (h : Reach ctl rt task draws c)
    (hf : Foreseeable ctl rt children verdict) : ∀ o ∈ c.2.log, o.raised = false :=
  h.invariant (P := fun c => ∀ o ∈ c.2.log, o.raised = false)
    (fun _ _ ho => absurd ho List.not_mem_nil) fun _ _ hc hs => hf.unraised hs hc

theorem Reach.not_lost (h : Reach ctl rt task draws c)
    (hf : Foreseeable ctl rt children verdict) : ¬ Lost c := by
  intro hlost
  obtain ⟨o, ho, hraised⟩ := h.raised_of_lost hlost
  rw [h.unraised hf o ho] at hraised
  cases hraised

end Reach

namespace Covered

variable {task : Str} {s s' : RunState K W} {st st' : Stage K}

/-- A step that neither calls a policy that matters nor adds a node. -/
theorem move (h : Covered ctl children verdict task (st, s))
    (hl : SameLinks s.tree.arena s'.tree.arena)
    (hgenerated : generatedIn s'.log = generatedIn s.log)
    (hverdicts : evaluationsIn s'.log = evaluationsIn s.log)
    (hpruned : ∀ n, (s.tree.arena.node n).status = .pruned →
      (s'.tree.arena.node n).status = .pruned)
    (hsettled : ∀ n ∈ generatedIn s.log, st.growing = some n → st'.growing ≠ some n →
      ((s.tree.arena.node n).children.map fun d => (s.tree.arena.node d).content) =
          candidates ctl.config children (s.tree.arena.pathContents n) ∧
        ((s.tree.arena.node n).children = [] → (s'.tree.arena.node n).status = .pruned))
    (hforeseen : st'.foreseen ctl.config children s.log s'.tree.arena)
    (hcount : st' ≠ .ended → st ≠ .ended ∧ s'.iteration + st.ahead = s.iteration + st'.ahead) :
    Covered ctl children verdict task (st', s') := by
  have hforeseen' : st'.foreseen ctl.config children s'.log s'.tree.arena := by
    unfold Stage.foreseen at hforeseen ⊢
    rw [hgenerated]
    exact hforeseen
  constructor
  case root => exact (hl.content_eq 0).trans h.root
  case once => exact hgenerated ▸ h.once
  case alloc =>
    intro n hn
    rw [hgenerated] at hn
    exact hl.size_eq.symm ▸ h.alloc n hn
  case answers =>
    intro p hp
    rw [hverdicts] at hp
    rw [hl.size_eq, hl.pathContents]
    exact h.answers p hp
  case settled =>
    intro n hn hne
    rw [hgenerated] at hn
    rw [hl.children_eq, hl.pathContents]
    simp only [hl.content_eq]
    by_cases hgrowing : st.growing = some n
    · exact hsettled n hn hgrowing hne
    · exact (h.settled n hn hgrowing).imp_right fun hs hc => hpruned n (hs hc)
  case expandable =>
    intro n hn
    rw [hgenerated] at hn
    rw [hl.pathContents]
    exact h.expandable n hn
  case foreseen => exact hforeseen'
  case count =>
    intro hne
    obtain ⟨hst, hiteration⟩ := hcount hne
    have := h.count hst
    rw [hgenerated]
    dsimp only at this ⊢
    omega

end Covered

theorem Edge.covered {task : Str} {s : RunState K W} {st st' : Stage K} {target node detail}
    (edge : Edge ctl s st target node detail st') (h : s.machine.canTransition target = true)
    (hc : Covered ctl children verdict task (st, s)) : Covered ctl children verdict task
      (st', ((s.transitioned rt target node detail h).mirrored ctl rt target node detail).1) := by
  have hm := RunState.mirrored_fields ctl rt (s.transitioned rt target node detail h) target node
    detail
  have htree := congrArg (fun t : ThoughtTree K => t.arena) hm.1
  have hmove : st.growing = st'.growing → st'.foreseen ctl.config children s.log s.tree.arena →
      (st' ≠ .ended → st ≠ .ended ∧ s.iteration + st.ahead = s.iteration + st'.ahead) →
      Covered ctl children verdict task
        (st', ((s.transitioned rt target node detail h).mirrored ctl rt target node detail).1) := by
    intro hgrowing hforeseen hcount
    refine hc.move ?_ (generatedIn_transitioned h) evaluationsIn_mirrored ?_ ?_ ?_ ?_
    · rw [hm.1]
      exact .refl _
    · rw [hm.1]
      exact fun _ hn => hn
    · exact fun n _ hn hne => absurd (hgrowing ▸ hn) hne
    · rw [hm.1]
      exact hforeseen
    · rw [hm.2.2.2.1]
      exact hcount
  cases edge
  case halt => exact hc.foreseen.elim
  case reopen => exact hc.foreseen.elim
  case prepared => exact hc.foreseen.elim
  case failed => exact hc.foreseen.elim
  case deadEnd n seen =>
    obtain ⟨hkids, hcontents⟩ := hc.foreseen
    exact hmove rfl ⟨hkids, hcontents.symm⟩ fun _ => ⟨by simp, rfl⟩
  case candidates n seen batch hne =>
    obtain ⟨hkids, hcontents⟩ := hc.foreseen
    refine hc.move ?_ (generatedIn_transitioned h) evaluationsIn_mirrored ?_ ?_ trivial ?_
    · rw [hm.1]
      exact .refl _
    · rw [hm.1]
      exact fun _ hn => hn
    · rintro m - hn -
      cases hn
      refine ⟨?_, fun hnil => absurd (hkids.symm.trans hnil) hne⟩
      rw [hkids, ← hcontents, show freshTexts [] seen = [] from rfl, List.append_nil]
    · rw [hm.2.2.2.1]
      exact fun _ => ⟨by simp, rfl⟩
  case expand n => exact hmove rfl hc.foreseen fun _ => ⟨by simp, rfl⟩
  all_goals exact hmove rfl trivial (by simp [Stage.ahead])

namespace Covered

variable {task : Str} {draws : Nat} {s : RunState K W} {n : Nat}

/-- A live node above the depth cap, its parent explored, is expandable. -/
theorem expandable_of_live {st : Stage K} (h : Covered ctl children verdict task (st, s))
    (hr : Reach ctl rt task draws (st, s)) (hf : Foreseeable ctl rt children verdict)
    (hn : n < s.tree.arena.size) (hlive : (s.tree.arena.node n).isLive = true)
    (hdepth : (s.tree.arena.node n).depth < ctl.config.maxDepth) (hidle : st.unjudged = [])
    (hgrowing : ∀ p, st.growing = some p → p = n) :
    s.tree.arena.pathContents n ∈ expandables ctl.config children verdict task := by
  have hj := hr.judged
  rcases Nat.eq_zero_or_pos n with rfl | h0
  · rw [pathContents_root, show (s.tree.arena.node 0).content = task from h.root]
    exact root_mem_grow (by have := ctl.config.bounds; omega) _
  · have hpending : (s.tree.arena.node n).status ≠ .pending := fun hp => by
      have hm := hj.pending (hr.not_lost hf) n h0 hn hp
      rw [show (st, s).1.unjudged = [] from hidle] at hm
      cases hm
    obtain ⟨v, hv, hjudged⟩ := hj.verdict n h0 hn hpending
    have hstatus : verdictStatus ctl.config v = .evaluated := by
      rcases hjudged.status with hs | ⟨he, -⟩
      · exact verdictStatus_live (hs ▸ hlive)
      · exact he
    have hanswer : v = verdict (s.tree.arena.pathContents n) :=
      Except.ok.inj (h.answers _ hv).2
    rw [hanswer] at hstatus
    obtain ⟨p, hp, hlt, hps⟩ := exists_parent (Nat.pos_iff_ne_zero.mp h0) hn
    have hchild : n ∈ (s.tree.arena.node p).children := mem_children.mpr ⟨hn, hp⟩
    have hpg : p ∈ generatedIn s.log :=
      hr.explored.expanded p (List.ne_nil_of_mem hchild)
    have hcontents := (h.settled p hpg fun he => hlt.ne (hgrowing p he)).1
    have hcandidate : (s.tree.arena.node n).content ∈
        candidates ctl.config children (s.tree.arena.pathContents p) := by
      rw [← hcontents]
      exact List.mem_map.mpr ⟨n, hchild, rfl⟩
    rw [pathContents_child _ hn hp] at hstatus ⊢
    refine concat_mem_grow (h.expandable p hpg) ?_ ?_
    · exact List.mem_filter.mpr ⟨hcandidate, decide_eq_true hstatus⟩
    · rw [length_pathContents _ hps, List.length_singleton,
        ← s.tree.arena.linked.depth_eq n p hn hp]
      omega

/-- The candidates of a path node join the tree one by one. -/
theorem attach {content : Str} {rest seen : List Str} {batch : List Nat}
    (h : Covered ctl children verdict task (.attaching n (content :: rest) seen batch, s))
    (hi : Inv ctl rt (.attaching n (content :: rest) seen batch, s))
    (hne : Str.strip content ≠ []) (hnew : Str.strip content ∉ seen) {index : Dict Str Nat} :
    Covered ctl children verdict task
      (.attaching n rest (Str.strip content :: seen) (batch ++ [s.tree.arena.size]),
        s.grown s.tree.arena.size ⟨s.tree.arena.attachChild n (Str.strip content), index⟩) := by
  have hw := hi.working n rfl
  have halloc : n < s.tree.arena.size := hw.alloc
  obtain ⟨hkids, hcontents⟩ := h.foreseen
  have hsize := attachChild_size (Str.strip content) halloc
  have hold := fun x => attachChild_old (Str.strip content) halloc (x := x)
  have hlast := attachChild_new (Str.strip content) halloc
  have hpath := fun r => pathContents_attach_old (Str.strip content) halloc (r := r)
  generalize s.tree.arena.attachChild n (Str.strip content) = a at hsize hold hlast hpath
  have hcontent : ∀ x, x < s.tree.arena.size →
      (a.node x).content = (s.tree.arena.node x).content := fun x hx => by rw [hold x hx.ne]
  constructor
  case root => exact (hcontent 0 s.tree.arena.linked.nonempty).trans h.root
  case once => exact h.once
  case alloc =>
    intro m hm
    have hms : m < s.tree.arena.size := h.alloc m hm
    change m < a.size
    omega
  case answers =>
    intro p hp
    obtain ⟨hps, hanswer⟩ := h.answers p hp
    have hps : p.1 < s.tree.arena.size := hps
    change p.1 < a.size ∧ p.2 = .ok (verdict (a.pathContents p.1))
    rw [hpath p.1 hps]
    exact ⟨by omega, hanswer⟩
  case settled =>
    intro m hm hne
    have hmn : m ≠ n := fun he => hne (he ▸ rfl)
    have hms : m < s.tree.arena.size := h.alloc m hm
    obtain ⟨hmap, hpruned⟩ := h.settled m hm fun he => hmn (Option.some.inj he).symm
    change ((a.node m).children.map fun d => (a.node d).content) =
      candidates ctl.config children (a.pathContents m) ∧
        ((a.node m).children = [] → (a.node m).status = .pruned)
    rw [hpath m hms, hold m hms.ne, if_neg hmn, List.append_nil, ← hmap]
    refine ⟨List.map_congr_left fun d hd => ?_, hpruned⟩
    exact hcontent d (mem_children.mp hd).1
  case expandable =>
    intro m hm
    change a.pathContents m ∈ _
    rw [hpath m (h.alloc m hm)]
    exact h.expandable m hm
  case foreseen =>
    change (a.node n).children = _ ∧ _ ++ _ = candidates _ _ (a.pathContents n)
    rw [hold n halloc.ne, if_pos rfl, hkids, hpath n halloc, ← hcontents,
      freshTexts_kept (not_or.mpr ⟨hne, hnew⟩), List.map_append, List.append_assoc]
    refine ⟨rfl, ?_⟩
    congr 1
    · apply List.map_congr_left
      intro d hd
      exact hcontent d (hw.mem_alloc hd)
    · change [(a.node s.tree.arena.size).content] ++ _ = _
      rw [hlast]
      rfl
  case count => exact fun hne => h.count (by simp)

/-- Pruning one frontier node. -/
theorem prune {st st' : Stage K} (h : Covered ctl children verdict task (st, s))
    (hs : Sound ctl.config.maxDepth s.tree.arena) (hn : Frontier s.tree.arena n)
    (hgrowing : st.growing = none ∨ st.growing = some n ∧ (s.tree.arena.node n).children = [] ∧
      candidates ctl.config children (s.tree.arena.pathContents n) = [])
    (hforeseen : ∀ log a, st'.foreseen ctl.config children log a)
    (hcount : st ≠ .ended ∧ st.ahead = st'.ahead) :
    Covered ctl children verdict task (st', s.pruned n) := by
  have hself : ((s.pruned n).tree.arena.node n).status = .pruned := by
    change ((s.tree.arena.pruneSubtree n).1.node n).status = _
    rw [hn.pruneSubtree_eq hs, setStatus_node, if_pos rfl]
  refine h.move (sameLinks_pruneSubtree s.tree.arena n) rfl rfl ?_ ?_ (hforeseen _ _)
    fun _ => ⟨hcount.1, ?_⟩
  · intro m hm
    by_cases hmn : m = n
    · rw [hmn]
      exact hself
    · change ((s.tree.arena.pruneSubtree n).1.node m).status = _
      rwa [hn.pruneSubtree_eq hs, setStatus_node, if_neg hmn]
  · intro m _ hm _
    rcases hgrowing with hnone | ⟨hsome, hkids, hcandidates⟩
    · cases hnone.symm.trans hm
    · cases hsome.symm.trans hm
      rw [hkids, hcandidates]
      exact ⟨rfl, fun _ => hself⟩
  · rw [hcount.2]
    rfl

/-- A leaf that is still live was never handed to the generator. -/
theorem fresh_of_leaf {st : Stage K} (h : Covered ctl children verdict task (st, s))
    (hgrowing : st.growing = none) (hlive : (s.tree.arena.node n).isLive = true)
    (hleaf : (s.tree.arena.node n).children = []) : n ∉ generatedIn s.log := by
  intro hn
  have hne : st.growing ≠ some n := by simp [hgrowing]
  have hpruned := (h.settled n hn hne).2 hleaf
  rw [ThoughtNode.isLive, show (s.tree.arena.node n).status = .pruned from hpruned] at hlive
  cases hlive

/-- The generator is called on a new expandable path. -/
theorem generate {reply : Reply K W (List Str)} {texts : List Str}
    (h : Covered ctl children verdict task (.expanding n, s))
    (hr : Reach ctl rt task draws (.expanding n, s)) (hf : Foreseeable ctl rt children verdict)
    (hreply : reply = ctl.generator n ctl.config.branchingFactor s.tree.arena s.metadata s.world)
    (answer : reply.answer = .ok texts) : Covered ctl children verdict task
      (.attaching n (texts.take ctl.config.branchingFactor)
        ((s.tree.arena.node n).children.map fun c => (s.tree.arena.node c).content) [],
        s.consulted reply (.generate n ctl.config.branchingFactor reply.answer)) := by
  have hw := hr.inv.working n rfl
  obtain ⟨hkids, hfresh⟩ := h.foreseen
  have htexts : texts = children (s.tree.arena.pathContents n) := by
    rw [hreply, hf.generator] at answer
    exact (Except.ok.inj answer).symm
  constructor
  case root => exact h.root
  case once => exact List.nodup_cons.mpr ⟨hfresh, h.once⟩
  case alloc => exact List.forall_mem_cons.mpr ⟨hw.alloc, h.alloc⟩
  case answers => exact h.answers
  case settled =>
    intro m hm hne
    have hmn : m ≠ n := fun he => hne (he ▸ rfl)
    exact h.settled m ((List.mem_cons.mp hm).resolve_left hmn) (by simp [Stage.growing])
  case expandable =>
    refine List.forall_mem_cons.mpr ⟨?_, h.expandable⟩
    refine h.expandable_of_live hr hf hw.alloc hw.live hw.shallow rfl fun p hp => ?_
    cases hp
  case foreseen =>
    refine ⟨hkids, ?_⟩
    rw [htexts]
    change freshTexts _ ((s.tree.arena.node n).children.map _) = _
    rw [hkids]
    rfl
  case count =>
    have hcount : s.iteration = (generatedIn s.log).length + 1 := h.count (by simp)
    exact fun _ => hcount

/-- The evaluator answers what the candidate tree says. -/
theorem evaluate {c : Nat} {batch : List Nat} {results : List (Nat × Except Exc (Evaluation K))}
    {reply : Reply K W (Evaluation K)}
    (h : Covered ctl children verdict task (.collecting n batch results, s))
    (hf : Foreseeable ctl rt children verdict) (halloc : c < s.tree.arena.size)
    (hreply : reply = ctl.evaluator c s.tree.arena s.metadata s.world) :
    Covered ctl children verdict task (.collecting n batch (results ++ [(c, reply.answer)]),
      s.consulted reply (.evaluate c reply.answer)) := by
  refine ⟨h.root, h.once, h.alloc, ?_, h.settled, h.expandable, trivial, fun _ => h.count (by simp)⟩
  refine List.forall_mem_cons.mpr ⟨⟨halloc, ?_⟩, h.answers⟩
  rw [hreply]
  exact hf.evaluator ..

end Covered

/-- Every step of a foreseeable run stays inside the candidate tree. -/
theorem Step.covered {task : Str} {draws : Nat} {c c' : Stage K × RunState K W}
    (hs : Step ctl rt c c') (hr : Reach ctl rt task draws c)
    (hf : Foreseeable ctl rt children verdict) (h : Covered ctl children verdict task c) :
    Covered ctl children verdict task c' := by
  have hi := hr.inv
  cases hs with
  | advance edge h' quiet => exact edge.covered h' h
  | @advanceRaised s st st' target node detail e edge h' raised =>
    obtain ⟨sink, event, tree, world, hsink, hx, -⟩ := RunState.mirrored_raised ctl rt _ _ _ _ raised
    exact absurd hx (hf.sink sink hsink event tree world e)
  | refuse source target sink =>
    exact absurd (List.mem_of_head? sink) (hr.no_sinkRaised hf.sink _)
  | pollCancel event =>
    rw [hf.cancel] at event
    cases event
  | pollDeadline limit budget => exact absurd hf.deadline budget
  | stop condition | «continue» condition | stopRaised condition =>
    rw [hf.stop] at condition
    cases condition
  | revise _ _ _ hpolicy | reviseRaised _ _ _ hpolicy =>
    rw [hf.revision] at hpolicy
    cases hpolicy
  | generateRaised hreply answer =>
    rw [hreply, hf.generator] at answer
    cases answer
  | critiqueRaised hcritic hreply answer =>
    rw [hreply] at answer
    exact absurd answer (hf.critic _ hcritic _ _ _ _ _)
  | shapeRaised hmodel hreply answer =>
    rw [hreply] at answer
    exact absurd answer (hf.reward _ hmodel _ _ _ _ _ _ _)
  | collectRaised order earlier failure =>
    have hanswer := (h.answers _ (hr.verdictLedger.known _ failure)).2
    cases hanswer
  | cap alloc live leaf deep =>
    exact h.prune hi.sound (Inv.frontier_of_leaf alloc live leaf) (Or.inl rfl)
      (fun _ _ => trivial) ⟨by simp, rfl⟩
  | collapse =>
    exact h.prune hi.sound (hi.working _ rfl).frontier (Or.inl rfl) (fun _ _ => trivial)
      ⟨by simp, rfl⟩
  | retreat =>
    exact h.prune hi.sound (hi.working _ rfl).frontier (Or.inr ⟨rfl, h.foreseen⟩)
      (fun _ _ => trivial) ⟨by simp, rfl⟩
  | found alloc live leaf shallow =>
    exact h.move (.refl _) rfl rfl (fun _ hn => hn) (fun _ _ hn => by cases hn)
      ⟨leaf, h.fresh_of_leaf rfl live leaf⟩ fun _ => ⟨by simp, rfl⟩
  | generate hreply answer => exact h.generate hr hf hreply answer
  | skip dropped =>
    obtain ⟨hkids, hcontents⟩ := h.foreseen
    rw [freshTexts_dropped dropped] at hcontents
    exact h.move (.refl _) rfl rfl (fun _ hn => hn) (fun _ _ hn hne => absurd hn hne)
      ⟨hkids, hcontents⟩ fun _ => ⟨by simp, rfl⟩
  | @attach s n content rest seen batch c tree nonempty new added =>
    rw [ThoughtTree.addChild, if_pos (hi.indexed n (hi.working n rfl).alloc)] at added
    cases added
    exact h.attach hi nonempty new
  | evaluate pending fresh hreply =>
    exact h.evaluate hf ((hi.working _ rfl).mem_alloc pending) hreply
  | @judge s n d v todo solution values =>
    refine h.move (sameLinks_applyEvaluation s.tree.arena d v.score _ v.rationale) rfl rfl
      (fun m hm => ?_) (fun _ _ hn => by cases hn) trivial fun _ => ⟨by simp, rfl⟩
    -- the child that gets its verdict was still pending
    have hmd : m ≠ d := by
      rintro rfl
      have hpending := (hi.working n rfl).pending m (by simp [Stage.unjudged])
      cases hm.symm.trans hpending
    change ((s.tree.arena.applyEvaluation d v.score _ v.rationale).node m).status = _
    rwa [applyEvaluation_node, if_neg hmd]
  | @credit s n solution values =>
    have hcore := sameCore_backpropagate s.tree.arena values
    exact h.move hcore.toSameLinks rfl rfl (fun m hm => (hcore.status_eq m).trans hm)
      (fun _ _ hn => by cases hn) trivial fun _ => ⟨by simp, rfl⟩
  | _ =>
    exact h.move (.refl _) rfl rfl (fun _ hn => hn) (fun _ _ hn => by cases hn) trivial
      fun _ => ⟨by simp, rfl⟩

/-- A foreseeable run stays inside the candidate tree. -/
theorem Reach.covered {task : Str} {draws : Nat} {c : Stage K × RunState K W}
    (h : Reach ctl rt task draws c) (hf : Foreseeable ctl rt children verdict) :
    Covered ctl children verdict task c := by
  refine h.strengthen (P := Covered ctl children verdict task) (fun world => ?_)
    fun c c' hr hc hs => hs.covered hr hf hc
  constructor
  case root => rfl
  case once => exact .nil
  case foreseen => trivial
  case count => exact fun _ => rfl
  all_goals exact fun _ hn => absurd hn List.not_mem_nil

end CognitiveTree.Search
