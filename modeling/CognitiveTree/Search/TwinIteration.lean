import CognitiveTree.Search.Refinement
import CognitiveTree.Search.Twin

/-!
# An iteration in lockstep

Each method of the controller, run by two agreeing controllers from twin states, returns
or raises the same and ends in twin states, unless the first run has made a choice that
the second random stream would not have made.
-/

namespace CognitiveTree.Search

open Arena

variable {K W W' : Type} [PyFloat K] {α : Type}

/-- Deciding what a sink did from its reaction. -/
theorem RunState.mirrored_eq (ctl : TreeSearchController K W) (rt : Runtime K W) (s : RunState K W)
    (target : SearchPhase) (node : Option Nat) (detail : Str) :
    ((s.mirrored ctl rt target node detail).2 = none ∧ ∃ w,
      react ctl.onEvent ⟨s.iteration, target, node.map rt.freshId, detail⟩ s.tree s.world =
        (.ok (), w) ∧ (s.mirrored ctl rt target node detail).1 = s.inWorld w) ∨
    ∃ e w, (s.mirrored ctl rt target node detail).2 = some e ∧
      react ctl.onEvent ⟨s.iteration, target, node.map rt.freshId, detail⟩ s.tree s.world =
        (.error e, w) ∧
      (s.mirrored ctl rt target node detail).1 = (s.inWorld w).noted (.sinkRaised e) := by
  unfold mirrored react
  cases ctl.onEvent with
  | none => exact Or.inl ⟨rfl, s.world, rfl, rfl⟩
  | some sink =>
    dsimp only [Option.elim]
    generalize sink ⟨s.iteration, target, node.map rt.freshId, detail⟩ s.tree s.world = reaction
    obtain ⟨answer, w⟩ := reaction
    cases answer with
    | ok u => exact Or.inl ⟨rfl, w, rfl, rfl⟩
    | error e => exact Or.inr ⟨e, w, rfl, rfl, rfl⟩

section Lockstep

variable (R : W → W' → Prop) (offset : Nat) (watched : Prop) (ctl : TreeSearchController K W)
  (ctl' : TreeSearchController K W') (rt : Runtime K W) (rt' : Runtime K W')

/-- The first run has made a choice of its own. -/
abbrev Astray (s : RunState K W) : Prop :=
  Strays (rt.random ctl.config.seed) (rt'.random ctl'.config.seed) offset s.log

/-- Twin states with equal metadata and a property of the common tree. -/
abbrev TwinsOn (φ : Arena K → Prop) (s : RunState K W) (t : RunState K W') : Prop :=
  Twins R SameMetadata offset watched rt rt' s t ∧ φ s.tree.arena

end Lockstep

namespace Agreeing

variable {R : W → W' → Prop} {offset : Nat} {watched : Prop} {ctl : TreeSearchController K W}
  {ctl' : TreeSearchController K W'} {rt : Runtime K W} {rt' : Runtime K W'}
  {F : RunState K W → RunState K W' → Prop} {φ : Arena K → Prop}

section Calls

omit [PyFloat K] in
/-- The same observation on both sides keeps the watched calls equal. -/
theorem twins_cons [PyFloat K] {o : Obs K} {l l' : List (Obs K)}
    (h : watched → policyCalls l' = policyCalls l) :
    watched → policyCalls (o :: l') = policyCalls (o :: l) := by
  intro hw
  have he : l'.filter Obs.isPolicyCall = l.filter Obs.isPolicyCall := h hw
  change (o :: l').filter _ = (o :: l).filter _
  rw [List.filter_cons, List.filter_cons, he]

/-- A policy call kept as a value. -/
theorem attempt {call : Call K W α} {call' : Call K W' α} (hcall : CallsAgree R call call')
    (o : Except Exc α → Obs K) :
    Lockstep (Astray offset ctl ctl' rt rt') (TwinsOn R offset watched rt rt' φ)
      (attempt call o) (attempt call' o) (fun _ => TwinsOn R offset watched rt rt' φ)
      fun _ => F := by
  refine ⟨fun s hs => Strays.cons hs _, fun s t ⟨h, hφ⟩ => Or.inr ?_⟩
  have hr := hcall s.tree.arena s.metadata s.world t.world h.world
  have hargs : call' t.tree.arena t.metadata t.world = call' s.tree.arena s.metadata t.world := by
    rw [h.arena, h.metadata.symm]
  change (call s.tree.arena s.metadata s.world).answer = (call' t.tree.arena t.metadata t.world).answer ∧
    Twins R SameMetadata offset watched rt rt' (s.consulted (call s.tree.arena s.metadata s.world)
      (o (call s.tree.arena s.metadata s.world).answer))
      (t.consulted (call' t.tree.arena t.metadata t.world)
        (o (call' t.tree.arena t.metadata t.world).answer)) ∧ φ s.tree.arena
  rw [hargs, hr.answer]
  exact ⟨rfl, { h with
    footprint := hr.metadata.symm, world := hr.world, calls := twins_cons h.calls }, hφ⟩

/-- Both controllers ask the same policy, and are answered the same. -/
theorem consult {call : Call K W α} {call' : Call K W' α} (hcall : CallsAgree R call call')
    (o : Except Exc α → Obs K)
    (hF : ∀ s t, Twins R SameMetadata offset watched rt rt' s t → F s t) :
    Lockstep (Astray offset ctl ctl' rt rt') (TwinsOn R offset watched rt rt' φ)
      (consult call o) (consult call' o) (fun _ => TwinsOn R offset watched rt rt' φ)
      fun _ => F := by
  refine Lockstep.bind (attempt hcall o) fun answer => ?_
  cases answer with
  | ok a => exact Lockstep.pure a fun _ _ h => h
  | error e => exact Lockstep.throw _ fun s t h => hF s t h.1

end Calls

variable (hA : Agreeing R ctl ctl' rt rt')

include hA

/-- A transition and its notification. -/
theorem advance {M : Footprint K → Footprint K → Prop} (target : SearchPhase)
    (node : Option Nat) (detail : Str)
    (hF : ∀ s t, Twins R M offset watched rt rt' s t → F s t) :
    Lockstep (Astray offset ctl ctl' rt rt')
      (fun s t => Twins R M offset watched rt rt' s t ∧ φ s.tree.arena)
      (advance ctl rt target node detail) (advance ctl' rt' target node detail)
      (fun _ s t => Twins R M offset watched rt rt' s t ∧ φ s.tree.arena) fun _ => F := by
  constructor
  · intro s hs
    by_cases hcan : s.machine.canTransition target = true
    · have hlog := RunState.mirrored_log ctl rt (s.transitioned rt target node detail hcan) target
        node detail
      rw [advance_run ctl rt node detail hcan]
      have hb : Astray offset ctl ctl' rt rt' ((s.transitioned rt target node detail hcan).mirrored
          ctl rt target node detail).1 := by
        unfold Astray
        rw [hlog]
        cases ((s.transitioned rt target node detail hcan).mirrored ctl rt target node detail).2 with
        | none => exact Strays.cons hs _
        | some e => exact Strays.cons (Strays.cons hs _) _
      cases ((s.transitioned rt target node detail hcan).mirrored ctl rt target node detail).2 <;>
        exact hb
    · rw [advance_refused ctl rt node detail (Bool.not_eq_true _ ▸ hcan)]
      exact Strays.cons hs _
  · rintro s t ⟨h, hφ⟩
    right
    by_cases hcan : s.machine.canTransition target = true
    · have hcan' : t.machine.canTransition target = true := by
        rw [SearchStateMachine.canTransition, h.phase]
        exact hcan
      -- both machines record the same edge at their own time
      have hnext : Twins R M offset watched rt rt' (s.transitioned rt target node detail hcan)
          (t.transitioned rt' target node detail hcan') := by
        refine { h with phase := rfl, history := ?_, world := hA.clock _ _ h.world,
                        calls := ?_ }
        · change (t.machine.history ++ [_]).map _ = (s.machine.history ++ [_]).map _
          rw [List.map_append, List.map_append, h.history]
          simp only [List.map_cons, List.map_nil, PhaseTransition.untimed, h.phase]
        · intro hw
          exact h.calls hw
      have htree : (s.transitioned rt target node detail hcan).tree = s.tree := rfl
      have hsink := hA.sink s.iteration target node detail s.tree t.tree _ _ h.arena h.sameTree
        (hA.clock _ _ h.world)
      rw [advance_run ctl rt node detail hcan, advance_run ctl' rt' node detail hcan']
      rcases RunState.mirrored_eq ctl rt (s.transitioned rt target node detail hcan) target node
        detail with ⟨hnone, w, hw, hs⟩ | ⟨e, w, hsome, hw, hs⟩ <;>
      rcases RunState.mirrored_eq ctl' rt' (t.transitioned rt' target node detail hcan') target node
        detail with ⟨hnone', w', hw', ht⟩ | ⟨e', w', hsome', hw', ht⟩
      all_goals
        change react ctl.onEvent ⟨s.iteration, _, _, _⟩ s.tree _ = _ at hw
        change react ctl'.onEvent ⟨t.iteration, _, _, _⟩ t.tree _ = _ at hw'
        rw [h.iteration] at hw'
        change (react _ _ t.tree (rt'.monotonic t.world).2).1 =
          (react _ _ s.tree (rt.monotonic s.world).2).1 ∧ _ at hsink
        erw [hw, hw'] at hsink
        obtain ⟨hanswer, hworld⟩ := hsink
      · rw [hnone, hnone', hs, ht]
        exact ⟨rfl, hnext.inWorld hworld, hφ⟩
      · cases hanswer
      · cases hanswer
      · cases hanswer
        rw [hsome, hsome', hs, ht]
        exact ⟨rfl, hF _ _ ((hnext.inWorld hworld).noted rfl rfl)⟩
    · have hcan : s.machine.canTransition target = false := Bool.not_eq_true _ ▸ hcan
      have hcan' : t.machine.canTransition target = false := by
        rw [SearchStateMachine.canTransition, h.phase]
        exact hcan
      rw [advance_refused ctl rt node detail hcan, advance_refused ctl' rt' node detail hcan', h.phase]
      exact ⟨rfl, hF _ _ (h.noted rfl rfl)⟩

omit hA in
/-- A run that is astray stays so when it prunes. -/
theorem keeps_prune (n : Nat) : Keeps (Astray offset ctl ctl' rt rt') (prune n) :=
  Keeps.modify fun _ hs => Strays.cons hs _

omit hA in
/-- Both runs prune the same node. -/
theorem prune (n : Nat) :
    Lockstep (Astray offset ctl ctl' rt rt') (Twins R SameMetadata offset watched rt rt')
      (prune n) (prune n) (fun _ => Twins R SameMetadata offset watched rt rt') fun _ => F := by
  refine Lockstep.modify (keeps_prune n) fun s t h => ?_
  have hl := sameLinks_pruneSubtree s.tree.arena n
  have harena : (t.pruned n).tree.arena = (s.pruned n).tree.arena := by
    change (t.tree.arena.pruneSubtree n).1 = (s.tree.arena.pruneSubtree n).1
    rw [h.arena]
  refine { h with arena := harena, sameTree := fun hid => ?_,
                  indexed := fun r hr => h.indexed r (hl.size_eq ▸ hr),
                  indexed' := fun r hr => h.indexed' r ?_, calls := h.calls }
  · change t.tree.withArena _ = s.tree.withArena _
    rw [h.sameTree hid]
  rw [harena] at hr
  rw [h.arena]
  exact hl.size_eq ▸ hr

/-- The revision policy, if there is one. -/
theorem revise (n : Nat) (hF : ∀ s t, Twins R SameMetadata offset watched rt rt' s t → F s t) :
    Lockstep (Astray offset ctl ctl' rt rt') (TwinsOn R offset watched rt rt' φ)
      (revise ctl n) (revise ctl' n) (fun _ => TwinsOn R offset watched rt rt' φ)
      fun _ => F := by
  have h := hA.revisionPolicy
  unfold Search.revise
  generalize ctl.revisionPolicy = policy at h
  generalize ctl'.revisionPolicy = policy' at h
  cases h with
  | none => exact Lockstep.pure false fun _ _ h => h
  | some h => exact consult (h n) _ hF

section Pick

omit hA

/-- The whole choice in one step. -/
theorem pickChild_eq {live : List Nat} {s : RunState K W}
    (h : ∀ c ∈ live, ∃ p, (s.tree.arena.node c).parent = some p) :
    pickChild ctl rt live s =
      ((pickFrom (rt.random ctl.config.seed) live
        (live.map (uctOf ctl.config.explorationWeight s.tree.arena)) s.draws).elim
        (raise (valueError (lit "max() iterable argument is empty"))) pure : Run K W Nat)
        { s with
          draws := s.draws + live.length
          log := .pick live (live.map (uctOf ctl.config.explorationWeight s.tree.arena)) s.draws ::
            s.log } := by
  rw [pickChild, get_bind_run, bind_of_ok (childKeys_eq h)]
  have hscores : ((live.zip ((live.map (uctOf ctl.config.explorationWeight s.tree.arena)).zip
      ((List.range live.length).map fun i => rt.random ctl.config.seed (s.draws + i)))).map
        fun k => k.2.1) = live.map (uctOf ctl.config.explorationWeight s.tree.arena) := by
    rw [show (fun k : Nat × K × K => k.2.1) = Prod.fst ∘ Prod.snd from rfl, ← List.map_map,
      List.map_snd_zip (by simp), List.map_fst_zip (by simp)]
  rw [hscores, pickFrom]
  cases maxByKey PyFloat.pairGt (live.zip ((live.map (uctOf ctl.config.explorationWeight
    s.tree.arena)).zip ((List.range live.length).map fun i =>
      rt.random ctl.config.seed (s.draws + i)))) <;> rfl

/-- A run that is astray stays so when it ranks children. -/
theorem keeps_childKeys (live : List Nat) :
    Keeps (Astray offset ctl ctl' rt rt') (childKeys ctl rt live) := by
  induction live with
  | nil => exact Keeps.pure _
  | cons c cs ih =>
    refine Keeps.bind (Keeps.get_bind fun s hs => ?_) fun _ => Keeps.bind ih fun _ => Keeps.pure _
    dsimp only
    cases (s.tree.arena.node c).parent <;> exact hs

/-- A run that is astray stays so when it picks a child. -/
theorem keeps_pickChild (live : List Nat) :
    Keeps (Astray offset ctl ctl' rt rt') (pickChild ctl rt live) := by
  refine Keeps.get_bind fun s hs => Keeps.bind (keeps_childKeys live) (fun keys => ?_) s hs
  refine Keeps.bind (Keeps.modify fun s hs => Strays.cons hs _) fun _ => ?_
  cases maxByKey PyFloat.pairGt keys with
  | none => exact Keeps.throw _
  | some c => exact Keeps.pure c

end Pick

/-- Either the first run goes astray here, or both descend to the same child. -/
theorem pickChild (n : Nat) (hF : ∀ s t, Twins R SameMetadata offset watched rt rt' s t → F s t)
    (a : Arena K) : Lockstep (Astray offset ctl ctl' rt rt') (TwinsOn R offset watched rt rt' (· = a))
      (pickChild ctl rt (a.liveChildren n)) (pickChild ctl' rt' (a.liveChildren n))
      (fun c s t => TwinsOn R offset watched rt rt' (· = a) s t ∧ c ∈ a.liveChildren n)
      fun _ => F := by
  refine ⟨keeps_pickChild _, ?_⟩
  rintro s t ⟨h, rfl⟩
  have hparent : ∀ c ∈ s.tree.arena.liveChildren n, ∃ p, (s.tree.arena.node c).parent = some p :=
    fun c hc => ⟨n, (mem_children.mp (mem_liveChildren.mp hc).1).2⟩
  have hparent' : ∀ c ∈ s.tree.arena.liveChildren n, ∃ p, (t.tree.arena.node c).parent = some p := by
    rw [h.arena]
    exact hparent
  rw [pickChild_eq hparent, pickChild_eq hparent', h.arena, hA.explorationWeight]
  generalize hscores : (s.tree.arena.liveChildren n).map
    (uctOf ctl.config.explorationWeight s.tree.arena) = scores
  -- the RNG of the second run is `offset` draws behind
  have hposition : t.draws = s.draws - offset := by
    have := h.draws
    omega
  by_cases hchoice : pickFrom (rt.random ctl.config.seed) (s.tree.arena.liveChildren n) scores
      s.draws = pickFrom (rt'.random ctl'.config.seed) (s.tree.arena.liveChildren n) scores t.draws
  · right
    rw [← hchoice]
    have hnext : Twins R SameMetadata offset watched rt rt'
        { s with
          draws := s.draws + (s.tree.arena.liveChildren n).length
          log := .pick (s.tree.arena.liveChildren n) scores s.draws :: s.log }
        { t with
          draws := t.draws + (s.tree.arena.liveChildren n).length
          log := .pick (s.tree.arena.liveChildren n) scores t.draws :: t.log } := by
      refine { h with draws := ?_, calls := fun hw => h.calls hw }
      change s.draws + _ = t.draws + _ + offset
      rw [h.draws, Nat.add_right_comm]
    cases hpick : pickFrom (rt.random ctl.config.seed) (s.tree.arena.liveChildren n) scores
      s.draws with
    | none => exact ⟨rfl, hF _ _ hnext⟩
    | some c => exact ⟨rfl, ⟨hnext, rfl⟩, by
        have hm := maxByKey_mem hpick
        obtain ⟨k, hk, rfl⟩ := List.mem_map.mp hm
        exact (List.of_mem_zip hk).1⟩
  · left
    have hstray : Strays (rt.random ctl.config.seed) (rt'.random ctl'.config.seed) offset
        (.pick (s.tree.arena.liveChildren n) scores s.draws :: s.log) :=
      ⟨_, _, _, List.mem_cons_self .., hposition ▸ hchoice⟩
    cases pickFrom (rt.random ctl.config.seed) (s.tree.arena.liveChildren n) scores s.draws <;>
      exact hstray

/-- What the common descent found is a node of the tree. -/
def Landed : Descent → Arena K → Prop
  | .restart, _ => True
  | .found n _, a => n < a.size

/-- One descent. -/
theorem descend (fuel n : Nat) (hF : ∀ s t, Twins R SameMetadata offset watched rt rt' s t → F s t) :
    Lockstep (Astray offset ctl ctl' rt rt') (TwinsOn R offset watched rt rt' (n < ·.size))
      (descend ctl rt fuel n) (descend ctl' rt' fuel n)
      (fun d => TwinsOn R offset watched rt rt' (Landed d)) fun _ => F := by
  induction fuel generalizing n with
  | zero => exact Lockstep.throw _ fun s t h => hF s t h.1
  | succ fuel ih =>
    refine Lockstep.get_bind (fun s hs => ?_) ?_
    · refine Keeps.ite (Keeps.ite (Keeps.pure _) ?_) (Keeps.ite ?_ ?_) s hs
      · exact Keeps.bind (keeps_prune n) fun _ => Keeps.pure _
      · refine Keeps.bind (hA.revise (φ := fun _ => True) n hF).keeps fun granted => ?_
        cases granted with
        | true => exact Keeps.pure _
        | false => exact Keeps.bind (keeps_prune n) fun _ => Keeps.pure _
      · exact Keeps.bind (keeps_pickChild _) fun c => (ih c).keeps
    · rintro s t ⟨h, hn⟩
      rw [h.arena, hA.maxDepth]
      refine Lockstep.ite (fun hleaf => Lockstep.ite (fun hshallow => ?_) fun hdeep => ?_) fun hkids =>
        Lockstep.ite (fun hsat => ?_) fun hopen => ?_
      · refine Lockstep.pure _ ?_
        rintro _ _ ⟨rfl, rfl⟩
        exact ⟨h, hn⟩
      · refine Lockstep.bind ((prune n).pre ?_) fun _ => Lockstep.pure _ fun s t h => ⟨h, trivial⟩
        rintro _ _ ⟨rfl, rfl⟩
        exact h
      · refine Lockstep.bind ((hA.revise (φ := (n < ·.size)) n hF).pre ?_) fun granted => ?_
        · rintro _ _ ⟨rfl, rfl⟩
          exact ⟨h, hn⟩
        · cases granted with
          | true => exact Lockstep.pure _ fun _ _ h => h
          | false =>
            exact Lockstep.bind ((prune n).pre fun _ _ h => h.1) fun _ =>
              Lockstep.pure _ fun s t h => ⟨h, trivial⟩
      · refine Lockstep.bind ((hA.pickChild n hF s.tree.arena).pre ?_) fun c => (ih c).pre ?_
        · rintro _ _ ⟨rfl, rfl⟩
          exact ⟨h, rfl⟩
        · rintro s' t' ⟨⟨h', ha⟩, hc⟩
          refine ⟨h', ?_⟩
          rw [ha]
          exact (mem_children.mp (mem_liveChildren.mp hc).1).1

/-- Restarts until there is a node to expand or the root is dead. -/
theorem selectFrom (fuel : Nat) (hF : ∀ s t, Twins R SameMetadata offset watched rt rt' s t → F s t) :
    Lockstep (Astray offset ctl ctl' rt rt') (Twins R SameMetadata offset watched rt rt')
      (selectFrom ctl rt fuel) (selectFrom ctl' rt' fuel)
      (fun r => TwinsOn R offset watched rt rt' fun a => ∀ n revived, r = some (n, revived) →
        n < a.size) fun _ => F := by
  induction fuel with
  | zero => exact Lockstep.throw _ hF
  | succ fuel ih =>
    refine Lockstep.get_bind (fun s hs => ?_) fun s t h => ?_
    · refine Keeps.ite (Keeps.bind (hA.descend _ 0 hF).keeps fun d => ?_) (Keeps.pure _) s hs
      cases d with
      | restart => exact ih.keeps
      | found n revived => exact Keeps.pure _
    · rw [h.arena]
      refine Lockstep.ite (fun hlive => ?_) fun hdead => ?_
      · refine Lockstep.bind ((hA.descend _ 0 hF).pre ?_) fun d => ?_
        · rintro s _ ⟨rfl, rfl⟩
          exact ⟨h, s.tree.arena.linked.nonempty⟩
        · cases d with
          | restart => exact ih.pre fun _ _ h => h.1
          | found n revived =>
            refine Lockstep.pure _ fun s t h => ⟨h.1, ?_⟩
            rintro _ _ he
            cases he
            exact h.2
      · refine Lockstep.pure _ ?_
        rintro _ _ ⟨rfl, rfl⟩
        exact ⟨h, fun _ _ he => by cases he⟩

/-- Both runs select the same node. -/
theorem select (hF : ∀ s t, Twins R SameMetadata offset watched rt rt' s t → F s t) :
    Lockstep (Astray offset ctl ctl' rt rt') (Twins R SameMetadata offset watched rt rt')
      (select ctl rt) (select ctl' rt')
      (fun r => TwinsOn R offset watched rt rt' fun a => ∀ n revived, r = some (n, revived) →
        n < a.size) fun _ => F := by
  refine Lockstep.get_bind (fun s hs => ?_) fun s t h => ?_
  · exact Keeps.bind (Keeps.modify fun _ hs => Strays.cons hs _) (fun _ =>
      (hA.selectFrom _ hF).keeps) s hs
  · rw [h.arena]
    refine Lockstep.bind (Q := fun _ => Twins R SameMetadata offset watched rt rt')
      (Lockstep.modify (fun _ hs => Strays.cons hs _) ?_) fun _ => hA.selectFrom _ hF
    rintro _ _ ⟨rfl, rfl⟩
    exact h.noted rfl rfl

section Expansion

omit hA

/-- A child gets the next index of an indexed tree. -/
theorem addChild_eq {rt : Runtime K W} {s : RunState K W} {n : Nat} (h : Indexed rt s.tree)
    (hn : n < s.tree.arena.size) (content : Str) :
    Search.addChild rt n content s = .ok s.tree.arena.size (s.grown s.tree.arena.size
      ⟨s.tree.arena.attachChild n content,
        s.tree.index.set (rt.freshId s.tree.arena.size) s.tree.arena.size⟩) := by
  rw [Search.addChild, get_bind_run]
  simp only [ThoughtTree.addChild, if_pos (h n hn)]
  rfl

/-- The batch of one expansion: children of the node in the order of their creation. -/
structure Batch (n : Nat) (batch : List Nat) (a : Arena K) : Prop where
  parent : n < a.size
  sorted : batch.Pairwise (· < ·)
  children : ∀ c ∈ batch, c ∈ (a.node n).children

omit [PyFloat K] in
/-- The nodes of a batch are distinct. -/
theorem Batch.nodup {n : Nat} {batch : List Nat} {a : Arena K} (h : Batch n batch a) :
    batch.Nodup :=
  h.sorted.imp fun hlt => hlt.ne

/-- A fresh child joins its batch. -/
theorem Batch.attach {n : Nat} {batch : List Nat} {a : Arena K} (h : Batch n batch a)
    (content : Str) : Batch n (batch ++ [a.size]) (a.attachChild n content) where
  parent := by
    rw [attachChild_size content h.parent]
    exact Nat.lt_succ_of_lt h.parent
  sorted := by
    refine List.pairwise_append.mpr ⟨h.sorted, List.pairwise_singleton _ _, ?_⟩
    rintro c hc d hd
    rw [List.mem_singleton.mp hd]
    exact (mem_children.mp (h.children c hc)).1
  children := by
    intro c hc
    rw [attachChild_old content h.parent h.parent.ne, if_pos rfl]
    rcases List.mem_append.mp hc with hc | hc
    · exact List.mem_append_left _ (h.children c hc)
    · exact List.mem_append_right _ hc

/-- A run that is astray stays so when it attaches a child. -/
theorem keeps_addChild (n : Nat) (content : Str) :
    Keeps (Astray offset ctl ctl' rt rt') (addChild rt n content) := by
  refine Keeps.get_bind fun s hs => ?_
  cases s.tree.addChild rt.freshId n content <;> exact hs

/-- A run that is astray stays so when it attaches the candidates. -/
theorem keeps_attachAll (n : Nat) (todo seen : List Str) (batch : List Nat) :
    Keeps (Astray offset ctl ctl' rt rt') (attachAll rt n todo seen batch) := by
  induction todo generalizing seen batch with
  | nil => exact Keeps.pure _
  | cons content rest ih =>
    exact Keeps.ite (ih _ _) (Keeps.bind (keeps_addChild _ _) fun _ => ih _ _)

/-- The candidate loop builds the same batch on both sides. -/
theorem attachAll (n : Nat) (todo seen : List Str) (batch : List Nat) :
    Lockstep (Astray offset ctl ctl' rt rt') (TwinsOn R offset watched rt rt' (Batch n batch))
      (attachAll rt n todo seen batch) (attachAll rt' n todo seen batch)
      (fun batch' => TwinsOn R offset watched rt rt' (Batch n batch')) fun _ => F := by
  induction todo generalizing seen batch with
  | nil => exact Lockstep.pure _ fun _ _ h => h
  | cons content rest ih =>
    refine Lockstep.ite (fun hskip => ih seen batch) fun hnew => ?_
    have hkeeps : Keeps (Astray offset ctl ctl' rt rt') (Search.addChild rt n (Str.strip content) >>=
        fun c => Search.attachAll rt n rest (Str.strip content :: seen) (batch ++ [c])) :=
      Keeps.bind (keeps_addChild _ _) fun _ => keeps_attachAll _ _ _ _
    refine Lockstep.of_forall hkeeps ?_
    rintro s t ⟨h, hb⟩
    have hn' : n < t.tree.arena.size := h.arena ▸ hb.parent
    have ht := addChild_eq h.indexed' hn' (Str.strip content)
    rw [h.arena] at ht
    refine Lockstep.of_ok hkeeps (addChild_eq h.indexed hb.parent (Str.strip content)) ht (Or.inr ?_)
    refine (ih (Str.strip content :: seen) (batch ++ [s.tree.arena.size])).pre ?_
    rintro _ _ ⟨rfl, rfl⟩
    refine ⟨{ h with arena := rfl, sameTree := fun hid => ?_,
                     indexed := h.indexed.attach hb.parent _, indexed' := ?_, footprint := ?_,
                     calls := fun hw => h.calls hw }, hb.attach _⟩
    · change ThoughtTree.mk _ _ = ThoughtTree.mk _ _
      rw [h.sameTree hid, hid]
    · have hi := h.indexed'.attach hn' (Str.strip content)
      rw [h.arena] at hi
      exact hi
    · change (fun x => if x = _ then _ else s.metadata x) = fun x => if x = _ then _ else t.metadata x
      rw [h.metadata]

end Expansion

/-- `_expand` asks the generator for the same candidates. -/
theorem expand (n : Nat) (hF : ∀ s t, Twins R SameMetadata offset watched rt rt' s t → F s t) :
    Lockstep (Astray offset ctl ctl' rt rt') (TwinsOn R offset watched rt rt' (n < ·.size))
      (expand ctl rt n) (expand ctl' rt' n)
      (fun batch => TwinsOn R offset watched rt rt' (Batch n batch)) fun _ => F := by
  unfold Search.expand
  rw [hA.branchingFactor]
  refine Lockstep.bind (consult (hA.generator n _) _ hF) fun candidates => ?_
  refine Lockstep.get_bind (fun s hs => keeps_attachAll _ _ _ _ s hs) ?_
  rintro s t ⟨h, hn⟩
  rw [h.arena]
  refine (attachAll n _ _ []).pre ?_
  rintro _ _ ⟨rfl, rfl⟩
  exact ⟨h, hn, .nil, fun c hc => absurd hc List.not_mem_nil⟩

section Evaluation

omit hA in
/-- Both runs give the child the same verdict. -/
theorem applyVerdict (c : Nat) (v : Evaluation K) (status : NodeStatus) :
    Lockstep (Astray offset ctl ctl' rt rt') (Twins R SameMetadata offset watched rt rt')
      (applyVerdict c v status) (applyVerdict c v status)
      (fun _ => Twins R SameMetadata offset watched rt rt') fun _ => F := by
  refine Lockstep.modify (fun s hs => hs) fun s t h => ?_
  have harena : (t.judged c v status).tree.arena = (s.judged c v status).tree.arena := by
    change t.tree.arena.applyEvaluation c v.score status v.rationale =
      s.tree.arena.applyEvaluation c v.score status v.rationale
    rw [h.arena]
  refine { h with
    arena := harena, sameTree := fun hid => ?_, indexed := fun r hr => h.indexed r hr,
    indexed' := fun r hr => h.indexed' r hr, calls := fun hw => h.calls hw }
  change t.tree.withArena _ = s.tree.withArena _
  rw [h.sameTree hid]

/-- The critic sees the same rejected children. -/
theorem diagnose (c : Nat) (status : NodeStatus)
    (hF : ∀ s t, Twins R SameMetadata offset watched rt rt' s t → F s t) :
    Lockstep (Astray offset ctl ctl' rt rt') (Twins R SameMetadata offset watched rt rt')
      (diagnose ctl c status) (diagnose ctl' c status)
      (fun _ => Twins R SameMetadata offset watched rt rt') fun _ => F := by
  have h := hA.critic
  unfold Search.diagnose
  generalize ctl.critic = critic at h
  generalize ctl'.critic = critic' at h
  cases h with
  | none => exact Lockstep.pure _ fun _ _ h => h
  | some h =>
    refine Lockstep.ite (fun _ => ?_) fun _ => Lockstep.pure _ fun _ _ h => h
    refine Lockstep.bind ((consult (φ := fun _ => True) (h c) _ hF).pre fun _ _ h => ⟨h, trivial⟩)
      fun critique => ?_
    cases critique with
    | none => exact Lockstep.pure _ fun _ _ h => h.1
    | some k =>
      refine Lockstep.bind (Q := fun _ => Twins R SameMetadata offset watched rt rt')
        (Lockstep.modify (fun s hs => hs) fun s t h => ?_) fun _ => Lockstep.pure _ fun _ _ h => h
      refine { h.1 with footprint := ?_, calls := fun hw => h.1.calls hw }
      change (fun x => if x = c then Dict.set (s.metadata x) _ _ else s.metadata x) =
        fun x => if x = c then Dict.set (t.metadata x) _ _ else t.metadata x
      rw [h.1.metadata]

/-- Both runs credit the same value. -/
theorem shapeValue (c : Nat) (score : K) (critique : Option (Critique K))
    (hF : ∀ s t, Twins R SameMetadata offset watched rt rt' s t → F s t) :
    Lockstep (Astray offset ctl ctl' rt rt') (Twins R SameMetadata offset watched rt rt')
      (shapeValue ctl c score critique) (shapeValue ctl' c score critique)
      (fun _ => Twins R SameMetadata offset watched rt rt') fun _ => F := by
  have h := hA.rewardModel
  unfold Search.shapeValue
  generalize ctl.rewardModel = model at h
  generalize ctl'.rewardModel = model' at h
  cases h with
  | none => exact Lockstep.pure _ fun _ _ h => h
  | some h =>
    exact ((consult (φ := fun _ => True) (h c score critique) _ hF).pre fun _ _ h =>
      ⟨h, trivial⟩).post fun _ _ _ h => h.1

/-- The verdict loop does the same with the same verdicts. -/
theorem judge (children : List Nat) (verdicts : List (Evaluation K)) (solution : Option Nat)
    (valued : List (Nat × K)) (hF : ∀ s t, Twins R SameMetadata offset watched rt rt' s t → F s t) :
    Lockstep (Astray offset ctl ctl' rt rt') (Twins R SameMetadata offset watched rt rt')
      (judge ctl children verdicts solution valued) (judge ctl' children verdicts solution valued)
      (fun _ => Twins R SameMetadata offset watched rt rt') fun _ => F := by
  induction children generalizing verdicts solution valued with
  | nil =>
    cases verdicts with
    | nil => exact Lockstep.pure _ fun _ _ h => h
    | cons v vs => exact Lockstep.throw _ hF
  | cons c cs ih =>
    cases verdicts with
    | nil => exact Lockstep.throw _ hF
    | cons v vs =>
      unfold Search.judge
      rw [hA.verdictStatus v]
      exact Lockstep.bind (applyVerdict c v _) fun _ => Lockstep.bind (hA.diagnose c _ hF) fun k =>
        Lockstep.bind (hA.shapeValue c v.score k hF) fun value => ih vs _ _

omit hA in
/-- Both runs credit the same values to the same paths. -/
theorem backpropagate (valued : List (Nat × K)) :
    Lockstep (Astray offset ctl ctl' rt rt') (Twins R SameMetadata offset watched rt rt')
      (backpropagate valued) (backpropagate valued)
      (fun _ => Twins R SameMetadata offset watched rt rt') fun _ => F := by
  refine Lockstep.modify (fun s hs => Strays.cons hs _) fun s t h => ?_
  have hcore := sameCore_backpropagate s.tree.arena valued
  have harena : (t.credited valued).tree.arena = (s.credited valued).tree.arena := by
    change backpropagateArena t.tree.arena valued = backpropagateArena s.tree.arena valued
    rw [h.arena]
  refine { h with arena := harena, sameTree := fun hid => ?_,
                  indexed := fun r hr => h.indexed r (hcore.size_eq ▸ hr),
                  indexed' := fun r hr => h.indexed' r ?_, calls := fun hw => h.calls hw }
  · change t.tree.withArena _ = s.tree.withArena _
    rw [h.sameTree hid]
  rw [harena] at hr
  rw [h.arena]
  exact hcore.size_eq ▸ hr

end Evaluation

section Iteration

variable (hF : ∀ s t, Twins R SameMetadata offset watched rt rt' s t → F s t)
  (hcollect : ∀ n batch, Lockstep (Astray offset ctl ctl' rt rt')
    (TwinsOn R offset watched rt rt' (Batch n batch)) (collectVerdicts ctl rt batch)
    (collectVerdicts ctl' rt' batch) (fun _ => Twins R SameMetadata offset watched rt rt') fun _ => F)

include hF

/-- An `_advance` of the main loop. -/
theorem step (target : SearchPhase) (node : Option Nat) (detail : Str) :
    Lockstep (Astray offset ctl ctl' rt rt') (Twins R SameMetadata offset watched rt rt')
      (Search.advance ctl rt target node detail) (Search.advance ctl' rt' target node detail)
      (fun _ => Twins R SameMetadata offset watched rt rt') fun _ => F :=
  ((hA.advance (φ := fun _ => True) target node detail hF).pre fun _ _ h => ⟨h, trivial⟩).post
    fun _ _ _ h => h.1

/-- Both runs reopen the same node. -/
theorem reopen (n : Nat) (revived : Bool) :
    Lockstep (Astray offset ctl ctl' rt rt') (TwinsOn R offset watched rt rt' φ)
      (reopen ctl rt n revived) (reopen ctl' rt' n revived)
      (fun _ => TwinsOn R offset watched rt rt' φ) fun _ => F :=
  Lockstep.ite (fun _ => Lockstep.bind (hA.advance _ _ _ hF) fun _ => hA.advance _ _ _ hF)
    fun _ => Lockstep.pure _ fun _ _ h => h

/-- Both runs back off from the same node. -/
theorem backtrack (n : Nat) :
    Lockstep (Astray offset ctl ctl' rt rt') (Twins R SameMetadata offset watched rt rt')
      (backtrack ctl rt n) (backtrack ctl' rt' n)
      (fun _ => Twins R SameMetadata offset watched rt rt') fun _ => F :=
  Lockstep.bind (hA.step hF _ _ _) fun _ => Lockstep.bind (prune n) fun _ =>
    Lockstep.bind (hA.step hF _ _ _) fun _ => Lockstep.pure _ fun _ _ h => h

/-- Both runs end with the same solution. -/
theorem conclude (solution : Option Nat) :
    Lockstep (Astray offset ctl ctl' rt rt') (Twins R SameMetadata offset watched rt rt')
      (conclude ctl rt solution) (conclude ctl' rt' solution)
      (fun _ => Twins R SameMetadata offset watched rt rt') fun _ => F := by
  cases solution with
  | none => exact Lockstep.bind (hA.step hF _ _ _) fun _ => Lockstep.pure _ fun _ _ h => h
  | some c =>
    refine Lockstep.get_bind (fun s hs => ?_) fun s t h => ?_
    · exact Keeps.bind (hA.step hF _ _ _).keeps (fun _ => Keeps.pure _) s hs
    · rw [h.arena]
      refine Lockstep.bind ((hA.step hF _ _ _).pre ?_) fun _ => Lockstep.pure _ fun _ _ h => h
      rintro _ _ ⟨rfl, rfl⟩
      exact h

include hcollect

/-- Both runs judge the same batch the same. -/
theorem evaluate (n : Nat) (batch : List Nat) :
    Lockstep (Astray offset ctl ctl' rt rt') (TwinsOn R offset watched rt rt' (Batch n batch))
      (evaluate ctl rt batch) (evaluate ctl' rt' batch)
      (fun _ => Twins R SameMetadata offset watched rt rt') fun _ => F :=
  Lockstep.bind (hcollect n batch) fun vs => hA.judge batch vs none [] hF

/-- Both runs do the same with the batch they judged. -/
theorem assess (n : Nat) (batch : List Nat) :
    Lockstep (Astray offset ctl ctl' rt rt') (TwinsOn R offset watched rt rt' (Batch n batch))
      (assess ctl rt n batch) (assess ctl' rt' n batch)
      (fun _ => Twins R SameMetadata offset watched rt rt') fun _ => F :=
  Lockstep.bind (hA.advance (φ := Batch n batch) _ _ _ hF) fun _ =>
    Lockstep.bind (hA.evaluate hF hcollect n batch)
    fun r => Lockstep.bind (hA.step hF _ _ _) fun _ => Lockstep.bind (backpropagate r.2)
      fun _ => hA.conclude hF r.1

/-- Both runs do the same with the node they selected. -/
theorem workOn (n : Nat) :
    Lockstep (Astray offset ctl ctl' rt rt') (TwinsOn R offset watched rt rt' (n < ·.size))
      (workOn ctl rt n) (workOn ctl' rt' n)
      (fun _ => Twins R SameMetadata offset watched rt rt') fun _ => F :=
  Lockstep.bind (hA.advance (φ := (n < ·.size)) _ _ _ hF) fun _ =>
    Lockstep.bind (hA.expand n hF) fun batch =>
    Lockstep.ite (fun _ => (hA.backtrack hF n).pre fun _ _ h => h.1) fun _ =>
      hA.assess hF hcollect n batch

/-- One iteration in lockstep. -/
theorem iterate :
    Lockstep (Astray offset ctl ctl' rt rt') (Twins R SameMetadata offset watched rt rt')
      (iterate ctl rt) (iterate ctl' rt')
      (fun _ => Twins R SameMetadata offset watched rt rt') fun _ => F := by
  refine Lockstep.bind (Q := fun _ => Twins R SameMetadata offset watched rt rt')
    (Lockstep.modify (fun s hs => hs) fun s t h => ?_) fun _ =>
      Lockstep.bind (hA.select hF) fun r => ?_
  · exact { h with iteration := congrArg (· + 1) h.iteration, calls := fun hw => h.calls hw }
  · cases r with
    | none =>
      exact Lockstep.bind ((hA.step hF _ _ _).pre fun _ _ h => h.1) fun _ =>
        Lockstep.pure _ fun _ _ h => h
    | some opened =>
      obtain ⟨n, revived⟩ := opened
      exact Lockstep.bind ((hA.reopen (φ := (n < ·.size)) hF n revived).pre fun _ _ h =>
        ⟨h.1, h.2 n revived rfl⟩) fun _ => hA.workOn hF hcollect n

end Iteration

end Agreeing

end CognitiveTree.Search
