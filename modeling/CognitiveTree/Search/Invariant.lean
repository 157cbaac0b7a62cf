import CognitiveTree.Search.Control
import CognitiveTree.Search.Shape

/-!
# The controller invariant

`Inv` says what holds at every control point of a run: the machine is in the phase
the control point belongs to, the tree is sound, every node is in the index, and
the node an iteration works on is in order together with its batch.
-/

namespace CognitiveTree.Search

open Arena

variable {K W : Type} [PyFloat K]

namespace Stage

/-- The node the current iteration works on. -/
def focus : Stage K → Option Nat
  | .refused n | .opened n _ | .reviving n | .expanding n | .attaching n _ _ _ | .barren n
  | .collecting n _ _ | .judging n _ _ _ | .diagnosing n _ _ _ _ _ | .shaping n _ _ _ _ _ _
  | .propagating n _ _ => some n
  | .starting | .boundary | .halting _ _ | .selecting | .retreated | .settled _ _ | .faulted _
  | .ended => none

/-- Its new children, until their values are backpropagated. -/
def batch : Stage K → List Nat
  | .attaching _ _ _ batch => batch
  | .collecting _ batch _ => batch
  | .judging _ todo _ valued => valued.map Prod.fst ++ todo.map Prod.fst
  | .diagnosing _ c _ todo _ valued => valued.map Prod.fst ++ c :: todo.map Prod.fst
  | .shaping _ c _ _ todo _ valued => valued.map Prod.fst ++ c :: todo.map Prod.fst
  | .propagating _ _ valued => valued.map Prod.fst
  | _ => []

/-- The children of the batch whose verdict is not stored yet. -/
def unjudged : Stage K → List Nat
  | .attaching _ _ _ batch => batch
  | .collecting _ batch _ => batch
  | .judging _ todo _ _ => todo.map Prod.fst
  | .diagnosing _ _ _ todo _ _ => todo.map Prod.fst
  | .shaping _ _ _ _ todo _ _ => todo.map Prod.fst
  | _ => []

/-- The phase the machine is in at a control point. -/
def agrees : Stage K → SearchPhase → Prop
  | .starting, p => p = .idle
  | .halting target _, p => p = .selection ∧ target ∈ [.cancelled, .timedOut, .budgetExhausted]
  | .boundary, p | .selecting, p | .refused _, p | .opened _ _, p => p = .selection
  | .reviving _, p | .barren _, p | .retreated, p => p = .backtracking
  | .expanding _, p | .attaching _ _ _ _, p => p = .expansion
  | .collecting _ _ _, p | .judging _ _ _ _, p | .diagnosing _ _ _ _ _ _, p
  | .shaping _ _ _ _ _ _ _, p => p = .evaluation
  | .propagating _ _ _, p | .settled _ _, p => p = .backpropagation
  | .faulted _, p => p.isTerminal = false
  | .ended, p => p.isTerminal = true

/-- The candidate loop has seen the contents of all children. -/
def knows : Stage K → Arena K → Prop
  | .attaching n _ seen _, a => ∀ c ∈ (a.node n).children, (a.node c).content ∈ seen
  | _, _ => True

/-- Away from the end the machine can still fail. -/
theorem agrees_nonterminal {st : Stage K} {p : SearchPhase} (h : st.agrees p)
    (hst : st ≠ .ended) : p.isTerminal = false := by
  cases st
  case ended => exact absurd rfl hst
  case faulted => exact h
  case halting =>
    obtain ⟨rfl, -⟩ := h
    rfl
  all_goals
    cases h
    rfl

end Stage

variable {ctl : TreeSearchController K W} {rt : Runtime K W}

/-- Every call of `_advance` asks for an edge of the table and enters the phase of
the next control point. -/
theorem Edge.legal {s : RunState K W} {st st' : Stage K} {target node detail}
    (edge : Edge ctl s st target node detail st') {p : SearchPhase} (h : st.agrees p) :
    target ∈ p.transitions ∧ st'.agrees target := by
  cases edge
  case halt =>
    obtain ⟨rfl, hm⟩ := h
    simp only [List.mem_cons, List.not_mem_nil, or_false] at hm
    rcases hm with rfl | rfl | rfl <;> exact ⟨by decide, rfl⟩
  case failed => exact ⟨SearchPhase.failed_mem_transitions h, rfl⟩
  all_goals
    cases h
    exact ⟨by decide, rfl⟩

/-- The call sites of `_advance` hand over the focus and the batch unchanged or drop them. -/
theorem Edge.focus {s : RunState K W} {st st' : Stage K} {target node detail}
    (edge : Edge ctl s st target node detail st') : st'.focus = none ∨
      st'.focus = st.focus ∧ st'.batch = st.batch ∧ st'.unjudged = st.unjudged := by
  cases edge
  case valued => simp [Stage.focus, Stage.batch, Stage.unjudged]
  all_goals first | exact Or.inl rfl | exact Or.inr ⟨rfl, rfl, rfl⟩

theorem Edge.knows {s : RunState K W} {st st' : Stage K} {target node detail}
    (edge : Edge ctl s st target node detail st') (a : Arena K) : st'.knows a := by
  cases edge <;> trivial

variable (ctl rt)

/-- What holds at every control point of a run. -/
structure Inv (c : Stage K × RunState K W) : Prop where
  phase : c.1.agrees c.2.machine.phase
  sound : Sound ctl.config.maxDepth c.2.tree.arena
  indexed : ∀ r, r < c.2.tree.arena.size → c.2.tree.index.contains (rt.freshId r) = true
  working : ∀ n, c.1.focus = some n →
    Working ctl.config.maxDepth c.2.tree.arena n c.1.batch c.1.unjudged
  knows : c.1.knows c.2.tree.arena

variable {ctl rt}

namespace Inv

variable {s s' : RunState K W} {st st' : Stage K}

/-- A step that leaves the tree and the machine alone. -/
theorem move (hi : Inv ctl rt (st, s)) (htree : s'.tree = s.tree)
    (hphase : st'.agrees s'.machine.phase)
    (hworking : ∀ n, st'.focus = some n →
      Working ctl.config.maxDepth s.tree.arena n st'.batch st'.unjudged)
    (hknows : st'.knows s.tree.arena) : Inv ctl rt (st', s') where
  phase := hphase
  sound := by
    simp only [htree]
    exact hi.sound
  indexed := by
    simp only [htree]
    exact hi.indexed
  working := by
    simp only [htree]
    exact hworking
  knows := by
    simp only [htree]
    exact hknows

/-- A step that only hands the same focus and batch on. -/
theorem stay (hi : Inv ctl rt (st, s)) (htree : s'.tree = s.tree)
    (hphase : st'.agrees s'.machine.phase)
    (hfocus : st'.focus = none ∨
      st'.focus = st.focus ∧ st'.batch = st.batch ∧ st'.unjudged = st.unjudged)
    (hknows : st'.knows s.tree.arena) : Inv ctl rt (st', s') := by
  refine hi.move htree hphase (fun n hn => ?_) hknows
  rcases hfocus with hnone | ⟨hf, hb, hu⟩
  · rw [hnone] at hn
    cases hn
  · rw [hb, hu]
    exact hi.working n (hf ▸ hn)

/-- An exception leads to the handler with the tree as it is. -/
theorem fault (hi : Inv ctl rt (st, s)) (htree : s'.tree = s.tree)
    (hmachine : s'.machine = s.machine) (hst : st ≠ .ended) (e : Exc) :
    Inv ctl rt (.faulted e, s') :=
  hi.stay htree (by rw [hmachine]; exact Stage.agrees_nonterminal hi.phase hst) (Or.inl rfl) trivial

omit [PyFloat K] in
/-- A saturated or leaf node met by the descent is on the frontier. -/
theorem frontier_of_saturated {a : Arena K} {n : Nat} (alloc : n < a.size)
    (live : (a.node n).isLive = true) (h : a.liveChildren n = []) : Frontier a n := by
  refine ⟨alloc, live, fun c hc => ?_⟩
  cases hl : (a.node c).status.isLive with
  | false => rfl
  | true => exact absurd (h ▸ mem_liveChildren.mpr ⟨hc, hl⟩) List.not_mem_nil

omit [PyFloat K] in
theorem frontier_of_leaf {a : Arena K} {n : Nat} (alloc : n < a.size)
    (live : (a.node n).isLive = true) (h : (a.node n).children = []) : Frontier a n :=
  frontier_of_saturated alloc live (by rw [liveChildren, h]; rfl)

omit [PyFloat K] in
/-- A node with children is above the depth cap. -/
theorem shallow_of_children {maxDepth : Nat} {a : Arena K} {n : Nat} (hs : Sound maxDepth a)
    (h : (a.node n).children ≠ []) : (a.node n).depth < maxDepth := by
  obtain ⟨c, hc⟩ := List.exists_mem_of_ne_nil _ h
  obtain ⟨hcs, hcp⟩ := mem_children.mp hc
  have hd := a.linked.depth_eq c n hcs hcp
  have := hs.depth_le c hcs
  omega

/-- Pruning a frontier node keeps the invariant at a control point without focus. -/
theorem prune (hi : Inv ctl rt (st, s)) {n : Nat} (hn : Frontier s.tree.arena n)
    (hphase : st'.agrees s.machine.phase) (hfocus : st'.focus = none)
    (hknows : ∀ a, st'.knows a) : Inv ctl rt (st', s.pruned n) where
  phase := hphase
  sound := hn.sound_prune hi.sound
  indexed r hr := hi.indexed r ((sameLinks_pruneSubtree s.tree.arena n).size_eq ▸ hr)
  working m hm := by
    rw [hfocus] at hm
    cases hm
  knows := hknows _

end Inv

/-- Every step keeps the invariant. -/
theorem Step.inv {c c' : Stage K × RunState K W} (hs : Step ctl rt c c')
    (hi : Inv ctl rt c) : Inv ctl rt c' := by
  cases hs with
  | @advance s st st' target node detail edge legal quiet =>
    have hm := RunState.mirrored_fields ctl rt (s.transitioned rt target node detail legal)
      target node detail
    refine hi.stay hm.1 ?_ edge.focus (edge.knows _)
    rw [hm.2.1]
    exact (edge.legal hi.phase).2
  | @advanceRaised s st st' target node detail e edge legal raised =>
    have hm := RunState.mirrored_fields ctl rt (s.transitioned rt target node detail legal)
      target node detail
    have hagrees := (edge.legal hi.phase).2
    refine hi.stay hm.1 ?_ ?_ ?_
    · rw [hm.2.1]
      cases st' with
      | ended => exact hagrees
      | _ => exact Stage.agrees_nonterminal hagrees (by simp)
    · cases st' <;> exact Or.inl rfl
    · cases st' <;> trivial
  | refuse | mark | «continue» => exact hi.stay rfl hi.phase (Or.inl rfl) trivial
  | pollCancel =>
    refine hi.stay rfl ?_ ?_ ?_ <;> split
    · exact ⟨hi.phase, by simp⟩
    · exact hi.phase
    · exact Or.inl rfl
    · exact Or.inl rfl
    · trivial
    · trivial
  | pollDeadline =>
    refine hi.stay rfl ?_ ?_ ?_ <;> split
    · exact ⟨hi.phase, by simp⟩
    · exact hi.phase
    · exact Or.inl rfl
    · exact Or.inl rfl
    · trivial
    · trivial
  | stop => exact hi.stay rfl ⟨hi.phase, by simp⟩ (Or.inl rfl) trivial
  | stopRaised | reviseRaised | generateRaised | critiqueRaised | shapeRaised | collectRaised =>
    refine hi.fault ?_ ?_ (by simp) _ <;> rfl
  | begin | pick => exact hi.stay rfl hi.phase (Or.inl rfl) trivial
  | cap alloc live leaf _ =>
    exact hi.prune (Inv.frontier_of_leaf alloc live leaf) hi.phase rfl fun _ => trivial
  | found alloc live leaf shallow =>
    refine hi.move rfl hi.phase (fun n hn => ?_) trivial
    cases hn
    exact .of_frontier (Inv.frontier_of_leaf alloc live leaf) shallow
  | unrevised alloc live saturated _ =>
    refine hi.move rfl hi.phase (fun n hn => ?_) trivial
    cases hn
    exact .of_frontier (Inv.frontier_of_saturated alloc live saturated.2)
      (Inv.shallow_of_children hi.sound saturated.1)
  | @revise s n policy reply granted alloc live saturated _ _ _ =>
    have hw := Working.of_frontier (Inv.frontier_of_saturated alloc live saturated.2)
      (Inv.shallow_of_children hi.sound saturated.1)
    cases granted <;>
      exact hi.move rfl hi.phase (fun m hm => by cases hm; exact hw) trivial
  | collapse =>
    exact hi.prune (hi.working _ rfl).frontier hi.phase rfl fun _ => trivial
  | generate =>
    exact hi.move rfl hi.phase (fun m hm => by cases hm; exact hi.working _ rfl)
      fun c hc => List.mem_map_of_mem hc
  | skip =>
    exact hi.move rfl hi.phase (fun m hm => by cases hm; exact hi.working _ rfl) hi.knows
  | @attach s n content rest seen batch c tree nonempty new added =>
    have hw := hi.working n rfl
    rw [ThoughtTree.addChild, if_pos (hi.indexed n hw.alloc)] at added
    cases added
    have hsize := attachChild_size (Str.strip content) hw.alloc
    have hnew : ∀ c ∈ (s.tree.arena.node n).children,
        (s.tree.arena.node c).content ≠ Str.strip content :=
      fun c hc he => new (he ▸ hi.knows c hc)
    refine ⟨hi.phase, hw.sound_attach hi.sound nonempty (Str.strip_strip content) hnew, ?_, ?_, ?_⟩
    · intro r hr
      change r < (s.tree.arena.attachChild n (Str.strip content)).size at hr
      change Dict.contains (Dict.set s.tree.index _ _) _ = true
      rw [Dict.contains, Dict.get?_set]
      split
      · rfl
      · rename_i hne
        have hlt : r < s.tree.arena.size := by
          rcases Nat.lt_succ_iff_lt_or_eq.mp (hsize ▸ hr) with h | h
          · exact h
          · exact absurd (by rw [h]) hne
        exact hi.indexed r hlt
    · intro m hm
      cases hm
      exact hw.attach
    · intro c hc
      change c ∈ ((s.tree.arena.attachChild n (Str.strip content)).node n).children at hc
      change ((s.tree.arena.attachChild n (Str.strip content)).node c).content ∈ _
      by_cases hce : c = s.tree.arena.size
      · rw [hce, attachChild_new _ hw.alloc]
        exact List.mem_cons_self ..
      · rw [attachChild_old _ hw.alloc hce]
        rw [attachChild_old _ hw.alloc (by have := hw.alloc; omega), if_pos rfl,
          List.mem_append, List.mem_singleton] at hc
        exact List.mem_cons_of_mem _ (hi.knows c (hc.resolve_right hce))
  | retreat =>
    exact hi.prune (hi.working _ rfl).frontier hi.phase rfl fun _ => trivial
  | evaluate =>
    exact hi.move rfl hi.phase (fun m hm => by cases hm; exact hi.working _ rfl) trivial
  | collected order _ =>
    refine hi.move rfl hi.phase (fun m hm => ?_) trivial
    cases hm
    simpa [Stage.batch, Stage.unjudged, order] using hi.working _ rfl
  | judge =>
    have hw := hi.working _ rfl
    refine ⟨hi.phase, hw.sound_judge hi.sound (hw.subset _ (List.mem_cons_self ..)) _ _ _,
      hi.indexed, ?_, trivial⟩
    intro m hm
    cases hm
    exact hw.judge _ _ _
  | unexamined | uncritiqued | critiqued =>
    exact hi.move rfl hi.phase (fun m hm => by cases hm; exact hi.working _ rfl) trivial
  | unshaped | shape =>
    refine hi.move rfl hi.phase (fun m hm => ?_) trivial
    cases hm
    have hw := hi.working _ rfl
    simpa [Stage.batch, Stage.unjudged] using hw
  | @credit s n solution values =>
    have hcore := sameCore_backpropagate s.tree.arena values
    exact ⟨hi.phase, hi.sound.congr hcore, fun r hr => hi.indexed r (hcore.size_eq ▸ hr),
      (fun m hm => by cases hm), trivial⟩

/-- The tree of a new run is sound. -/
theorem sound_single (maxDepth : Nat) (content : Str) :
    Sound maxDepth (.single content : Arena K) := by
  have hsize : (Arena.single content : Arena K).size = 1 := rfl
  constructor
  case depth_le => intro r _; exact Nat.zero_le _
  case content_ne => intro r h0 hr; omega
  case content_strip => intro r h0 hr; omega
  case siblings => intro p c d hc; cases hc
  case live_parent => intro r p _ hp; cases hp

namespace Reach

variable {task : Str} {draws : Nat} {c : Stage K × RunState K W}

theorem inv (h : Reach ctl rt task draws c) : Inv ctl rt c := by
  refine h.invariant (fun world => ?_) fun c c' hc hs => hs.inv hc
  refine ⟨rfl, sound_single _ _, fun r hr => ?_, fun n hn => (by cases hn), trivial⟩
  have hr0 : r = 0 := Nat.lt_one_iff.mp hr
  subst hr0
  simp [startState, ThoughtTree.new, Dict.contains, Dict.get?]

/-- Invariants may be proved for reachable configurations only. -/
theorem strengthen {P : Stage K × RunState K W → Prop}
    (initial : ∀ world, P (.starting, startState rt task draws world))
    (preserved : ∀ c c', Reach ctl rt task draws c → P c → Step ctl rt c c' → P c')
    (h : Reach ctl rt task draws c) : P c := by
  have hboth : Reach ctl rt task draws c ∧ P c :=
    h.invariant (P := fun c => Reach ctl rt task draws c ∧ P c)
      (fun world => ⟨.start world, initial world⟩)
      fun c c' hc hs => ⟨hc.1.step hs, preserved c c' hc.1 hc.2 hs⟩
  exact hboth.2

end Reach

end CognitiveTree.Search
