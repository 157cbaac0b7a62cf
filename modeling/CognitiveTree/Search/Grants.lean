import CognitiveTree.Core.Lines
import CognitiveTree.Search.Exploration

/-!
# Revisions granted

The generator is called on a node once when selection first finds it, and once more for each
revision the policy granted for it. A grant is announced by a transition of its own, so in a
run that is over the grants can be counted in the phase history.
-/

namespace CognitiveTree.Search

open Arena

variable {K W : Type} [PyFloat K]

/-- The nodes for which a revision was granted, newest first. -/
def grantedIn (log : List (Obs K)) : List Nat :=
  log.filterMap fun
    | .revise n (.ok true) => some n
    | _ => none

/-- The first grant that is listed stands in the log, with the others behind it. -/
theorem log_of_granted {log : List (Obs K)} {n : Nat} {rest : List Nat}
    (h : grantedIn log = n :: rest) : ∃ newer older, log = newer ++ .revise n (.ok true) :: older ∧
      grantedIn older = rest := by
  obtain ⟨newer, o, older, rfl, -, ho, hrest⟩ := List.filterMap_eq_cons_iff.mp h
  refine ⟨newer, older, ?_, hrest⟩
  split at ho
  · cases ho
    rfl
  · cases ho

/-- The transitions in a log, newest first. -/
def transitionsIn (log : List (Obs K)) : List (PhaseTransition K) :=
  log.filterMap fun
    | .transition record _ _ _ => some record
    | _ => none

/-- A backtracking transition noted as a revision. -/
def PhaseTransition.isRevision {K : Type} (t : PhaseTransition K) : Bool :=
  t.target = .backtracking && (Str.lower t.note).contains (lit "revision")

namespace Stage

/-- The node whose expansion is due. -/
def due : Stage K → Option Nat
  | .opened n _ | .reviving n | .expanding n => some n
  | _ => none

/-- The candidates of a node that may still become children. -/
def offered : Stage K → Nat → Nat
  | .attaching n todo _ _, m => if m = n then todo.length else 0
  | _, _ => 0

/-- A node may be live, expanded and without children: it was just expanded, or nothing is
selected any more. -/
def spares : Stage K → Nat → Prop
  | .attaching n _ _ _, m | .barren n, m => m = n
  | .faulted _, _ | .ended, _ => True
  | _, _ => False

/-- A grant that was not announced yet. -/
def unannounced : Stage K → Nat
  | .opened _ true => 1
  | _ => 0

end Stage

variable {ctl : TreeSearchController K W} {rt : Runtime K W}

/-- Expansions, children and announcements, measured by the grants. -/
structure Granted (config : SearchConfig K) (c : Stage K × RunState K W) : Prop where
  within : ∀ n, (generatedIn c.2.log).count n ≤ (grantedIn c.2.log).count n + 1
  due : ∀ n, c.1.due = some n → (generatedIn c.2.log).count n ≤ (grantedIn c.2.log).count n
  settled : ∀ n ∈ generatedIn c.2.log, n < c.2.tree.arena.size ∧
    ((c.2.tree.arena.node n).children ≠ [] ∨ (c.2.tree.arena.node n).isLive = false ∨ c.1.spares n)
  children : ∀ n, (c.2.tree.arena.node n).children.length + c.1.offered n ≤
    config.branchingFactor * (generatedIn c.2.log).count n
  announced : (transitionsIn c.2.log).countP PhaseTransition.isRevision + c.1.unannounced =
    (grantedIn c.2.log).length

section Projections

variable {s : RunState K W} {target : SearchPhase} {node : Option Nat} {detail : Str}

theorem grantedIn_transitioned (h : s.machine.canTransition target = true) :
    grantedIn ((s.transitioned rt target node detail h).mirrored ctl rt target node detail).1.log =
      grantedIn s.log := by
  rw [RunState.mirrored_log]
  cases ((s.transitioned rt target node detail h).mirrored ctl rt target node detail).2 <;> rfl

theorem transitionsIn_transitioned (h : s.machine.canTransition target = true) :
    transitionsIn ((s.transitioned rt target node detail h).mirrored ctl rt target node detail).1.log =
      ⟨s.machine.phase, target, detail, (rt.monotonic s.world).1⟩ :: transitionsIn s.log := by
  rw [RunState.mirrored_log]
  cases ((s.transitioned rt target node detail h).mirrored ctl rt target node detail).2 <;> rfl

end Projections

/-- Exactly the announcement of a grant is noted as a revision. -/
theorem Edge.isRevision {s : RunState K W} {st st' : Stage K} {target node detail}
    (edge : Edge ctl s st target node detail st') (hi : Inv ctl rt (st, s)) (record : PhaseTransition K)
    (htarget : record.target = target) (hnote : record.note = detail) :
    (if record.isRevision = true then 1 else 0) + st'.unannounced = st.unannounced := by
  unfold PhaseTransition.isRevision
  rw [htarget, hnote]
  cases edge
  case halt =>
    have hm := hi.phase.2
    have hne : target ≠ .backtracking := by
      rintro rfl
      simp at hm
    simp [hne, Stage.unannounced]
  case reopen => rfl
  case deadEnd => rfl
  all_goals simp [Stage.unannounced]

/-- New children stand behind the old ones. -/
theorem Step.children_prefix {c c' : Stage K × RunState K W} (hs : Step ctl rt c c')
    (hi : Inv ctl rt c) {r : Nat} (hr : r < c.2.tree.arena.size) :
    (c.2.tree.arena.node r).children <+: (c'.2.tree.arena.node r).children := by
  rcases hs.tree_cases hi with ⟨-, hchange⟩ | ⟨n, solution, valued, -, -, -, he⟩
  · generalize c'.2.tree.arena = b at hchange ⊢
    cases hchange with
    | same => exact List.prefix_rfl
    | prune n => rw [(sameLinks_setStatus _ n _).children_eq]
    | verdict n d v => rw [(sameLinks_applyEvaluation _ d _ _ _).children_eq]
    | child n content focus =>
      rw [attachChild_old content (hi.working n focus).alloc hr.ne]
      exact List.prefix_append _ _
  · rw [he, (sameCore_backpropagate _ valued).children_eq]

/-- No step takes a child away. -/
theorem Step.children_ne_nil {c c' : Stage K × RunState K W} (hs : Step ctl rt c c')
    (hi : Inv ctl rt c) {r : Nat} (hr : r < c.2.tree.arena.size)
    (h : (c.2.tree.arena.node r).children ≠ []) : (c'.2.tree.arena.node r).children ≠ [] :=
  (hs.children_prefix hi hr).ne_nil h

namespace Granted

variable {s s' : RunState K W} {st st' : Stage K}

/-- A step without requests that adds no child. -/
theorem move (h : Granted ctl.config (st, s)) (hi : Inv ctl rt (st, s))
    (hs : Step ctl rt (st, s) (st', s'))
    (hgenerated : generatedIn s'.log = generatedIn s.log) (hgranted : grantedIn s'.log = grantedIn s.log)
    (hdue : ∀ n, st'.due = some n → st.due = some n ∨
      (s.tree.arena.node n).isLive = true ∧ (s.tree.arena.node n).children = [] ∧ ¬ st.spares n)
    (hspares : ∀ n, st.spares n → st'.spares n ∨ (s'.tree.arena.node n).children ≠ [] ∨
      (s'.tree.arena.node n).isLive = false)
    (hchildren : ∀ n, (s'.tree.arena.node n).children.length + st'.offered n ≤
      (s.tree.arena.node n).children.length + st.offered n)
    (hannounced : (transitionsIn s'.log).countP PhaseTransition.isRevision + st'.unannounced =
      (transitionsIn s.log).countP PhaseTransition.isRevision + st.unannounced) :
    Granted ctl.config (st', s') := by
  have hfrozen := hs.frozen hi
  constructor <;> dsimp only
  case within =>
    rw [hgenerated, hgranted]
    exact h.within
  case due =>
    intro n hn
    rw [hgenerated, hgranted]
    rcases hdue n hn with hold | ⟨hlive, hleaf, hspare⟩
    · exact h.due n hold
    · -- a live leaf was never expanded
      have hnew : n ∉ generatedIn s.log := by
        intro hmem
        rcases (h.settled n hmem).2 with hc | hd | hsp
        · exact hc hleaf
        · rw [hlive] at hd
          cases hd
        · exact hspare hsp
      rw [List.count_eq_zero_of_not_mem hnew]
      exact Nat.zero_le _
  case settled =>
    rw [hgenerated]
    intro n hn
    obtain ⟨hsize, hcases⟩ := h.settled n hn
    refine ⟨hsize.trans_le hfrozen.size_le, ?_⟩
    rcases hcases with hc | hd | hsp
    · exact Or.inl (hs.children_ne_nil hi hsize hc)
    · refine Or.inr (Or.inl ?_)
      change (s'.tree.arena.node n).status.isLive = false
      rw [hfrozen.status n hsize hd]
      exact hd
    · rcases hspares n hsp with hsp' | hc | hd
      · exact Or.inr (Or.inr hsp')
      · exact Or.inl hc
      · exact Or.inr (Or.inl hd)
  case children =>
    intro n
    rw [hgenerated]
    exact (hchildren n).trans (h.children n)
  case announced =>
    rw [hgranted, hannounced]
    exact h.announced

/-- A step that asks for nothing, adds no child, and opens no node. -/
theorem quiet (h : Granted ctl.config (st, s)) (hi : Inv ctl rt (st, s))
    (hs : Step ctl rt (st, s) (st', s')) (hlinks : SameLinks s.tree.arena s'.tree.arena)
    (hgenerated : generatedIn s'.log = generatedIn s.log) (hgranted : grantedIn s'.log = grantedIn s.log)
    (htransitions : transitionsIn s'.log = transitionsIn s.log) (hdue : st'.due = none)
    (hoffered : ∀ n, st'.offered n ≤ st.offered n) (hannounced : st'.unannounced = st.unannounced)
    (hspares : ∀ n, st.spares n → st'.spares n ∨ (s'.tree.arena.node n).isLive = false) :
    Granted ctl.config (st', s') := by
  refine h.move hi hs hgenerated hgranted (fun n hn => ?_) (fun n hn => ?_) (fun n => ?_) ?_
  · rw [hdue] at hn
    cases hn
  · exact (hspares n hn).imp_right Or.inr
  · rw [hlinks.children_eq]
    exact Nat.add_le_add_left (hoffered n) _
  · rw [htransitions, hannounced]

/-- A call of the generator uses up the grant that made the expansion due. -/
theorem expand (h : Granted ctl.config (st, s)) {n : Nat} (hst : st = .expanding n)
    (hn : n < s.tree.arena.size) (htree : s'.tree = s.tree)
    (hgenerated : generatedIn s'.log = n :: generatedIn s.log)
    (hgranted : grantedIn s'.log = grantedIn s.log)
    (htransitions : transitionsIn s'.log = transitionsIn s.log) (hdue : st'.due = none)
    (hannounced : st'.unannounced = 0) (hspares : st'.spares n)
    (hoffered : ∀ m, st'.offered m ≤ if m = n then ctl.config.branchingFactor else 0) :
    Granted ctl.config (st', s') := by
  subst hst
  have hother : ∀ m, (generatedIn s.log).count m ≤ (grantedIn s.log).count m + 1 := h.within
  have hnow : (generatedIn s.log).count n ≤ (grantedIn s.log).count n := h.due n rfl
  constructor <;> dsimp only <;> (try rw [hgenerated]) <;> try rw [htree]
  case within =>
    intro m
    rw [hgranted, List.count_cons]
    by_cases hm : n = m
    · subst hm
      simpa using hnow
    · simpa [hm] using hother m
  case due =>
    intro m hm
    rw [hdue] at hm
    cases hm
  case settled =>
    intro m hm
    by_cases he : m = n
    · exact ⟨he ▸ hn, Or.inr (Or.inr (he ▸ hspares))⟩
    · obtain ⟨hsize, hcases⟩ := h.settled m ((List.mem_cons.mp hm).resolve_left he)
      exact ⟨hsize, hcases.imp_right fun hc => hc.imp_right fun hsp => absurd hsp (by simp [Stage.spares])⟩
  case children =>
    intro m
    have hbefore := h.children m
    have hnew := hoffered m
    rw [List.count_cons]
    simp only [Stage.offered, Nat.add_zero] at hbefore
    by_cases hm : m = n
    · subst hm
      simp only [if_true, beq_self_eq_true] at hnew ⊢
      rw [Nat.mul_add, Nat.mul_one]
      omega
    · simp only [hm, if_false, Nat.le_zero] at hnew
      rw [hnew]
      simpa [Ne.symm hm] using hbefore
  case announced =>
    rw [htransitions, hgranted, hannounced]
    exact h.announced

/-- A grant makes one more expansion due, and is still to be announced. -/
theorem grant (h : Granted ctl.config (.selecting, s)) {n : Nat} (htree : s'.tree = s.tree)
    (hgenerated : generatedIn s'.log = generatedIn s.log)
    (hgranted : grantedIn s'.log = n :: grantedIn s.log)
    (htransitions : transitionsIn s'.log = transitionsIn s.log) :
    Granted ctl.config (.opened n true, s') := by
  have hwithin : ∀ m, (generatedIn s.log).count m ≤ (grantedIn s.log).count m + 1 := h.within
  constructor <;> dsimp only <;> (try rw [hgenerated]) <;> try rw [htree]
  case within =>
    intro m
    rw [hgranted, List.count_cons]
    exact (hwithin m).trans (by omega)
  case due =>
    rintro m hm
    cases hm
    rw [hgranted, List.count_cons_self]
    exact hwithin n
  case settled => exact h.settled
  case children => exact h.children
  case announced =>
    rw [htransitions, hgranted]
    exact congrArg (· + 1) h.announced

end Granted

theorem Edge.granted {s : RunState K W} {st st' st'' : Stage K} {target node detail}
    (edge : Edge ctl s st target node detail st') (h : s.machine.canTransition target = true)
    (hi : Inv ctl rt (st, s)) (hc : Granted ctl.config (st, s))
    (hs : Step ctl rt (st, s) (st'', ((s.transitioned rt target node detail h).mirrored ctl rt target
      node detail).1)) (hend : st'' = st' ∨ st''.due = none ∧ st''.unannounced = st'.unannounced ∧
        (∀ n, st''.offered n = 0) ∧ ∀ n, st''.spares n) :
    Granted ctl.config (st'', ((s.transitioned rt target node detail h).mirrored ctl rt target node
      detail).1) := by
  have htree := (RunState.mirrored_fields ctl rt (s.transitioned rt target node detail h) target node
    detail).1
  refine hc.move hi hs (generatedIn_transitioned h) (grantedIn_transitioned h) (fun n hn => ?_)
    (fun n hn => ?_) (fun n => ?_) ?_
  · have hdue : st'.due = some n := by
      rcases hend with rfl | ⟨hnone, -⟩
      · exact hn
      · rw [hnone] at hn
        cases hn
    cases edge <;> exact Or.inl hdue
  · rw [htree]
    rcases hend with rfl | ⟨-, -, -, hspares⟩
    · cases edge
      case deadEnd => exact Or.inl hn
      case candidates m seen batch hne =>
        obtain ⟨d, hd⟩ := List.exists_mem_of_ne_nil _ hne
        have hkid := (hi.working m rfl).attached d hd
        cases hn
        exact Or.inr (Or.inl (List.ne_nil_of_mem (show d ∈ (s.tree.arena.node n).children from hkid)))
      case failed => exact Or.inl trivial
      all_goals exact hn.elim
    · exact Or.inl (hspares n)
  · rw [htree]
    have hnone : st''.offered n = 0 := by
      rcases hend with rfl | ⟨-, -, hoffered, -⟩
      · cases edge <;> rfl
      · exact hoffered n
    rw [hnone]
    exact Nat.le_add_right _ _
  · have hsame : st''.unannounced = st'.unannounced := by
      rcases hend with rfl | ⟨-, he, -⟩
      · rfl
      · exact he
    rw [transitionsIn_transitioned h, List.countP_cons, hsame, ← edge.isRevision hi
      ⟨s.machine.phase, target, detail, (rt.monotonic s.world).1⟩ rfl rfl]
    omega

/-- Every step keeps the grants in order. -/
theorem Step.granted {c c' : Stage K × RunState K W} (hs : Step ctl rt c c') (hi : Inv ctl rt c)
    (h : Granted ctl.config c) : Granted ctl.config c' := by
  have hstep := hs
  cases hs with
  | advance edge legal => exact edge.granted legal hi h hstep (Or.inl rfl)
  | @advanceRaised s st st' target node detail e edge legal =>
    refine edge.granted legal hi h hstep (Or.inr ⟨?_, ?_, fun n => ?_, fun n => ?_⟩)
    · cases st' <;> rfl
    · cases edge <;> rfl
    · cases st' <;> rfl
    · cases st' <;> trivial
  | pollCancel | pollDeadline =>
    refine h.quiet hi hstep (.refl _) rfl rfl rfl ?_ (fun n => ?_) ?_ fun n hn => hn.elim <;> split <;> rfl
  | cap | collapse =>
    exact h.quiet hi hstep (sameLinks_pruneSubtree _ _) rfl rfl rfl rfl (fun _ => le_rfl) rfl
      fun n hn => hn.elim
  | @retreat s n =>
    refine h.quiet hi hstep (sameLinks_pruneSubtree _ _) rfl rfl rfl rfl (fun _ => le_rfl) rfl
      fun m hm => Or.inr ?_
    have hfrontier := (hi.working n rfl).frontier
    change ((s.tree.arena.pruneSubtree n).1.node m).isLive = false
    have he : m = n := hm
    rw [hfrontier.pruneSubtree_eq hi.sound, he, setStatus_node, if_pos rfl]
    rfl
  | @found s n alloc live leaf shallow =>
    refine h.move hi hstep rfl rfl (fun m hm => ?_) (fun m hm => hm.elim) (fun m => le_rfl) rfl
    cases hm
    exact Or.inr ⟨live, leaf, fun hsp => hsp⟩
  | @revise s n policy reply granted alloc live saturated hpolicy hreply answer =>
    cases granted with
    | true =>
      refine h.grant rfl rfl ?_ rfl
      change grantedIn (.revise n reply.answer :: s.log) = _
      rw [answer]
      rfl
    | false =>
      refine h.quiet hi hstep (.refl _) rfl ?_ rfl rfl (fun _ => le_rfl) rfl fun n hn => hn.elim
      change grantedIn (.revise n reply.answer :: s.log) = _
      rw [answer]
      rfl
  | @reviseRaised s n policy reply e alloc live saturated hpolicy hreply answer =>
    refine h.quiet hi hstep (.refl _) rfl ?_ rfl rfl (fun _ => le_rfl) rfl fun n hn => hn.elim
    change grantedIn (.revise n reply.answer :: s.log) = _
    rw [answer]
    rfl
  | @generate s n reply candidates hreply answer =>
    refine h.expand rfl (hi.working n rfl).alloc rfl rfl rfl rfl rfl rfl rfl fun m => ?_
    change (if m = n then _ else 0) ≤ _
    split
    · exact List.length_take_le _ _
    · exact le_rfl
  | @generateRaised s n reply e hreply answer =>
    exact h.expand rfl (hi.working n rfl).alloc rfl rfl rfl rfl rfl rfl trivial fun m => Nat.zero_le _
  | @skip s n content rest seen batch dropped =>
    refine h.quiet hi hstep (.refl _) rfl rfl rfl rfl (fun m => ?_) rfl fun m hm => Or.inl hm
    change (if m = n then _ else 0) ≤ if m = n then _ else 0
    split
    · exact Nat.le_succ _
    · exact le_rfl
  | @attach s n content rest seen batch d tree nonempty new added =>
    have halloc := (hi.working n rfl).alloc
    rw [ThoughtTree.addChild, if_pos (hi.indexed n halloc)] at added
    cases added
    refine h.move hi hstep rfl rfl (fun m hm => by cases hm) (fun m hm => Or.inl hm) (fun m => ?_) rfl
    change ((s.tree.arena.attachChild n (Str.strip content)).node m).children.length +
      (if m = n then rest.length else 0) ≤ (s.tree.arena.node m).children.length +
        if m = n then (content :: rest).length else 0
    by_cases hnew : m = s.tree.arena.size
    · have hne : m ≠ n := fun he => absurd halloc (by rw [← he, hnew]; exact lt_irrefl _)
      rw [if_neg hne, if_neg hne, hnew, attachChild_new _ halloc]
      exact Nat.zero_le _
    · rw [attachChild_old _ halloc hnew]
      by_cases hm : m = n <;> simp [hm]
      omega
  | judge =>
    exact h.quiet hi hstep (sameLinks_applyEvaluation _ _ _ _ _) rfl rfl rfl rfl (fun _ => le_rfl) rfl
      fun n hn => hn.elim
  | credit =>
    exact h.quiet hi hstep (sameCore_backpropagate _ _).toSameLinks rfl rfl rfl rfl (fun _ => le_rfl) rfl
      fun n hn => hn.elim
  | refuse =>
    exact h.quiet hi hstep (.refl _) rfl rfl rfl rfl (fun _ => le_rfl) rfl fun n hn => Or.inl hn
  | _ =>
    exact h.quiet hi hstep (.refl _) rfl rfl rfl rfl (fun _ => le_rfl) rfl fun n hn => hn.elim

/-- The machine's history is what the log recorded, oldest first. -/
theorem Reach.history_eq {task : Str} {draws : Nat} {c : Stage K × RunState K W}
    (h : Reach ctl rt task draws c) : c.2.machine.history = (transitionsIn c.2.log).reverse := by
  refine h.invariant (P := fun c => c.2.machine.history = (transitionsIn c.2.log).reverse)
    (fun world => rfl) fun c c' hc hs => ?_
  cases hs with
  | @advance s st st' target node detail edge legal =>
    have hm := RunState.mirrored_fields ctl rt (s.transitioned rt target node detail legal) target
      node detail
    rw [transitionsIn_transitioned legal, hm.2.1, List.reverse_cons, ← hc]
    rfl
  | @advanceRaised s st st' target node detail e edge legal =>
    have hm := RunState.mirrored_fields ctl rt (s.transitioned rt target node detail legal) target
      node detail
    rw [transitionsIn_transitioned legal, hm.2.1, List.reverse_cons, ← hc]
    rfl
  | _ => exact hc

theorem Reach.granted {task : Str} {draws : Nat} {c : Stage K × RunState K W}
    (h : Reach ctl rt task draws c) : Granted ctl.config c := by
  refine h.strengthen (P := Granted ctl.config) (fun world => ?_) fun c c' hr hc hs =>
    hs.granted hr.inv hc
  exact ⟨fun n => Nat.zero_le _, fun n hn => absurd hn (by simp [Stage.due]),
    fun n hn => absurd hn List.not_mem_nil, fun n => Nat.zero_le _, rfl⟩

end CognitiveTree.Search
