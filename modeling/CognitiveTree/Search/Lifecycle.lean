import CognitiveTree.Search.Backpropagation
import CognitiveTree.Search.Totality

/-!
# The life of a node

Dead nodes stay as they died: `Frozen` is what any number of steps keeps of them.
Their statistics stand still once their own batch has been backpropagated, which is
the case at every head of the main loop.
-/

namespace CognitiveTree.Search

open Arena

variable {K W : Type}

/-- Every dead node of the older tree is found unchanged in the newer one, statistics
apart. -/
structure Frozen (older newer : Arena K) : Prop where
  size_le : older.size ≤ newer.size
  status : ∀ r, r < older.size → (older.node r).status.isLive = false →
    (newer.node r).status = (older.node r).status
  score : ∀ r, r < older.size → (older.node r).status.isLive = false →
    (newer.node r).score = (older.node r).score
  rationale : ∀ r, r < older.size → (older.node r).status.isLive = false →
    (newer.node r).rationale = (older.node r).rationale
  children : ∀ r, r < older.size → (older.node r).status.isLive = false →
    (newer.node r).children = (older.node r).children

namespace Frozen

variable {a b c : Arena K}

/-- The same core is frozen. -/
theorem of_core (h : SameCore a b) : Frozen a b :=
  ⟨h.size_eq.ge, fun r _ _ => h.status_eq r, fun r _ _ => h.score_eq r,
    fun r _ _ => h.rationale_eq r, fun r _ _ => h.children_eq r⟩

/-- The same tree is frozen. -/
theorem refl (a : Arena K) : Frozen a a := of_core (.refl a)

/-- What is frozen twice is frozen. -/
theorem trans (h : Frozen a b) (h' : Frozen b c) : Frozen a c := by
  have hdead : ∀ r, r < a.size → (a.node r).status.isLive = false →
      r < b.size ∧ (b.node r).status.isLive = false := fun r hr hd =>
    ⟨lt_of_lt_of_le hr h.size_le, by rw [h.status r hr hd]; exact hd⟩
  refine ⟨h.size_le.trans h'.size_le, ?_, ?_, ?_, ?_⟩ <;> intro r hr hd <;>
    obtain ⟨hrb, hdb⟩ := hdead r hr hd
  · exact (h'.status r hrb hdb).trans (h.status r hr hd)
  · exact (h'.score r hrb hdb).trans (h.score r hr hd)
  · exact (h'.rationale r hrb hdb).trans (h.rationale r hr hd)
  · exact (h'.children r hrb hdb).trans (h.children r hr hd)

/-- Changing the record of one live node freezes all others. -/
theorem of_live {n : Nat} (hsize : a.size ≤ b.size) (hlive : (a.node n).status.isLive = true)
    (hother : ∀ r, r < a.size → r ≠ n → b.node r = a.node r) : Frozen a b := by
  have hsame : ∀ r, r < a.size → (a.node r).status.isLive = false → b.node r = a.node r := by
    intro r hr hd
    refine hother r hr ?_
    rintro rfl
    rw [hd] at hlive
    cases hlive
  refine ⟨hsize, ?_, ?_, ?_, ?_⟩ <;> intro r hr hd <;> rw [hsame r hr hd]

end Frozen

variable [PyFloat K] {ctl : TreeSearchController K W} {rt : Runtime K W}

/-- The trees a step other than backpropagation can lead to: the same, or a frontier node
pruned, or a verdict stored, or a new child below the working node. -/
inductive TreeChange (config : SearchConfig K) (c : Stage K × RunState K W) : Arena K → Prop
  | same : TreeChange config c c.2.tree.arena
  | prune (n : Nat) (frontier : Frontier c.2.tree.arena n)
      (site : c.1 = .selecting ∨ c.1 = .refused n ∨ c.1 = .barren n) :
      TreeChange config c (c.2.tree.arena.setStatus n .pruned)
  | verdict (n d : Nat) (v : Evaluation K) (todo : List (Nat × Evaluation K))
      (solution : Option Nat) (valued : List (Nat × K))
      (judging : c.1 = .judging n ((d, v) :: todo) solution valued)
      (pending : (c.2.tree.arena.node d).status = .pending) :
      TreeChange config c
        (c.2.tree.arena.applyEvaluation d v.score (verdictStatus config v) v.rationale)
  | child (n : Nat) (content : Str) (focus : c.1.focus = some n) :
      TreeChange config c (c.2.tree.arena.attachChild n content)

/-- Backpropagation changes statistics and is logged, every other step changes the tree
in one place and backpropagates nothing. -/
theorem Step.tree_cases {c c' : Stage K × RunState K W} (hs : Step ctl rt c c')
    (hi : Inv ctl rt c) :
    (creditsIn c'.2.log = creditsIn c.2.log ∧ TreeChange ctl.config c c'.2.tree.arena) ∨
    ∃ n solution valued, c.1 = .propagating n solution valued ∧ c'.1 = .settled n solution ∧
      creditsIn c'.2.log = valued ++ creditsIn c.2.log ∧
      c'.2.tree.arena = backpropagateArena c.2.tree.arena valued := by
  have hprune : ∀ {st : Stage K} {s : RunState K W} {n : Nat},
      Sound ctl.config.maxDepth s.tree.arena → Frontier s.tree.arena n →
      st = .selecting ∨ st = .refused n ∨ st = .barren n →
        TreeChange ctl.config (st, s) (s.pruned n).tree.arena := by
    intro st s n hsound hn hsite
    have he : (s.pruned n).tree.arena = s.tree.arena.setStatus n .pruned := by
      change (s.tree.arena.pruneSubtree n).1 = _
      rw [hn.pruneSubtree_eq hsound]
    rw [he]
    exact .prune n hn hsite
  cases hs with
  | @advance s st st' target node detail edge h quiet =>
    have hm := RunState.mirrored_fields ctl rt (s.transitioned rt target node detail h)
      target node detail
    have hlog := RunState.mirrored_log ctl rt (s.transitioned rt target node detail h)
      target node detail
    rw [quiet] at hlog
    rw [hlog, hm.1]
    exact Or.inl ⟨rfl, .same⟩
  | @advanceRaised s st st' target node detail e edge h raised =>
    have hm := RunState.mirrored_fields ctl rt (s.transitioned rt target node detail h)
      target node detail
    have hlog := RunState.mirrored_log ctl rt (s.transitioned rt target node detail h)
      target node detail
    rw [raised] at hlog
    rw [hlog, hm.1]
    exact Or.inl ⟨rfl, .same⟩
  | cap alloc live leaf _ =>
    exact Or.inl ⟨rfl, hprune hi.sound (Inv.frontier_of_leaf alloc live leaf) (Or.inl rfl)⟩
  | collapse =>
    exact Or.inl ⟨rfl, hprune hi.sound (hi.working _ rfl).frontier (Or.inr (Or.inl rfl))⟩
  | retreat =>
    exact Or.inl ⟨rfl, hprune hi.sound (hi.working _ rfl).frontier (Or.inr (Or.inr rfl))⟩
  | @attach s n content rest seen batch c tree _ _ added =>
    rw [ThoughtTree.addChild, if_pos (hi.indexed n (hi.working n rfl).alloc)] at added
    cases added
    exact Or.inl ⟨rfl, .child n (Str.strip content) rfl⟩
  | @judge s n c v todo solution values =>
    exact Or.inl ⟨rfl, .verdict n c v todo solution values rfl
      ((hi.working n rfl).pending c (List.mem_cons_self ..))⟩
  | @credit s n solution values => exact Or.inr ⟨n, solution, values, rfl, rfl, rfl, rfl⟩
  | _ => exact Or.inl ⟨rfl, .same⟩

/-- A change of the tree leaves what is at rest as it is. -/
theorem TreeChange.frozen {c : Stage K × RunState K W} {b : Arena K} (h : TreeChange ctl.config c b)
    (hi : Inv ctl rt c) : Frozen c.2.tree.arena b := by
  cases h with
  | same => exact .refl _
  | prune n frontier site =>
    exact .of_live le_rfl frontier.live fun r _ hne => by rw [setStatus_node, if_neg hne]
  | verdict n d v todo solution valued judging pending =>
    refine .of_live le_rfl (n := d) (by rw [pending]; rfl) fun r _ hne => ?_
    rw [applyEvaluation_node, if_neg hne]
  | child n content focus =>
    have hw := hi.working n focus
    refine .of_live (by rw [attachChild_size content hw.alloc]; omega) hw.live fun r hr hne => ?_
    rw [attachChild_old content hw.alloc (by omega), if_neg hne, List.append_nil]

/-- Only backpropagation changes the statistics of an existing node. -/
theorem TreeChange.statistics {c : Stage K × RunState K W} {b : Arena K} (h : TreeChange ctl.config c b)
    (hi : Inv ctl rt c) {r : Nat} (hr : r < c.2.tree.arena.size) :
    (b.node r).visits = (c.2.tree.arena.node r).visits ∧
      (b.node r).valueSum = (c.2.tree.arena.node r).valueSum := by
  cases h with
  | same => exact ⟨rfl, rfl⟩
  | prune n _ _ =>
    rw [setStatus_node]
    split <;> exact ⟨rfl, rfl⟩
  | verdict n d v todo solution valued _ _ =>
    rw [applyEvaluation_node]
    split <;> exact ⟨rfl, rfl⟩
  | child n content focus =>
    rw [attachChild_old content (hi.working n focus).alloc (by omega)]
    exact ⟨rfl, rfl⟩

/-- A step freezes what was dead before it. -/
theorem Step.frozen {c c' : Stage K × RunState K W} (hs : Step ctl rt c c')
    (hi : Inv ctl rt c) : Frozen c.2.tree.arena c'.2.tree.arena := by
  rcases hs.tree_cases hi with ⟨-, hchange⟩ | ⟨n, solution, valued, -, -, -, he⟩
  · exact hchange.frozen hi
  · rw [he]
    exact .of_core (sameCore_backpropagate _ valued)

/-- A dead node outside the current batch. -/
def AtRest (r : Nat) (c : Stage K × RunState K W) : Prop :=
  r < c.2.tree.arena.size ∧ (c.2.tree.arena.node r).status.isLive = false ∧ r ∉ c.1.batch

/-- Between two stages of one batch no node that existed before joins it. -/
theorem Step.batch {c c' : Stage K × RunState K W} (hs : Step ctl rt c c')
    (hi : Inv ctl rt c) {r : Nat} (hr : r < c.2.tree.arena.size) (hb : r ∈ c'.1.batch) :
    r ∈ c.1.batch := by
  cases hs with
  | @advance s st st' target node detail edge h quiet =>
    cases edge
    case valued => simpa [Stage.batch] using hb
    all_goals exact hb
  | @advanceRaised s st st' target node detail e edge h raised => cases st' <;> cases hb
  | pollCancel => split at hb <;> cases hb
  | pollDeadline => split at hb <;> cases hb
  | revise => split at hb <;> cases hb
  | @attach s n content rest seen batch c tree _ _ added =>
    rw [ThoughtTree.addChild, if_pos (hi.indexed n (hi.working n rfl).alloc)] at added
    cases added
    rcases List.mem_append.mp hb with hb | hb
    · exact hb
    · rw [List.mem_singleton] at hb
      change r < s.tree.arena.size at hr
      omega
  | skip | evaluate | judge | unexamined | uncritiqued | critiqued => exact hb
  | collected order _ =>
    change r ∈ [] ++ _ at hb
    rw [List.nil_append, order] at hb
    exact hb
  | unshaped | shape =>
    simpa [Stage.batch] using hb
  | _ => cases hb

/-- A node at rest stays at rest, with its statistics. -/
theorem Step.atRest {c c' : Stage K × RunState K W} (hs : Step ctl rt c c')
    (hi : Inv ctl rt c) {r : Nat} (h : AtRest r c) : AtRest r c' ∧
      (c'.2.tree.arena.node r).visits = (c.2.tree.arena.node r).visits ∧
      (c'.2.tree.arena.node r).valueSum = (c.2.tree.arena.node r).valueSum := by
  obtain ⟨hr, hdead, hbatch⟩ := h
  have hfrozen := hs.frozen hi
  refine ⟨⟨lt_of_lt_of_le hr hfrozen.size_le, by rw [hfrozen.status r hr hdead]; exact hdead,
    fun hb => hbatch (hs.batch hi hr hb)⟩, ?_⟩
  rcases hs.tree_cases hi with ⟨-, hchange⟩ | ⟨n, solution, valued, hst, -, -, he⟩
  · exact hchange.statistics hi hr
  · -- the chains of the batch consist of its members and of live nodes
    have hw := hi.working n (by rw [hst]; rfl)
    have hmem : ∀ cv ∈ valued, cv.1 ∈ c.1.batch := fun cv hcv => by
      rw [hst]
      exact List.mem_map_of_mem hcv
    rw [he, backpropagate_other _ valued fun cv hcv => hw.mem_alloc (hmem cv hcv)]
    · exact ⟨rfl, rfl⟩
    · intro cv hcv hmemr
      obtain ⟨hcs, hcp⟩ := mem_children.mp (hw.attached _ (hmem cv hcv))
      rcases (mem_lineage_child hcs hcp).mp hmemr with rfl | hrn
      · exact hbatch (hmem cv hcv)
      · rw [hi.sound.live_lineage hw.alloc hw.live hrn] at hdead
        cases hdead

namespace Reach

variable {task : Str} {draws : Nat} {c c' : Stage K × RunState K W}

/-- Steps from a reachable state lead to reachable states. -/
theorem steps (h : Reach ctl rt task draws c) (hs : Steps ctl rt c c') :
    Reach ctl rt task draws c' := by
  obtain ⟨world, hr⟩ := h
  exact ⟨world, hr.trans hs⟩

/-- The root keeps the task. -/
theorem root_content (h : Reach ctl rt task draws c) : (c.2.tree.arena.node 0).content = task := by
  apply h.strengthen (P := fun c => (c.2.tree.arena.node 0).content = task)
  · intro world
    rfl
  intro c c' hr hc hs
  rcases hs.tree_cases hr.inv with ⟨-, hchange⟩ | ⟨n, solution, valued, -, -, -, he⟩
  · generalize c'.2.tree.arena = a at hchange
    cases hchange with
    | same => exact hc
    | prune n frontier site =>
      rw [setStatus_node]
      split
      · exact hc
      · exact hc
    | verdict n d v todo solution valued judging pending =>
      rw [applyEvaluation_node]
      split
      · exact hc
      · exact hc
    | child n content focus =>
      have halloc := (hr.inv.working n focus).alloc
      rw [attachChild_old content halloc (by omega)]
      exact hc
  · rw [he, (sameCore_backpropagate _ valued).content_eq]
    exact hc

/-- A node at rest stays at rest, with its statistics. -/
theorem atRest (h : Reach ctl rt task draws c) (hs : Steps ctl rt c c') {r : Nat}
    (hr : AtRest r c) : AtRest r c' ∧
      (c'.2.tree.arena.node r).visits = (c.2.tree.arena.node r).visits ∧
      (c'.2.tree.arena.node r).valueSum = (c.2.tree.arena.node r).valueSum := by
  induction hs with
  | refl => exact ⟨hr, rfl, rfl⟩
  | tail hsteps hstep ih =>
    obtain ⟨hrest, hvisits, hsum⟩ := ih
    obtain ⟨hrest', hvisits', hsum'⟩ := hstep.atRest (h.steps hsteps).inv hrest
    exact ⟨hrest', hvisits'.trans hvisits, hsum'.trans hsum⟩

end Reach

/-- The tree an entry of the log shows. -/
def Obs.arena? : Obs K → Option (Arena K)
  | .boundary _ arena _ => some arena
  | .transition _ _ _ tree => some tree.arena
  | .selection arena => some arena
  | _ => none

/-- The final tree and all trees the log shows, newest first. -/
def RunState.arenas (s : RunState K W) : List (Arena K) :=
  s.tree.arena :: s.log.filterMap Obs.arena?

/-- The final tree and the trees seen at phase transitions. -/
def RunState.Observes (s : RunState K W) (tree : ThoughtTree K) : Prop :=
  tree = s.tree ∨ ∃ record iteration node, Obs.transition record iteration node tree ∈ s.log

/-- A shown tree is the tree of the state behind the entry. -/
theorem Obs.shows_arena {o : Obs K} {c : Stage K × RunState K W} (h : o.shows c) {a : Arena K}
    (ha : o.arena? = some a) : a = c.2.tree.arena := by
  cases o <;> cases ha
  · exact h.2.2.1
  · exact congrArg (·.arena) h.2.1
  · exact h.2

/-- A new node extends the index, nothing else changes it. -/
theorem Step.index_cases {c c' : Stage K × RunState K W} (hs : Step ctl rt c c')
    (hi : Inv ctl rt c) :
    (c'.2.tree.index = c.2.tree.index ∧ c'.2.tree.arena.size = c.2.tree.arena.size) ∨
    (c'.2.tree.index = c.2.tree.index.set (rt.freshId c.2.tree.arena.size) c.2.tree.arena.size ∧
      c'.2.tree.arena.size = c.2.tree.arena.size + 1) := by
  cases hs with
  | @advance s st st' target node detail edge h quiet =>
    refine Or.inl ?_
    rw [(RunState.mirrored_fields ctl rt (s.transitioned rt target node detail h) target node
      detail).1]
    exact ⟨rfl, rfl⟩
  | @advanceRaised s st st' target node detail e edge h raised =>
    refine Or.inl ?_
    rw [(RunState.mirrored_fields ctl rt (s.transitioned rt target node detail h) target node
      detail).1]
    exact ⟨rfl, rfl⟩
  | cap | collapse | retreat => exact Or.inl ⟨rfl, (sameLinks_pruneSubtree _ _).size_eq⟩
  | @attach s n content rest seen batch c tree _ _ added =>
    have halloc := (hi.working n rfl).alloc
    rw [ThoughtTree.addChild, if_pos (hi.indexed n halloc)] at added
    cases added
    exact Or.inr ⟨rfl, attachChild_size _ halloc⟩
  | credit => exact Or.inl ⟨rfl, (sameCore_backpropagate _ _).size_eq⟩
  | _ => exact Or.inl ⟨rfl, rfl⟩

/-- What the tree looks like from outside. -/
structure WellFormed (maxDepth : Nat) (freshId : Nat → Str) (t : ThoughtTree K) : Prop where
  depth : ∀ r, 0 < r → r < t.arena.size → ∃ p, (t.arena.node r).parent = some p ∧
    (t.arena.node r).depth = (t.arena.node p).depth + 1 ∧ (t.arena.node r).depth ≤ maxDepth
  siblings : ∀ p, ((t.arena.node p).children.map fun c => (t.arena.node c).content).Nodup
  contents : ∀ p, ∀ c ∈ (t.arena.node p).children, (t.arena.node c).content ≠ [] ∧
    Str.strip (t.arena.node c).content = (t.arena.node c).content
  index : ∀ id r, t.index.get? id = some r ↔ r ∈ t.arena.walk 0 ∧ freshId r = id
  live : ∀ r, r < t.arena.size → (t.arena.node r).isLive = true →
    ∀ x ∈ t.arena.lineage r, (t.arena.node x).isLive = true

/-- Looking an identifier up in the list of all identifiers. -/
theorem get?_range {freshId : Nat → Str} (hid : Function.Injective freshId) (size : Nat)
    (id : Str) (r : Nat) :
    Dict.get? ((List.range size).map fun r => (freshId r, r)) id = some r ↔
      r < size ∧ freshId r = id := by
  induction size with
  | zero => simp [Dict.get?]
  | succ size ih =>
    have hnew : Dict.get? ((List.range size).map fun r => (freshId r, r)) (freshId size) = none := by
      refine Dict.get?_eq_none fun hm => ?_
      simp only [List.map_map, List.mem_map, List.mem_range, Function.comp_apply] at hm
      obtain ⟨m, hm, he⟩ := hm
      have := hid he
      omega
    rw [List.range_succ, List.map_append, List.map_singleton, ← Dict.set_eq_append size hnew,
      Dict.get?_set]
    by_cases hsize : id = freshId size
    · subst hsize
      rw [if_pos rfl]
      constructor
      · rintro ⟨⟩
        exact ⟨by omega, rfl⟩
      · rintro ⟨-, he⟩
        rw [hid he]
    · rw [if_neg hsize, ih]
      constructor
      · rintro ⟨hlt, he⟩
        exact ⟨by omega, he⟩
      · rintro ⟨hlt, he⟩
        refine ⟨?_, he⟩
        have : r ≠ size := fun h => hsize (by rw [← he, h])
        omega

namespace Reach

variable {task : Str} {draws : Nat} {c : Stage K × RunState K W}

/-- With distinct identifiers the index lists the nodes in creation order. -/
theorem index_eq (hid : Function.Injective rt.freshId) (h : Reach ctl rt task draws c) :
    c.2.tree.index = (List.range c.2.tree.arena.size).map fun r => (rt.freshId r, r) := by
  refine h.strengthen (P := fun c => c.2.tree.index =
    (List.range c.2.tree.arena.size).map fun r => (rt.freshId r, r)) (fun world => rfl)
    fun c c' hr hc hs => ?_
  have hi := hr.inv
  rcases hs.index_cases hi with ⟨hindex, hsize⟩ | ⟨hindex, hsize⟩
  · rw [hindex, hsize, hc]
  · have hnew : Dict.get? c.2.tree.index (rt.freshId c.2.tree.arena.size) = none := by
      cases hg : Dict.get? c.2.tree.index (rt.freshId c.2.tree.arena.size) with
      | none => rfl
      | some r =>
        rw [hc, get?_range hid] at hg
        have := hid hg.2
        omega
    rw [hindex, hsize, Dict.set_eq_append _ hnew, hc, List.range_succ, List.map_append]
    rfl

/-- Every reachable tree is well formed. -/
theorem wellFormed (hid : Function.Injective rt.freshId) (h : Reach ctl rt task draws c) :
    WellFormed ctl.config.maxDepth rt.freshId c.2.tree := by
  have hsound := h.inv.sound
  constructor
  case depth =>
    intro r h0 hr
    obtain ⟨p, hp, -, -⟩ := exists_parent (by omega) hr
    exact ⟨p, hp, c.2.tree.arena.linked.depth_eq r p hr hp, hsound.depth_le r hr⟩
  case siblings =>
    intro p
    exact (children_nodup c.2.tree.arena p).map_on fun x hx y hy he => hsound.siblings p x y hx hy he
  case contents =>
    intro p x hx
    have h0 : 0 < x := Nat.zero_lt_of_lt (lt_of_mem_children hx)
    have hxs := (mem_children.mp hx).1
    exact ⟨hsound.content_ne x h0 hxs, hsound.content_strip x h0 hxs⟩
  case index =>
    intro id r
    rw [h.index_eq hid, get?_range hid, mem_walk_root]
  case live => exact fun r hr hlive x hx => hsound.live_lineage hr hlive hx

/-- A tree seen at a transition is the tree of a reachable state. -/
theorem observed (h : Reach ctl rt task draws c) {t : ThoughtTree K} (ht : c.2.Observes t) :
    ∃ c₀, Reach ctl rt task draws c₀ ∧ c₀.2.tree = t := by
  rcases ht with rfl | ⟨record, iteration, node, hmem⟩
  · exact ⟨c, h, rfl⟩
  · obtain ⟨newer, older, hlog⟩ := List.append_of_mem hmem
    obtain ⟨c₀, -, h₀, -, hshow, -⟩ := h.trace hlog (by simp)
    exact ⟨c₀, h₀, hshow.2.1.symm⟩

/-- A tree the log shows is the tree of a reachable state. -/
theorem shown (h : Reach ctl rt task draws c) {a : Arena K} (ha : a ∈ c.2.arenas) :
    ∃ c₀, Reach ctl rt task draws c₀ ∧ c₀.2.tree.arena = a := by
  rcases List.mem_cons.mp ha with rfl | ha
  · exact ⟨c, h, rfl⟩
  · obtain ⟨o, ho, hoa⟩ := List.mem_filterMap.mp ha
    obtain ⟨newer, older, hlog⟩ := List.append_of_mem ho
    obtain ⟨c₀, -, h₀, -, hshow, -⟩ := h.trace hlog (by rintro e rfl; cases hoa)
    exact ⟨c₀, h₀, (Obs.shows_arena hshow hoa).symm⟩

/-- The trees shown along a run freeze one another. -/
theorem arenas_frozen (h : Reach ctl rt task draws c) :
    c.2.arenas.Pairwise fun newer older => Frozen older newer := by
  refine h.strengthen (P := fun c => c.2.arenas.Pairwise fun newer older => Frozen older newer)
    (fun world => List.pairwise_singleton _ _) fun c c' hr hc hs => ?_
  have hi := hr.inv
  have hfrozen := hs.frozen hi
  have hc' := hc
  rw [RunState.arenas, List.pairwise_cons] at hc
  have hkeep : (c'.2.tree.arena :: c.2.log.filterMap Obs.arena?).Pairwise
      fun newer older => Frozen older newer :=
    List.pairwise_cons.mpr ⟨fun x hx => (hc.1 x hx).trans hfrozen, hc.2⟩
  have hadd : ∀ {o : Obs K}, o.shows c →
      (c'.2.tree.arena :: (o :: c.2.log).filterMap Obs.arena?).Pairwise
        fun newer older => Frozen older newer := by
    intro o ho
    cases ha : o.arena? with
    | none => rwa [List.filterMap_cons_none ha]
    | some a =>
      rw [List.filterMap_cons_some ha, Obs.shows_arena ho ha]
      refine List.pairwise_cons.mpr ⟨fun x hx => ?_, hc'⟩
      rcases List.mem_cons.mp hx with rfl | hx
      · exact hfrozen
      · exact (hc.1 x hx).trans hfrozen
  rcases hs.logged hi with he | ⟨o, he, ho, -⟩ | ⟨e, o, he, ho, -⟩
  · rwa [RunState.arenas, he]
  · rw [RunState.arenas, he]
    exact hadd ho
  · rw [RunState.arenas, he, List.filterMap_cons_none rfl]
    exact hadd ho

/-- From a head of the main loop on, the statistics of a dead node stand still. -/
theorem statistics_frozen (h : Reach ctl rt task draws c) {newer older : List (Obs K)}
    {iteration : Nat} {a b : Arena K} {history : List (PhaseTransition K)}
    (hlog : c.2.log = newer ++ .boundary iteration a history :: older)
    (hb : b = c.2.tree.arena ∨ ∃ o ∈ newer, o.arena? = some b) {r : Nat} (hr : r < a.size)
    (hdead : (a.node r).isLive = false) :
    (b.node r).visits = (a.node r).visits ∧ (b.node r).valueSum = (a.node r).valueSum := by
  have hstate : ∃ c₁, Reach ctl rt task draws c₁ ∧ c₁.2.tree.arena = b ∧
      ∃ newer', c₁.2.log = newer' ++ .boundary iteration a history :: older := by
    rcases hb with rfl | ⟨o, ho, hob⟩
    · exact ⟨c, h, rfl, newer, hlog⟩
    · obtain ⟨after, before, rfl⟩ := List.append_of_mem ho
      rw [List.append_assoc, List.cons_append] at hlog
      obtain ⟨c₁, -, h₁, hlog₁, hshow, -⟩ := h.trace hlog (by rintro e rfl; cases hob)
      exact ⟨c₁, h₁, (Obs.shows_arena hshow hob).symm, before, hlog₁⟩
  obtain ⟨c₁, h₁, rfl, newer', hlog₁⟩ := hstate
  obtain ⟨c₀, c₀', h₀, -, ⟨hstage, -, rfl, -⟩, hstep, hsteps⟩ := h₁.trace hlog₁ (by simp)
  have hrest : AtRest r c₀ := ⟨hr, hdead, by rw [hstage]; exact List.not_mem_nil⟩
  exact (h₀.atRest (Relation.ReflTransGen.head hstep hsteps) hrest).2

end Reach

/-- A run ends at its end, however it ends, or before its first iteration. -/
theorem run_over (ctl : TreeSearchController K W) (rt : Runtime K W) (task : Str) (draws : Nat)
    (world : W) : ∃ st, Reach ctl rt task draws (st, finalState (ctl.run rt task draws world)) ∧
      (st = .ended ∨ (finalState (ctl.run rt task draws world)).iteration = 0) := by
  have h := run_spec ctl rt task draws world
  cases hr : ctl.run rt task draws world with
  | ok r s =>
    rw [hr] at h
    exact ⟨_, h.reach, Or.inl rfl⟩
  | error e s =>
    rw [hr] at h
    exact h.2.1

/-- The final state of a run is reachable, however the run ends. -/
theorem run_reach (ctl : TreeSearchController K W) (rt : Runtime K W) (task : Str) (draws : Nat)
    (world : W) : ∃ st, Reach ctl rt task draws (st, finalState (ctl.run rt task draws world)) :=
  (run_over ctl rt task draws world).imp fun _ h => h.1

section WellFormedRuns

variable (ctl : TreeSearchController K W) (rt : Runtime K W) (task : Str) (draws : Nat) (world : W)

/-- Along every run the tree stays well formed, and dead nodes stay as they died. -/
theorem run_keeps_tree_wellFormed (hid : Function.Injective rt.freshId) :
    (∀ t, (finalState (ctl.run rt task draws world)).Observes t →
      WellFormed ctl.config.maxDepth rt.freshId t) ∧
    ((finalState (ctl.run rt task draws world)).arenas.Pairwise
      fun newer older => Frozen older newer) ∧
    ∀ newer older iteration a history, (finalState (ctl.run rt task draws world)).log =
        newer ++ .boundary iteration a history :: older →
      ∀ b, (b = (finalState (ctl.run rt task draws world)).tree.arena ∨
          ∃ o ∈ newer, o.arena? = some b) →
        ∀ r, r < a.size → (a.node r).isLive = false →
          (b.node r).visits = (a.node r).visits ∧ (b.node r).valueSum = (a.node r).valueSum := by
  obtain ⟨st, h⟩ := run_reach ctl rt task draws world
  refine ⟨fun t ht => ?_, h.arenas_frozen, ?_⟩
  · obtain ⟨c₀, h₀, rfl⟩ := h.observed ht
    exact h₀.wellFormed hid
  · intro newer older iteration a history hlog b hb r hr hdead
    exact h.statistics_frozen hlog hb hr hdead

/-- The same for a small run. -/
theorem run_keeps_tree_wellFormed_small :
    WellFormed 2 (Runtime.still (K := ℚ) (W := Unit) fun _ _ => 0).freshId
      (finalState ((pathController smallConfig (fun _ => [lit "go on"]) (fun _ => halfway) :
        TreeSearchController ℚ Unit).run (Runtime.still fun _ _ => 0) (lit "task") 0 ())).tree :=
  (run_keeps_tree_wellFormed (pathController smallConfig (fun _ => [lit "go on"])
    (fun _ => halfway) : TreeSearchController ℚ Unit) (Runtime.still fun _ _ => 0) (lit "task") 0 ()
    (Runtime.still_freshId_injective _)).1 _ (Or.inl rfl)

end WellFormedRuns

end CognitiveTree.Search
