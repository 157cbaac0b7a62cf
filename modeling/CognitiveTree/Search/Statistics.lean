import CognitiveTree.Search.Ledger

/-!
# Visit counts and value sums

The statistics of a node are the tally of its subtree: one visit for each non-root node
below it, or at it, whose batch has been backpropagated, and the sum of their values.
-/

namespace CognitiveTree.Search

open Arena

variable {K W : Type} [PyFloat K]

/-- The nodes whose batch has been backpropagated according to a log. -/
def creditedIn (log : List (Obs K)) : List Nat := (creditsIn log).map Prod.fst

/-- The value a node was backpropagated with. -/
def valueIn [Zero K] (log : List (Obs K)) (r : Nat) : K := ((creditsIn log).lookup r).getD 0

variable {ctl : TreeSearchController K W} {rt : Runtime K W}

section Invariant

/-- The visit counts add up to the credited values, one for each node. -/
structure Counted (c : Stage K × RunState K W) : Prop where
  visits : ∀ n, n < c.2.tree.arena.size →
    (c.2.tree.arena.node n).visits = (valuesBelow c.2.tree.arena (creditsIn c.2.log) n).length
  alloc : ∀ p ∈ creditsIn c.2.log, 0 < p.1 ∧ p.1 < c.2.tree.arena.size
  once : (creditedIn c.2.log).Nodup
  waiting : ∀ d ∈ c.1.batch, d ∉ creditedIn c.2.log

/-- No change but backpropagation moves an existing parent chain. -/
theorem TreeChange.lineage {c : Stage K × RunState K W} {b : Arena K} (h : TreeChange ctl.config c b)
    (hi : Inv ctl rt c) {r : Nat} (hr : r < c.2.tree.arena.size) :
    b.lineage r = c.2.tree.arena.lineage r := by
  cases h with
  | same => rfl
  | prune n _ _ => exact (sameLinks_setStatus _ n .pruned).lineage r
  | verdict n d v todo solution valued _ _ =>
    exact (sameLinks_applyEvaluation _ d v.score _ v.rationale).lineage r
  | child n content focus => exact lineage_attach_old content (hi.working n focus).alloc hr

/-- A node that a change brings into being is unvisited and on no older chain. -/
theorem TreeChange.fresh {c : Stage K × RunState K W} {b : Arena K} (h : TreeChange ctl.config c b)
    (hi : Inv ctl rt c) {n : Nat} (hn : n < b.size) (hnew : c.2.tree.arena.size ≤ n) :
    (b.node n).visits = 0 ∧ (b.node n).valueSum = PyFloat.zero := by
  cases h with
  | same => omega
  | prune m _ _ =>
    have := (sameLinks_setStatus c.2.tree.arena m .pruned).size_eq
    omega
  | verdict m d v todo solution valued _ _ =>
    have := (sameLinks_applyEvaluation c.2.tree.arena d v.score (verdictStatus ctl.config v)
      v.rationale).size_eq
    omega
  | child m content focus =>
    have halloc := (hi.working m focus).alloc
    rw [attachChild_size content halloc] at hn
    have he : n = c.2.tree.arena.size := by omega
    rw [he, attachChild_new content halloc]
    exact ⟨rfl, rfl⟩

/-- The credited values below a node do not depend on the tree's later growth. -/
theorem TreeChange.valuesBelow {c : Stage K × RunState K W} {b : Arena K} (h : TreeChange ctl.config c b)
    (hi : Inv ctl rt c) {values : List (Nat × K)}
    (halloc : ∀ p ∈ values, p.1 < c.2.tree.arena.size) (n : Nat) :
    valuesBelow b values n = valuesBelow c.2.tree.arena values n := by
  unfold Search.valuesBelow
  apply List.filter_congr
  intro p hp
  rw [h.lineage hi (halloc p hp)]

omit [PyFloat K] in
/-- Nothing was credited below a node that is not there yet. -/
theorem valuesBelow_fresh {a : Arena K} {values : List (Nat × K)}
    (halloc : ∀ p ∈ values, p.1 < a.size) {n : Nat} (hn : a.size ≤ n) :
    valuesBelow a values n = [] := by
  refine List.filter_eq_nil_iff.mpr fun p hp hm => ?_
  have hlt := halloc p hp
  have := le_of_mem_lineage hlt (of_decide_eq_true hm)
  omega

namespace Reach

variable {task : Str} {draws : Nat} {c : Stage K × RunState K W}

/-- The visits are counted in every reachable state. -/
theorem counted (h : Reach ctl rt task draws c) : Counted c := by
  refine h.strengthen (P := Counted) (fun world => ⟨?_, by simp [startState, creditsIn],
    by simp [startState, creditsIn, creditedIn], by simp [Stage.batch]⟩) fun c c' hr hc hs => ?_
  · intro n _
    rfl
  have hi := hr.inv
  have hlt : ∀ p ∈ creditsIn c.2.log, p.1 < c.2.tree.arena.size := fun p hp => (hc.alloc p hp).2
  rcases hs.tree_cases hi with ⟨hlog, hchange⟩ | ⟨n, solution, valued, hst, hst', hlog, he⟩
  · have hsize := (hchange.frozen hi).size_le
    refine ⟨?_, ?_, ?_, ?_⟩
    · intro n hn
      rw [hlog, hchange.valuesBelow hi hlt]
      by_cases hold : n < c.2.tree.arena.size
      · rw [(hchange.statistics hi hold).1, hc.visits n hold]
      · rw [(hchange.fresh hi hn (by omega)).1, valuesBelow_fresh hlt (by omega)]
        rfl
    · rw [hlog]
      exact fun p hp => ⟨(hc.alloc p hp).1, (hlt p hp).trans_le hsize⟩
    · rw [creditedIn, hlog]
      exact hc.once
    · rw [creditedIn, hlog]
      intro d hd hm
      obtain ⟨p, hp, rfl⟩ := List.mem_map.mp hm
      exact hc.waiting p.1 (hs.batch hi (hlt p hp) hd) hm
  · have hw := hi.working n (by rw [hst]; rfl)
    have hbatch : c.1.batch = valued.map Prod.fst := by
      rw [hst]
      rfl
    have hmem : ∀ p ∈ valued, p.1 ∈ c.1.batch := fun p hp => by
      rw [hbatch]
      exact List.mem_map_of_mem hp
    have hcore := sameCore_backpropagate c.2.tree.arena valued
    refine ⟨?_, ?_, ?_, ?_⟩
    · intro m hm
      rw [he, hcore.size_eq] at hm
      rw [he, hlog, valuesBelow_congr hcore.toSameLinks,
        backpropagate_visits _ valued (fun p hp => hw.mem_alloc (hmem p hp)), hc.visits m hm]
      simp only [valuesBelow, List.filter_append, List.length_append]
      omega
    · intro p hp
      rw [hlog] at hp
      rw [he, hcore.size_eq]
      rcases List.mem_append.mp hp with hp | hp
      · have hpn := hw.attached _ (hmem p hp)
        exact ⟨Nat.zero_lt_of_lt (lt_of_mem_children hpn), (mem_children.mp hpn).1⟩
      · exact hc.alloc p hp
    · rw [creditedIn, hlog, List.map_append, List.nodup_append]
      refine ⟨hbatch ▸ hw.nodup, hc.once, fun x hx y hy hxy => ?_⟩
      rw [← hbatch] at hx
      exact hc.waiting x hx (hxy ▸ hy)
    · rw [hst']
      exact fun d hd => absurd hd List.not_mem_nil

/-- In exact arithmetic the value sums add up as well. -/
theorem summed [AddCommMonoid K] [ExactSum K] (h : Reach ctl rt task draws c) {n : Nat}
    (hn : n < c.2.tree.arena.size) : (c.2.tree.arena.node n).valueSum =
      ((valuesBelow c.2.tree.arena (creditsIn c.2.log) n).map Prod.snd).sum := by
  revert n
  refine h.strengthen (P := fun c => ∀ {n}, n < c.2.tree.arena.size →
    (c.2.tree.arena.node n).valueSum =
      ((valuesBelow c.2.tree.arena (creditsIn c.2.log) n).map Prod.snd).sum)
    (fun world => fun _ => ExactSum.zero_eq) fun c c' hr hc hs => ?_
  have hi := hr.inv
  have hlt : ∀ p ∈ creditsIn c.2.log, p.1 < c.2.tree.arena.size :=
    fun p hp => (hr.counted.alloc p hp).2
  intro n hn
  rcases hs.tree_cases hi with ⟨hlog, hchange⟩ | ⟨m, solution, valued, hst, -, hlog, he⟩
  · rw [hlog, hchange.valuesBelow hi hlt]
    by_cases hold : n < c.2.tree.arena.size
    · rw [(hchange.statistics hi hold).2, hc hold]
    · rw [(hchange.fresh hi hn (by omega)).2, valuesBelow_fresh hlt (by omega), ExactSum.zero_eq]
      rfl
  · have hw := hi.working m (by rw [hst]; rfl)
    have hcore := sameCore_backpropagate c.2.tree.arena valued
    rw [he, hcore.size_eq] at hn
    rw [he, hlog, valuesBelow_congr hcore.toSameLinks, backpropagate_valueSum _ valued, hc hn]
    · simp only [valuesBelow, List.filter_append, List.map_append, List.sum_append]
      exact add_comm _ _
    · intro p hp
      exact hw.mem_alloc (by rw [hst]; exact List.mem_map_of_mem hp)

end Reach

end Invariant

section Complete

/-- A batch is lost when an exception cut its iteration short. -/
def Lost (c : Stage K × RunState K W) : Prop :=
  (∃ e, c.1 = .faulted e) ∨ c.2.machine.phase = .failed

/-- A run that goes on has lost nothing. -/
theorem not_lost {c : Stage K × RunState K W} (hi : Inv ctl rt c) (hst : ∀ e, c.1 ≠ .faulted e)
    (hover : c.1 ≠ .ended) : ¬ Lost c := by
  rintro (⟨e, he⟩ | hphase)
  · exact hst e he
  · have hterm := Stage.agrees_nonterminal hi.phase hover
    rw [hphase] at hterm
    cases hterm

/-- A step that loses nothing keeps the batch or credits it. -/
theorem Step.batch_kept {c c' : Stage K × RunState K W} (hs : Step ctl rt c c')
    (hi : Inv ctl rt c) (hlost : ¬ Lost c') :
    ¬ Lost c ∧ ∀ r ∈ c.1.batch, r ∈ c'.1.batch ∨ r ∈ creditedIn c'.2.log := by
  have hnone : ∀ {st : Stage K} {P : Nat → Prop}, st.batch = [] → ∀ r ∈ st.batch, P r := by
    intro st P hst r hr
    rw [hst] at hr
    cases hr
  cases hs with
  | @advance s st st' target node detail edge h quiet =>
    cases edge
    case failed e =>
      refine absurd (Or.inr ?_) hlost
      exact congrArg (·.phase) (RunState.mirrored_fields ctl rt
        (s.transitioned rt .failed none e.describe h) .failed none e.describe).2.1
    case candidates => exact ⟨not_lost hi (by simp) (by simp), fun r hr => Or.inl hr⟩
    case valued =>
      exact ⟨not_lost hi (by simp) (by simp), fun r hr => Or.inl (by simpa [Stage.batch] using hr)⟩
    all_goals exact ⟨not_lost hi (by simp) (by simp), hnone rfl⟩
  | @advanceRaised s st st' target node detail e edge h raised =>
    cases edge
    case failed e =>
      refine absurd (Or.inr ?_) hlost
      exact congrArg (·.phase) (RunState.mirrored_fields ctl rt
        (s.transitioned rt .failed none e.describe h) .failed none e.describe).2.1
    all_goals first
      | exact absurd (Or.inl ⟨_, rfl⟩) hlost
      | exact ⟨not_lost hi (by simp) (by simp), hnone rfl⟩
  | refuse =>
    refine ⟨?_, hnone rfl⟩
    rintro (⟨_, he⟩ | hphase)
    · cases he
    · exact hlost (Or.inr hphase)
  | stopRaised | reviseRaised | generateRaised | collectRaised | critiqueRaised | shapeRaised =>
    exact absurd (Or.inl ⟨_, rfl⟩) hlost
  | attach => exact ⟨not_lost hi (by simp) (by simp), fun r hr => Or.inl (List.mem_append_left _ hr)⟩
  | skip | evaluate | judge | unexamined | uncritiqued | critiqued =>
    exact ⟨not_lost hi (by simp) (by simp), fun r hr => Or.inl hr⟩
  | collected order _ =>
    refine ⟨not_lost hi (by simp) (by simp), fun r hr => Or.inl ?_⟩
    rw [← order] at hr
    exact hr
  | unshaped | shape =>
    exact ⟨not_lost hi (by simp) (by simp), fun r hr => Or.inl (by simpa [Stage.batch] using hr)⟩
  | credit =>
    refine ⟨not_lost hi (by simp) (by simp), fun r hr => Or.inr ?_⟩
    change r ∈ List.map Prod.fst (_ ++ _)
    rw [List.map_append]
    exact List.mem_append_left _ hr
  | _ => exact ⟨not_lost hi (by simp) (by simp), hnone rfl⟩

/-- New nodes belong to the batch. -/
theorem Step.new_mem_batch {c c' : Stage K × RunState K W} (hs : Step ctl rt c c')
    (hi : Inv ctl rt c) {r : Nat} (hr : c.2.tree.arena.size ≤ r)
    (hr' : r < c'.2.tree.arena.size) : r ∈ c'.1.batch := by
  rcases hs.index_cases hi with ⟨-, hsize⟩ | ⟨-, hsize⟩
  · omega
  · have he : r = c.2.tree.arena.size := by omega
    cases hs with
    | @attach s n content rest seen batch c tree _ _ added =>
      rw [ThoughtTree.addChild, if_pos (hi.indexed n (hi.working n rfl).alloc)] at added
      cases added
      rw [he]
      exact List.mem_append_right _ (List.mem_singleton.mpr rfl)
    | @advance s st st' target node detail edge h quiet =>
      rw [(RunState.mirrored_fields ctl rt (s.transitioned rt target node detail h) target node
        detail).1] at hr'
      exact absurd hr' (not_lt.mpr hr)
    | @advanceRaised s st st' target node detail e edge h raised =>
      rw [(RunState.mirrored_fields ctl rt (s.transitioned rt target node detail h) target node
        detail).1] at hr'
      exact absurd hr' (not_lt.mpr hr)
    | cap | collapse | retreat =>
      change r < (Arena.pruneSubtree _ _).1.size at hr'
      rw [(sameLinks_pruneSubtree _ _).size_eq] at hr'
      exact absurd hr' (not_lt.mpr hr)
    | credit =>
      change r < (backpropagateArena _ _).size at hr'
      rw [(sameCore_backpropagate _ _).size_eq] at hr'
      exact absurd hr' (not_lt.mpr hr)
    | _ => exact absurd hr' (not_lt.mpr hr)

/-- Unless an exception interfered, every node is credited or in the current batch. -/
theorem Reach.complete {task : Str} {draws : Nat} {c : Stage K × RunState K W}
    (h : Reach ctl rt task draws c) (hlost : ¬ Lost c) {r : Nat} (h0 : 0 < r)
    (hr : r < c.2.tree.arena.size) : r ∈ creditedIn c.2.log ∨ r ∈ c.1.batch := by
  revert hlost r
  refine h.strengthen (P := fun c => ¬ Lost c → ∀ {r}, 0 < r → r < c.2.tree.arena.size →
    r ∈ creditedIn c.2.log ∨ r ∈ c.1.batch) (fun world => ?_) fun c c' hr hc hs => ?_
  · intro _ r h0 hr
    exact absurd hr (Nat.not_lt.mpr h0)
  · intro hlost r h0 hlt
    have hi := hr.inv
    obtain ⟨hlost₀, hkept⟩ := hs.batch_kept hi hlost
    by_cases hold : r < c.2.tree.arena.size
    · rcases hc hlost₀ h0 hold with hcredited | hbatch
      · refine Or.inl ?_
        rcases hs.tree_cases hi with ⟨hlog, -⟩ | ⟨_, _, valued, -, -, hlog, -⟩ <;>
          rw [creditedIn, hlog]
        · exact hcredited
        · rw [List.map_append]
          exact List.mem_append_right _ hcredited
      · exact (hkept r hbatch).symm
    · exact Or.inr (hs.new_mem_batch hi (by omega) hlt)

end Complete

section Subtree

omit [PyFloat K] in
/-- Grouping by keys: the entries with keys from a duplicate-free list, looked up one by
one. -/
theorem perm_lookup {values : List (Nat × K)} (honce : (values.map Prod.fst).Nodup)
    {keys : List Nat} (hkeys : keys.Nodup) (p : Nat × K → Bool)
    (hp : ∀ x ∈ values, p x = true ↔ x.1 ∈ keys) :
    ((values.filter p).map Prod.fst).Perm (keys.filter fun r => r ∈ values.map Prod.fst) := by
  refine (List.perm_ext_iff_of_nodup ?_ (hkeys.filter _)).mpr fun r => ?_
  · exact honce.sublist (List.filter_sublist.map _)
  · rw [List.mem_filter, decide_eq_true_eq, List.mem_map, List.mem_map]
    constructor
    · rintro ⟨x, hx, rfl⟩
      obtain ⟨hx, hpx⟩ := List.mem_filter.mp hx
      exact ⟨(hp x hx).mp hpx, x, hx, rfl⟩
    · rintro ⟨hr, x, hx, rfl⟩
      exact ⟨x, List.mem_filter.mpr ⟨hx, (hp x hx).mpr hr⟩, rfl⟩

omit [PyFloat K] in
/-- A value credited once is looked up. -/
theorem lookup_of_mem {values : List (Nat × K)} (honce : (values.map Prod.fst).Nodup)
    {x : Nat × K} (hx : x ∈ values) : values.lookup x.1 = some x.2 := by
  induction values with
  | nil => cases hx
  | cons y values ih =>
    rw [List.map_cons, List.nodup_cons] at honce
    rcases List.mem_cons.mp hx with rfl | hx
    · exact List.lookup_cons_self
    · have hne : x.1 ≠ y.1 := fun he => honce.1 (he ▸ List.mem_map_of_mem hx)
      rw [List.lookup_cons, beq_false_of_ne hne]
      exact ih honce.2 hx

end Subtree

/-- The statistics of a tree are the tally of what a log says was backpropagated. -/
structure Tally [AddCommMonoid K] (ctl : TreeSearchController K W) (a : Arena K)
    (log : List (Obs K)) : Prop where
  once : (creditedIn log).Nodup
  nonroot : ∀ r ∈ creditedIn log, r ≠ 0 ∧ r < a.size
  value : ∀ r ∈ creditedIn log, ValueOf ctl log (r, valueIn log r)
  visits : ∀ n, n < a.size →
    (a.node n).visits = ((a.walk n).filter fun r => r ∈ creditedIn log).length
  valueSum : ∀ n, n < a.size →
    (a.node n).valueSum = (((a.walk n).filter fun r => r ∈ creditedIn log).map (valueIn log)).sum

namespace Reach

variable {task : Str} {draws : Nat} {c : Stage K × RunState K W}

/-- The credited nodes below `n`, found by walking its subtree. -/
theorem perm_credited (h : Reach ctl rt task draws c) {n : Nat} (hn : n < c.2.tree.arena.size) :
    ((valuesBelow c.2.tree.arena (creditsIn c.2.log) n).map Prod.fst).Perm
      ((c.2.tree.arena.walk n).filter fun r => r ∈ creditedIn c.2.log) := by
  refine perm_lookup h.counted.once (walk_nodup _ hn) _ fun x hx => ?_
  rw [mem_walk hn, decide_eq_true_eq]
  exact ⟨fun hm => ⟨(h.counted.alloc x hx).2, hm⟩, fun hm => hm.2⟩

/-- A node has a visit for each credited node below it. -/
theorem visits_eq (h : Reach ctl rt task draws c) {n : Nat} (hn : n < c.2.tree.arena.size) :
    (c.2.tree.arena.node n).visits =
      ((c.2.tree.arena.walk n).filter fun r => r ∈ creditedIn c.2.log).length := by
  rw [h.counted.visits n hn, ← (h.perm_credited hn).length_eq, List.length_map]

/-- The tally is right in every reachable state. -/
theorem tally [AddCommMonoid K] [ExactSum K] (h : Reach ctl rt task draws c) :
    Tally ctl c.2.tree.arena c.2.log := by
  have hvalue : ∀ x ∈ creditsIn c.2.log, valueIn c.2.log x.1 = x.2 := fun x hx => by
    rw [valueIn, lookup_of_mem h.counted.once hx]
    rfl
  refine ⟨h.counted.once, ?_, ?_, fun n hn => h.visits_eq hn, ?_⟩
  · intro r hr
    obtain ⟨x, hx, rfl⟩ := List.mem_map.mp hr
    exact ⟨Nat.pos_iff_ne_zero.mp (h.counted.alloc x hx).1, (h.counted.alloc x hx).2⟩
  · intro r hr
    obtain ⟨x, hx, rfl⟩ := List.mem_map.mp hr
    rw [hvalue x hx]
    exact h.valueLedger.known x (List.mem_append_right _ hx)
  · intro n hn
    rw [h.summed hn, ← ((h.perm_credited hn).map (valueIn c.2.log)).sum_eq, List.map_map]
    congr 1
    apply List.map_congr_left
    intro x hx
    exact (hvalue x (List.mem_filter.mp hx).1).symm

/-- Unless an exception interfered, the root counts every other node. -/
theorem root_visits (h : Reach ctl rt task draws c) (hlost : ¬ Lost c) (hbatch : c.1.batch = []) :
    (c.2.tree.arena.node 0).visits + 1 = c.2.tree.arena.size := by
  have h0 := c.2.tree.arena.linked.nonempty
  have hperm : ((c.2.tree.arena.walk 0).filter fun r => r ∈ creditedIn c.2.log).Perm
      ((List.range c.2.tree.arena.size).erase 0) := by
    refine (List.perm_ext_iff_of_nodup ((walk_nodup _ h0).filter _)
      (List.nodup_range.erase 0)).mpr fun r => ?_
    rw [List.mem_filter, mem_walk_root, decide_eq_true_eq, List.nodup_range.mem_erase_iff,
      List.mem_range]
    constructor
    · rintro ⟨hr, hm⟩
      obtain ⟨x, hx, rfl⟩ := List.mem_map.mp hm
      exact ⟨Nat.pos_iff_ne_zero.mp (h.counted.alloc x hx).1, hr⟩
    · rintro ⟨hne, hr⟩
      rcases h.complete hlost (Nat.pos_of_ne_zero hne) hr with hm | hm
      · exact ⟨hr, hm⟩
      · rw [hbatch] at hm
        cases hm
  rw [h.visits_eq h0, hperm.length_eq, List.length_erase_of_mem (List.mem_range.mpr h0),
    List.length_range]
  omega

/-- When every node is credited, a node's visits exceed the sum of its children's by its
own. -/
theorem visits_children (h : Reach ctl rt task draws c) (hlost : ¬ Lost c)
    (hbatch : c.1.batch = []) {n : Nat} (hn : n < c.2.tree.arena.size) :
    (c.2.tree.arena.node n).visits =
      (((c.2.tree.arena.node n).children.map fun d => (c.2.tree.arena.node d).visits).sum) +
        if n = 0 then 0 else 1 := by
  have hsum : ∀ cs : List Nat, (∀ d ∈ cs, d < c.2.tree.arena.size) →
      ((cs.flatMap c.2.tree.arena.preorder).filter fun r => r ∈ creditedIn c.2.log).length =
        (cs.map fun d => (c.2.tree.arena.node d).visits).sum := by
    intro cs hcs
    induction cs with
    | nil => rfl
    | cons d cs ih =>
      have hd := hcs d (List.mem_cons_self ..)
      rw [List.flatMap_cons, List.filter_append, List.length_append,
        ih fun x hx => hcs x (List.mem_cons_of_mem _ hx), List.map_cons, List.sum_cons,
        h.visits_eq hd, walk_eq_preorder _ hd]
  have hself : decide (n ∈ creditedIn c.2.log) = decide (n ≠ 0) := by
    refine decide_eq_decide.mpr ⟨fun hm => ?_, fun hne => ?_⟩
    · obtain ⟨x, hx, rfl⟩ := List.mem_map.mp hm
      exact Nat.pos_iff_ne_zero.mp (h.counted.alloc x hx).1
    · rcases h.complete hlost (Nat.pos_of_ne_zero hne) hn with hm | hm
      · exact hm
      · rw [hbatch] at hm
        cases hm
  rw [h.visits_eq hn, walk_eq_preorder _ hn, preorder_eq _ hn, List.filter_cons, hself,
    ← hsum _ fun d hd => (mem_children.mp hd).1]
  by_cases h0 : n = 0
  · simp [h0]
  · simp [h0]

end Reach

section Tallies

variable [AddCommMonoid K] [ExactSum K] (ctl : TreeSearchController K W) (rt : Runtime K W)
  (task : Str) (draws : Nat) (world : W)

/-- Backpropagation loses and doubles nothing along a whole run. -/
theorem run_tallies_backpropagated_values :
    (∀ newer older record iteration node t,
      (finalState (ctl.run rt task draws world)).log =
          newer ++ .transition record iteration node t :: older →
        Tally ctl t.arena older) ∧
    Tally ctl (finalState (ctl.run rt task draws world)).tree.arena
      (finalState (ctl.run rt task draws world)).log ∧
    (∀ r s, ctl.run rt task draws world = .ok r s → r.outcome ≠ .failed →
      Function.Injective rt.freshId → (r.tree.arena.node 0).visits = r.nodeCount - 1) ∧
    ∀ a, .selection a ∈ (finalState (ctl.run rt task draws world)).log → ∀ n, n < a.size →
      (n ≠ 0 → 1 ≤ (a.node n).visits) ∧
        ((a.node n).children.map fun d => (a.node d).visits).sum ≤ (a.node n).visits := by
  obtain ⟨st, h⟩ := run_reach ctl rt task draws world
  refine ⟨?_, h.tally, ?_, ?_⟩
  · intro newer older record iteration node t hlog
    obtain ⟨c₀, -, h₀, rfl, hshow, -⟩ := h.trace hlog (by simp)
    rw [hshow.2.1]
    exact h₀.tally
  · intro r s hrun hne hid
    have hr : Reported ctl rt task draws r s := by
      have hspec := run_spec ctl rt task draws world
      rwa [hrun] at hspec
    have hlost : ¬ Lost (Stage.ended, s) := by
      rintro (⟨e, he⟩ | hphase)
      · cases he
      · exact hne ((outcomeByPhase_failed hr.outcome).mpr hphase)
    have hroot := hr.reach.root_visits hlost rfl
    have hlen : r.nodeCount = s.tree.arena.size := by
      rw [hr.nodeCount, ThoughtTree.len, hr.reach.index_eq hid, List.length_map, List.length_range]
    rw [hr.tree, hlen, ← hroot]
    rfl
  · intro a ha n hn
    obtain ⟨newer, older, hlog⟩ := List.append_of_mem ha
    obtain ⟨c₀, -, h₀, -, ⟨hstage, rfl⟩, -⟩ := h.trace hlog (by simp)
    have hlost := not_lost h₀.inv (by simp [hstage]) (by simp [hstage])
    have hvisits := h₀.visits_children hlost (by rw [hstage]; rfl) hn
    rw [hvisits]
    refine ⟨fun hne => ?_, Nat.le_add_right _ _⟩
    rw [if_neg hne]
    omega

/-- The same for a small run. -/
theorem run_tallies_backpropagated_values_small :
    Tally (pathController smallConfig (fun _ => [lit "go on"]) (fun _ => halfway) :
        TreeSearchController ℚ Unit)
      (finalState ((pathController smallConfig (fun _ => [lit "go on"]) (fun _ => halfway) :
        TreeSearchController ℚ Unit).run (Runtime.still fun _ _ => 0) (lit "task") 0 ())).tree.arena
      (finalState ((pathController smallConfig (fun _ => [lit "go on"]) (fun _ => halfway) :
        TreeSearchController ℚ Unit).run (Runtime.still fun _ _ => 0) (lit "task") 0 ())).log :=
  (run_tallies_backpropagated_values (pathController smallConfig (fun _ => [lit "go on"])
    (fun _ => halfway) : TreeSearchController ℚ Unit) (Runtime.still fun _ _ => 0) (lit "task") 0
    ()).2.1

end Tallies

end CognitiveTree.Search
