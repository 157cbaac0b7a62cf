import CognitiveTree.Search.Refinement

/-!
# Selection on any tree

Selection is followed from an arbitrary state: any statuses and statistics, dead nodes with live
descendants included. The measure of its outer loop is the number of live nodes, which every
prune lowers by what it counts; the inner loop moves to younger nodes only.
-/

namespace CognitiveTree.Search

open Arena

variable {K W : Type}

namespace Arena

/-- Killing a live node lowers the number of live nodes by one. -/
theorem liveCount_setStatus {a : Arena K} {r : Nat} (hr : r < a.size)
    (hlive : (a.node r).isLive = true) : (a.setStatus r .pruned).liveCount + 1 = a.liveCount := by
  have hfilter : (List.range a.size).filter (fun x => ((a.setStatus r .pruned).node x).isLive) =
      ((List.range a.size).filter fun x => (a.node x).isLive).erase r := by
    rw [(List.nodup_range.filter _).erase_eq_filter, List.filter_filter]
    refine List.filter_congr fun x _ => ?_
    rw [setStatus_node]
    by_cases hx : x = r
    · simp [hx, ThoughtNode.isLive, NodeStatus.isLive]
    · simp [hx]
  have hmem : r ∈ (List.range a.size).filter fun x => (a.node x).isLive :=
    List.mem_filter.mpr ⟨List.mem_range.mpr hr, hlive⟩
  have hpos := List.length_pos_of_mem hmem
  change ((List.range a.size).filter fun x => ((a.setStatus r .pruned).node x).isLive).length + 1 = _
  rw [hfilter, List.length_erase_of_mem hmem, liveCount]
  omega

/-- What the pruning loop counts is what the number of live nodes goes down by. -/
theorem liveCount_foldl_pruneVisit {rs : List Nat} {acc : Arena K × Nat}
    (h : ∀ r ∈ rs, r < acc.1.size) :
    (rs.foldl pruneVisit acc).1.liveCount + (rs.foldl pruneVisit acc).2 =
      acc.1.liveCount + acc.2 := by
  induction rs generalizing acc with
  | nil => rfl
  | cons r rs ih =>
    rw [List.foldl_cons]
    by_cases hlive : (acc.1.node r).isLive = true
    · have hcount := liveCount_setStatus (h r (List.mem_cons_self ..)) hlive
      have hrest := @ih (acc.1.setStatus r .pruned, acc.2 + 1)
        fun x hx => h x (List.mem_cons_of_mem _ hx)
      rw [pruneVisit, if_pos hlive, hrest]
      dsimp only
      omega
    · rw [pruneVisit, if_neg hlive]
      exact ih fun x hx => h x (List.mem_cons_of_mem _ hx)

/-- The count of the pruning loop never goes down. -/
theorem le_foldl_pruneVisit (rs : List Nat) (acc : Arena K × Nat) :
    acc.2 ≤ (rs.foldl pruneVisit acc).2 := by
  induction rs generalizing acc with
  | nil => exact le_rfl
  | cons r rs ih =>
    rw [List.foldl_cons]
    refine le_trans ?_ (ih _)
    rw [pruneVisit]
    split
    · exact Nat.le_succ _
    · exact le_rfl

/-- Pruning a live node kills as many nodes as it counts, and at least this one. -/
theorem liveCount_pruneSubtree {a : Arena K} {n : Nat} (hn : n < a.size)
    (hlive : (a.node n).isLive = true) :
    (a.pruneSubtree n).1.liveCount + (a.pruneSubtree n).2 = a.liveCount ∧
      1 ≤ (a.pruneSubtree n).2 := by
  constructor
  · exact liveCount_foldl_pruneVisit fun r hr => ((mem_walk hn).mp hr).1
  · rw [pruneSubtree, walk_eq_preorder a hn, preorder_eq a hn, List.foldl_cons, pruneVisit,
      if_pos hlive]
    exact le_foldl_pruneVisit _ (a.setStatus n .pruned, 0 + 1)

end Arena

variable [PyFloat K] {ctl : TreeSearchController K W} {rt : Runtime K W}

/-- The action is a prune, after which the descent restarts. -/
def Obs.isPrune : Obs K → Bool
  | .pruned _ _ => true
  | _ => false

/-- How often the descent restarted according to a log. -/
def restarts (log : List (Obs K)) : Nat := log.countP Obs.isPrune

/-- From one state of a selection to a later one: each restart has cost at least one live node. -/
def Shrinks (s s' : RunState K W) : Prop :=
  ∃ newer, s'.log = newer ++ s.log ∧ (∀ n k, .pruned n k ∈ newer → 1 ≤ k) ∧
    s'.tree.arena.liveCount + restarts newer ≤ s.tree.arena.liveCount

theorem Shrinks.refl (s : RunState K W) : Shrinks s s :=
  ⟨[], rfl, fun _ _ h => absurd h List.not_mem_nil, le_rfl⟩

/-- An action that is no prune and leaves the tree alone. -/
theorem Shrinks.noted {s s' s'' : RunState K W} (h : Shrinks s s') {o : Obs K}
    (ho : o.isPrune = false) (hlog : s''.log = o :: s'.log) (htree : s''.tree = s'.tree) :
    Shrinks s s'' := by
  obtain ⟨newer, he, hpruned, hcount⟩ := h
  refine ⟨o :: newer, by rw [hlog, he, List.cons_append], fun n k hm => ?_, ?_⟩
  · rcases List.mem_cons.mp hm with rfl | hm
    · cases ho
    · exact hpruned n k hm
  · rw [restarts, List.countP_cons, ho, htree]
    exact hcount

theorem Shrinks.pruned {s s' : RunState K W} (h : Shrinks s s') {n : Nat}
    (hn : n < s'.tree.arena.size) (hlive : (s'.tree.arena.node n).isLive = true) :
    Shrinks s (s'.pruned n) := by
  obtain ⟨newer, he, hpruned, hcount⟩ := h
  obtain ⟨hkilled, hpos⟩ := liveCount_pruneSubtree hn hlive
  refine ⟨.pruned n (s'.tree.arena.pruneSubtree n).2 :: newer, ?_, fun m k hm => ?_, ?_⟩
  · exact congrArg (List.cons _) he
  · rcases List.mem_cons.mp hm with hm | hm
    · cases hm
      exact hpos
    · exact hpruned m k hm
  · rw [restarts, List.countP_cons]
    change (s'.tree.arena.pruneSubtree n).1.liveCount + (restarts newer + 1) ≤ _
    omega

/-- What selection returns: a live node below live nodes only, a leaf above the depth cap or a
saturated node for which a revision was just granted. -/
structure Picked (ctl : TreeSearchController K W) (s : RunState K W) (n : Nat) (revived : Bool) :
    Prop where
  alloc : n < s.tree.arena.size
  live : ∀ x ∈ s.tree.arena.lineage n, (s.tree.arena.node x).isLive = true
  kind : ((s.tree.arena.node n).children = [] ∧
      (s.tree.arena.node n).depth < ctl.config.maxDepth ∧ revived = false) ∨
    (Saturated s.tree.arena n ∧ revived = true ∧ s.log.head? = some (.revise n (.ok true)))

/-- The last action was a prune that turned live nodes of this arena dead. -/
def Restarted (a : Arena K) (s : RunState K W) : Prop :=
  ∃ n k, s.log.head? = some (.pruned n k) ∧ 1 ≤ k ∧ s.tree.arena.liveCount + k = a.liveCount

/-- Where selection stops early: the revision policy raised. -/
def PolicyRaised (s₀ : RunState K W) : Signal → RunState K W → Prop
  | .raised e, s => Shrinks s₀ s ∧ ∃ n, s.log.head? = some (.revise n (.error e))
  | .diverged, _ => False

section Loops

variable (ctl : TreeSearchController K W) (rt : Runtime K W) (s₀ : RunState K W)

/-- `max` over live children picks one of them and leaves the tree alone. -/
theorem pickChild_spec {a : Arena K} {live : List Nat} (hne : live ≠ [])
    (hparent : ∀ c ∈ live, ∃ p, (a.node c).parent = some p) :
    Triple (fun s => Shrinks s₀ s ∧ s.tree.arena = a) (pickChild ctl rt live)
      (fun c s => (Shrinks s₀ s ∧ s.tree.arena = a) ∧ c ∈ live) (PolicyRaised s₀) := by
  refine Triple.get_bind ?_
  rintro s ⟨hs, rfl⟩
  obtain ⟨keys, hrun, hkeys⟩ := @Follows.childKeys_run K W _ ctl rt live s hparent
  refine Triple.of_ok hrun ?_
  have hkne : keys ≠ [] := fun he => hne (by rw [← hkeys, he]; rfl)
  obtain ⟨c, hc⟩ : ∃ c, maxByKey PyFloat.pairGt keys = some c := maxByKey_isSome hkne
  refine Triple.bind (Triple.modify _ (Q := fun _ s' => Shrinks s₀ s' ∧
    s'.tree.arena = s.tree.arena) ?_) fun _ => ?_
  · rintro _ rfl
    exact ⟨hs.noted rfl rfl rfl, rfl⟩
  · rw [hc]
    have hmem := hkeys ▸ maxByKey_mem hc
    exact Triple.pure _ fun s' hs' => ⟨hs', hmem⟩

/-- A dead end is pruned, at the cost of one live node at least. -/
theorem prune_spec {a : Arena K} {n : Nat} (hn : n < a.size)
    (hlive : (a.node n).isLive = true) :
    Triple (fun s => Shrinks s₀ s ∧ s.tree.arena = a) (prune (W := W) n)
      (fun _ s => Shrinks s₀ s ∧ Restarted a s) (PolicyRaised s₀) := by
  refine Triple.modify _ ?_
  rintro s ⟨hs, rfl⟩
  obtain ⟨hkilled, hpos⟩ := liveCount_pruneSubtree hn hlive
  exact ⟨hs.pruned hn hlive, n, _, rfl, hpos, hkilled⟩

/-- A saturated node is offered to the revision policy, whose grant is the last thing logged. -/
theorem revise_spec (a : Arena K) (n : Nat) :
    Triple (fun s => Shrinks s₀ s ∧ s.tree.arena = a) (revise ctl n)
      (fun granted s => (Shrinks s₀ s ∧ s.tree.arena = a) ∧
        (granted = true → s.log.head? = some (.revise n (.ok true)))) (PolicyRaised s₀) := by
  unfold revise
  cases ctl.revisionPolicy with
  | none => exact Triple.pure _ fun s hs => ⟨hs, fun h => nomatch h⟩
  | some policy =>
    refine consult_spec ?_ ?_
    · rintro s granted ⟨hs, rfl⟩ ha
      refine ⟨⟨hs.noted rfl rfl rfl, rfl⟩, ?_⟩
      rintro rfl
      rw [ha]
      rfl
    · rintro s e ⟨hs, -⟩ ha
      exact ⟨hs.noted rfl rfl rfl, n, by rw [ha]; rfl⟩

/-- One descent below live nodes finds a node or kills a live one before it asks for a restart. -/
theorem descend_spec (a : Arena K) (fuel n : Nat) (hn : n < a.size)
    (hlive : ∀ x ∈ a.lineage n, (a.node x).isLive = true) (hfuel : a.size ≤ n + fuel) :
    Triple (fun s => Shrinks s₀ s ∧ s.tree.arena = a) (descend ctl rt fuel n)
      (fun d s => Shrinks s₀ s ∧ match d with
        | .restart => Restarted a s
        | .found m revived => Picked ctl s m revived) (PolicyRaised s₀) := by
  induction fuel generalizing n with
  | zero => omega
  | succ fuel ih =>
    have hself := hlive n (mem_lineage_self a n)
    refine Triple.get_bind ?_
    rintro s ⟨hs, rfl⟩
    refine Triple.ite (fun hleaf => Triple.ite (fun hshallow => ?_) fun hdeep => ?_) fun hkids =>
      Triple.ite (fun hsat => ?_) fun hopen => ?_
    · refine Triple.pure _ ?_
      rintro _ rfl
      exact ⟨hs, hn, hlive, Or.inl ⟨hleaf, hshallow, rfl⟩⟩
    · -- a leaf at the depth cap
      refine Triple.bind ((prune_spec s₀ hn hself).pre ?_) fun _ => Triple.pure _ fun _ h => h
      rintro _ rfl
      exact ⟨hs, rfl⟩
    · -- a saturated node
      refine Triple.bind ((revise_spec ctl s₀ s.tree.arena n).pre ?_) fun granted => ?_
      · rintro _ rfl
        exact ⟨hs, rfl⟩
      · cases granted with
        | true =>
          refine Triple.pure _ ?_
          rintro s' ⟨⟨hs', ha⟩, hgrant⟩
          refine ⟨hs', ha ▸ hn, ha ▸ hlive, Or.inr ⟨?_, rfl, hgrant rfl⟩⟩
          rw [ha]
          exact ⟨hkids, hsat⟩
        | false =>
          exact Triple.bind ((prune_spec s₀ hn hself).pre fun _ h => h.1) fun _ =>
            Triple.pure _ fun _ h => h
    · refine Triple.bind ((pickChild_spec ctl rt s₀ hopen fun c hc =>
        ⟨n, (mem_children.mp (mem_liveChildren.mp hc).1).2⟩).pre ?_) fun c =>
          Triple.of_forall fun s' hs' => ?_
      · rintro _ rfl
        exact ⟨hs, rfl⟩
      · obtain ⟨hcn, hclive⟩ := mem_liveChildren.mp hs'.2
        obtain ⟨hcs, hcp⟩ := mem_children.mp hcn
        have hlt := lt_of_mem_children hcn
        refine (ih c hcs (fun x hx => ?_) (by omega)).pre ?_
        · rcases (mem_lineage_child hcs hcp).mp hx with rfl | hx
          · exact hclive
          · exact hlive x hx
        · rintro _ rfl
          exact hs'.1

/-- A descent from a live root. -/
theorem descend_root_spec (a : Arena K) (hroot : (a.node 0).isLive = true) :
    Triple (fun s => Shrinks s₀ s ∧ s.tree.arena = a) (descend ctl rt a.size 0)
      (fun d s => Shrinks s₀ s ∧ match d with
        | .restart => Restarted a s
        | .found m revived => Picked ctl s m revived) (PolicyRaised s₀) := by
  refine descend_spec ctl rt s₀ a a.size 0 a.linked.nonempty (fun x hx => ?_) (by omega)
  rw [lineage_root, List.mem_singleton] at hx
  rwa [hx]

/-- Each round of the outer loop ends the selection or leaves fewer live nodes. -/
theorem selectFrom_spec (fuel : Nat) :
    Triple (fun s => Shrinks s₀ s ∧ s.tree.arena.liveCount < fuel) (selectFrom ctl rt fuel)
      (fun found s => Shrinks s₀ s ∧ match found with
        | none => (s.tree.arena.node 0).isLive = false
        | some (n, revived) => Picked ctl s n revived) (PolicyRaised s₀) := by
  induction fuel with
  | zero =>
    rintro s ⟨-, hfuel⟩
    omega
  | succ fuel ih =>
    refine Triple.get_bind ?_
    rintro s ⟨hs, hfuel⟩
    refine Triple.ite (fun hlive => ?_) fun hdead => ?_
    · refine Triple.bind ((descend_root_spec ctl rt s₀ s.tree.arena hlive).pre ?_) fun d => ?_
      · rintro _ rfl
        exact ⟨hs, rfl⟩
      · cases d with
        | restart =>
          refine ih.pre ?_
          rintro s' ⟨hs', n, k, -, hpos, hkilled⟩
          exact ⟨hs', by omega⟩
        | found m revived => exact Triple.pure _ fun _ h => h
    · refine Triple.pure _ ?_
      rintro _ rfl
      exact ⟨hs, by simpa using hdead⟩

end Loops

variable (ctl rt)

/-- A descent that asks for a restart has just turned live nodes dead. -/
theorem restarted_of_descend {s s' : RunState K W} (hroot : (s.tree.arena.node 0).isLive = true)
    (h : descend ctl rt s.tree.arena.size 0 s = .ok .restart s') : Restarted s.tree.arena s' := by
  have hspec := descend_root_spec ctl rt s s.tree.arena hroot s ⟨Shrinks.refl s, rfl⟩
  rw [h] at hspec
  exact hspec.2

/-- Rounds beyond the number of live nodes are never begun. -/
theorem selectFrom_rounds {fuel fuel' : Nat} {s : RunState K W}
    (h : s.tree.arena.liveCount < fuel) (h' : s.tree.arena.liveCount < fuel') :
    selectFrom ctl rt fuel s = selectFrom ctl rt fuel' s := by
  induction fuel generalizing fuel' s with
  | zero => omega
  | succ fuel ih =>
    obtain ⟨fuel', rfl⟩ : ∃ n, fuel' = n + 1 := ⟨fuel' - 1, by omega⟩
    rw [selectFrom, selectFrom, get_bind_run, get_bind_run]
    by_cases hroot : (s.tree.arena.node 0).isLive = true
    · rw [if_pos hroot, if_pos hroot]
      cases hd : descend ctl rt s.tree.arena.size 0 s with
      | error e s' => rw [bind_of_error hd, bind_of_error hd]
      | ok d s' =>
        rw [bind_of_ok hd, bind_of_ok hd]
        cases d with
        | found m revived => rfl
        | restart =>
          obtain ⟨n, k, -, hpos, hkilled⟩ := restarted_of_descend ctl rt hroot hd
          exact ih (by omega) (by omega)
    · rw [if_neg hroot, if_neg hroot]

/-- The root of an arena with a node below live nodes only is live. -/
theorem Picked.root_live {ctl : TreeSearchController K W} {s : RunState K W} {n : Nat} {revived : Bool}
    (h : Picked ctl s n revived) : (s.tree.arena.node 0).isLive = true :=
  h.live 0 (root_mem_lineage _ h.alloc)

/-- What one selection from the state `s` does, whatever the statuses and the statistics of its
tree, the random stream and the answers of the revision policy. -/
structure Selects (s : RunState K W) : Prop where
  /-- A restart follows a prune that turned at least one live node dead. -/
  restarted : ∀ s', (s.tree.arena.node 0).isLive = true →
    descend ctl rt s.tree.arena.size 0 s = .ok .restart s' → Restarted s.tree.arena s'
  /-- One round more than there are live nodes is enough, so there are at most as many restarts. -/
  rounds : ∀ extra, select ctl rt s =
    selectFrom ctl rt (s.tree.arena.liveCount + 1 + extra) (s.noted (.selection s.tree.arena))
  /-- Restarts and the nodes still live at the end are together no more than the live nodes. -/
  shrinks : Shrinks s (finalState (select ctl rt s))
  /-- The selection ends: with a node, with nothing, or with the policy's own exception. -/
  ends : match select ctl rt s with
    | .ok none s' => (s'.tree.arena.node 0).isLive = false
    | .ok (some (n, revived)) s' =>
      (s'.tree.arena.node 0).isLive = true ∧ Picked ctl s' n revived
    | .error (.raised e) s' => ∃ n, s'.log.head? = some (.revise n (.error e))
    | .error .diverged _ => False

/-- Selection terminates on every tree. -/
theorem select_terminates (s : RunState K W) : Selects ctl rt s := by
  have hlive := liveCount_le s.tree.arena
  have hnoted : Shrinks s (s.noted (.selection s.tree.arena)) :=
    (Shrinks.refl s).noted rfl rfl rfl
  have hspec := selectFrom_spec ctl rt s (s.tree.arena.size + 1)
    (s.noted (.selection s.tree.arena)) ⟨hnoted, Nat.lt_succ_of_le hlive⟩
  have hrun : select ctl rt s =
      selectFrom ctl rt (s.tree.arena.size + 1) (s.noted (.selection s.tree.arena)) := rfl
  constructor
  case restarted => exact fun s' hroot h => restarted_of_descend ctl rt hroot h
  case rounds =>
    intro extra
    rw [hrun]
    apply selectFrom_rounds
    · exact Nat.lt_succ_of_le hlive
    · exact Nat.lt_add_right extra (Nat.lt_succ_self _)
  case shrinks =>
    rw [hrun]
    cases hr : selectFrom ctl rt (s.tree.arena.size + 1) (s.noted (.selection s.tree.arena)) with
    | ok found s' =>
      rw [hr] at hspec
      exact hspec.1
    | error e s' =>
      rw [hr] at hspec
      cases e with
      | raised e => exact hspec.1
      | diverged => exact absurd hspec id
  case ends =>
    rw [hrun]
    cases hr : selectFrom ctl rt (s.tree.arena.size + 1) (s.noted (.selection s.tree.arena)) with
    | ok found s' =>
      rw [hr] at hspec
      rcases found with - | ⟨n, revived⟩
      · exact hspec.2
      · exact ⟨hspec.2.root_live, hspec.2⟩
    | error e s' =>
      rw [hr] at hspec
      cases e with
      | raised e => exact hspec.2
      | diverged => exact hspec

end CognitiveTree.Search
