import CognitiveTree.Persistence.Soundness
import CognitiveTree.Search.JsonIndented
import CognitiveTree.Ui.Events

/-!
# Runs that are loaded again

The document of a run is read back as this run: the nodes of the tree are renumbered, and their
links, identifiers and data are the same but for sums and scores, which were rounded to six digits.
The way over a file adds the text of the document and its bytes.
-/

namespace CognitiveTree.Persistence

open Search Observability Feedback Json

variable {K : Type}

section Renumbering

variable [PyFloat K] [PyNumber K] [PyDocument K] [PyKeys K] [LawfulKeys K]

/-- What is restored of a tree, with the place of each of its nodes among the restored ones. -/
structure LoadedTree.Restores (tree : LoadedTree K) (ids : Nat → Str) (metadata : Nat → Metadata K)
    (a : Arena K) (position : Nat → Nat) : Prop where
  /-- Each node has its data, its parent and its children in their order. -/
  node : ∀ n < a.size, tree.nodes[position n]? = some ⟨restored ids metadata true a n,
    (a.node n).parent.map position, (a.node n).children.map position⟩
  /-- There are no other nodes, and the first one is the root. -/
  count : tree.nodes.length = a.size
  injective : ∀ m < a.size, ∀ n < a.size, position m = position n → m = n
  root : position 0 = 0
  /-- Both walks meet the nodes in the same order. -/
  walk : walked tree.nodes = (a.walk 0).map position
  /-- The index leads from identifiers to their nodes, and has no others. -/
  get : ∀ n < a.size, tree.get (.str (ids n)) = .ok (position n)
  size : tree.index.length = a.size

/-- What is restored of a run. -/
structure RunArchive.Restores (archive : RunArchive K) (ids : Nat → Str) (result : SearchResult K)
    (position : Nat → Nat) : Prop where
  tree : archive.result.tree.Restores ids result.metadata result.tree.arena position
  path : archive.result.bestPath = result.bestPath.map position
  outcome : archive.result.outcome = result.outcome
  iterations : archive.result.iterations = result.iterations
  nodeCount : archive.result.nodeCount = result.nodeCount
  error : archive.result.error = .str result.error
  history : archive.result.phaseHistory =
    result.phaseHistory.map fun t => ⟨t.source, t.target, .str t.note, t.timestamp⟩

section Tree

variable {ids : Nat → Str} {metadata : Nat → Metadata K} {a : Arena K}

/-- The place of a node in a restored tree. -/
def placeOf (ids : Nat → Str) (tree : LoadedTree K) (n : Nat) : Nat :=
  match tree.get (.str (ids n)) with
  | .ok m => m
  | .error _ => 0

/-- The tree that the nodes of a run become. -/
def restoredTree (ids : Nat → Str) (metadata : Nat → Metadata K) (a : Arena K) :
    Rose (BareNode K) :=
  (a.subtree 0).map (restored ids metadata true a)

omit [PyNumber K] [PyDocument K] [PyKeys K] [LawfulKeys K] in
/-- The identifiers of a restored tree in depth-first order. -/
theorem ids_preorder : (restoredTree ids metadata a).preorder.map BareNode.id =
    (a.walk 0).map fun n => .str (ids n) := by
  rw [restoredTree, Rose.preorder_map, List.map_map,
    Arena.walk_eq_preorder_subtree a a.linked.nonempty]
  rfl

variable {tree : LoadedTree K} {u : Rose Nat}
  (hids : ∀ m < a.size, ∀ n < a.size, ids m = ids n → m = n)
  (h : tree.Sound (restoredTree ids metadata a) u)

include hids h

omit [LawfulKeys K] in
/-- With distinct identifiers the index leads to the node that has the data. -/
theorem get_of_bareAt {n m : Nat}
    (hm : bareAt tree.nodes m = some (restored ids metadata true a n)) :
    tree.get (.str (ids n)) = .ok m := by
  rw [h.keys]
  refine ⟨trivial, ?_⟩
  obtain ⟨node, hnode, hbare⟩ := Option.map_eq_some_iff.mp hm
  have hmem : ((.str (ids n) : PyVal K), m) ∈ identified tree.nodes := by
    refine List.mem_filterMap.mpr ⟨m, ?_, ?_⟩
    · exact h.once.mem_iff.mpr (List.mem_range.mpr (List.getElem?_eq_some_iff.mp hnode).1)
    · rw [hnode, Option.map_some, hbare]
      rfl
  obtain ⟨before, after, hsplit⟩ := List.append_of_mem hmem
  refine ⟨before, _, after, hsplit, beq_self_eq_true _, fun entry hentry hsame => ?_⟩
  have hkeys := map_fst_identified h.holds h.size
  rw [hsplit, ids_preorder, List.map_append, List.map_cons] at hkeys
  have hnodup : ((a.walk 0).map fun n => (.str (ids n) : PyVal K)).Nodup := by
    refine (List.nodup_map_iff_inj_on (Arena.walk_nodup a a.linked.nonempty)).mpr ?_
    intro x hx y hy hxy
    exact hids x (Arena.mem_walk_root.mp hx) y (Arena.mem_walk_root.mp hy) (PyVal.str.inj hxy)
  have hafter : entry.1 ∈ after.map Prod.fst := List.mem_map_of_mem hentry
  have hall := List.mem_append_right (before.map Prod.fst)
    (List.mem_cons_of_mem (.str (ids n) : PyVal K) hafter)
  rw [hkeys] at hall
  obtain ⟨k, -, hk⟩ := List.mem_map.mp hall
  have hkey : entry.1 = .str (ids n) := by
    rw [← hk] at hsame ⊢
    rw [beq_iff_eq.mp hsame]
  rw [← hkeys] at hnodup
  exact (List.nodup_cons.mp (List.nodup_append.mp hnodup).2.1).1 (hkey ▸ hafter)

omit [LawfulKeys K] in
/-- The place that holds the node of an id is where the id is found. -/
theorem eq_placeOf {n m : Nat} (hm : bareAt tree.nodes m = some (restored ids metadata true a n)) :
    m = placeOf ids tree n := by
  rw [placeOf, get_of_bareAt hids h hm]

omit [LawfulKeys K] in
/-- Where a subtree is held, its root is found. -/
theorem eq_placeOf_of_holds {p : Option Nat} {m n : Nat} (hn : n < a.size)
    (hm : Holds tree.nodes p m ((a.subtree n).map (restored ids metadata true a))) :
    m = placeOf ids tree n := by
  refine eq_placeOf hids h ?_
  rw [Arena.subtree_eq a hn, Rose.map_node] at hm
  obtain ⟨_, hnode, -⟩ := hm
  rw [bareAt, hnode]
  rfl

omit [LawfulKeys K] in
/-- At its place a node has the tree below it, and its parent is at its own place. -/
theorem holds_placeOf {n : Nat} (hn : n < a.size) : Holds tree.nodes
    ((a.node n).parent.map (placeOf ids tree)) (placeOf ids tree n)
      ((a.subtree n).map (restored ids metadata true a)) := by
  refine a.root_induction (motive := fun n => Holds tree.nodes
    ((a.node n).parent.map (placeOf ids tree)) (placeOf ids tree n)
      ((a.subtree n).map (restored ids metadata true a))) ?_ ?_ n hn
  · rw [a.linked.root_parent, ← eq_placeOf_of_holds hids h a.linked.nonempty h.holds]
    exact h.holds
  · intro r p hr hp ih
    rw [Arena.subtree_eq a (a.linked.parent_lt_self hr hp |>.trans hr), Rose.map_node] at ih
    obtain ⟨cs, -, -, hcs⟩ := ih
    rw [holdsAll_iff, List.map_map, List.forall₂_map_right_iff] at hcs
    obtain ⟨c, -, hc⟩ := exists_of_forall₂_right hcs (Arena.mem_children.mpr ⟨hr, hp⟩)
    rw [hp, ← eq_placeOf_of_holds hids h hr hc]
    exact hc

omit [LawfulKeys K] in
/-- The restored nodes are walked in the order of the nodes of the run. -/
theorem walked_eq_map : walked tree.nodes = (a.walk 0).map (placeOf ids tree) := by
  have hpreorder := congrArg Rose.preorder h.data
  rw [restoredTree, Rose.preorder_map, Rose.preorder_map, Rose.preorder_map, List.map_map,
    ← Arena.walk_eq_preorder_subtree a a.linked.nonempty, ← h.walked] at hpreorder
  generalize a.walk 0 = ns at hpreorder
  generalize walked tree.nodes = ms at hpreorder
  induction ns generalizing ms with
  | nil => rw [List.map_eq_nil_iff.mp hpreorder, List.map_nil]
  | cons n ns ih =>
    rcases ms with _ | ⟨m, ms⟩
    · cases hpreorder
    · rw [List.map_cons, List.map_cons, List.cons.injEq] at hpreorder
      rw [List.map_cons, ih ms hpreorder.2, ← eq_placeOf hids h hpreorder.1]

omit [LawfulKeys K] in
/-- The node at its place has its data, its parent and its children. -/
theorem getElem?_placeOf {n : Nat} (hn : n < a.size) : tree.nodes[placeOf ids tree n]? =
    some ⟨restored ids metadata true a n, (a.node n).parent.map (placeOf ids tree),
      (a.node n).children.map (placeOf ids tree)⟩ := by
  have hself := holds_placeOf hids h hn
  rw [Arena.subtree_eq a hn, Rose.map_node] at hself
  obtain ⟨cs, hnode, -, hcs⟩ := hself
  rw [holdsAll_iff, List.map_map, List.forall₂_map_right_iff] at hcs
  rw [hnode]
  have hplaces : List.Forall₂ (fun c k => c = placeOf ids tree k) cs (a.node n).children := by
    rw [List.forall₂_iff_get] at hcs ⊢
    refine ⟨hcs.1, fun i hi hi' => ?_⟩
    have hchild := (Arena.mem_children.mp (List.getElem_mem hi')).1
    exact eq_placeOf_of_holds hids h hchild (hcs.2 i hi hi')
  have heq : List.Forall₂ (· = ·) cs ((a.node n).children.map (placeOf ids tree)) :=
    List.forall₂_map_right_iff.mpr hplaces
  rw [List.forall₂_eq_eq_eq] at heq
  rw [heq]

end Tree

section Dictionaries

variable {ids : Nat → Str} {metadata : Nat → Metadata K} {a : Arena K}

omit [PyFloat K] [PyNumber K] [PyDocument K] [LawfulKeys K] in
/-- A new key is added at the end. -/
theorem setKey_of_new {index : List (PyVal K × Nat)} {key : PyVal K}
    (h : ∀ entry ∈ index, sameKey entry.1 key = false) (n : Nat) :
    setKey index key n = index ++ [(key, n)] := by
  induction index with
  | nil => rfl
  | cons entry index ih =>
    rw [List.forall_mem_cons] at h
    rw [setKey, if_neg (by simp [h.1]), ih h.2, List.cons_append]

omit [PyFloat K] [PyNumber K] [PyDocument K] [LawfulKeys K] in
/-- An index of distinct texts has all of their entries. -/
theorem indexFrom_of_distinct {entries index : List (PyVal K × Nat)} {keys : List Str}
    (hkeys : (index ++ entries).map Prod.fst = keys.map .str) (hnodup : keys.Nodup) :
    indexFrom entries index = .ok (index ++ entries) := by
  induction entries generalizing index with
  | nil => rw [indexFrom, List.append_nil]
  | cons entry entries ih =>
    obtain ⟨key, n⟩ := entry
    have hall : ((index ++ (key, n) :: entries).map Prod.fst).Nodup := by
      rw [hkeys]
      exact hnodup.map fun s t h => PyVal.str.inj h
    have htext : ∀ k ∈ (index ++ (key, n) :: entries).map Prod.fst, ∃ s, k = .str s := by
      rw [hkeys]
      intro k hk
      obtain ⟨s, -, rfl⟩ := List.mem_map.mp hk
      exact ⟨s, rfl⟩
    obtain ⟨s, rfl⟩ := htext key (by simp)
    have hnew : ∀ entry ∈ index, sameKey entry.1 (.str s) = false := by
      intro entry hentry
      obtain ⟨t, ht⟩ := htext entry.1 (List.mem_map_of_mem (List.mem_append_left _ hentry))
      rw [List.map_append, List.map_cons] at hall
      have hne : entry.1 ≠ .str s :=
        (List.nodup_append.mp hall).2.2 entry.1 (List.mem_map_of_mem hentry) _ (List.mem_cons_self ..)
      rw [ht] at hne ⊢
      exact beq_eq_false_iff_ne.mpr fun h => hne (congrArg PyVal.str h)
    change indexFrom entries (setKey index (.str s) n) = _
    rw [setKey_of_new hnew, ih (by simpa using hkeys), List.append_assoc, List.singleton_append]

omit [LawfulKeys K] in
/-- The index of a tree that was read. -/
theorem indexFrom_of_treeFromDict {v : PyVal K} {tree : LoadedTree K}
    (h : treeFromDict v = .ok tree) : indexFrom (identified tree.nodes) [] = .ok tree.index := by
  obtain ⟨root, -, h⟩ := exists_of_bind_eq_ok h
  obtain ⟨nodes, -, h⟩ := exists_of_bind_eq_ok h
  obtain ⟨index, hindex, h⟩ := exists_of_bind_eq_ok h
  cases h
  exact raising_eq_ok.mp hindex

omit [LawfulKeys K] in
/-- With distinct identifiers the index has an entry for each node. -/
theorem length_index {tree : LoadedTree K} {u : Rose Nat} {v : PyVal K}
    (hids : ∀ m < a.size, ∀ n < a.size, ids m = ids n → m = n)
    (h : tree.Sound (restoredTree ids metadata a) u) (hread : treeFromDict v = .ok tree) :
    tree.index.length = a.size := by
  have hkeys : ([] ++ identified tree.nodes).map Prod.fst = ((a.walk 0).map ids).map .str := by
    rw [List.nil_append, map_fst_identified h.holds h.size, ids_preorder, List.map_map]
    rfl
  have hnodup : ((a.walk 0).map ids).Nodup := by
    refine (List.nodup_map_iff_inj_on (Arena.walk_nodup a a.linked.nonempty)).mpr ?_
    exact fun x hx y hy => hids x (Arena.mem_walk_root.mp hx) y (Arena.mem_walk_root.mp hy)
  have hindex := indexFrom_of_distinct hkeys hnodup
  rw [indexFrom_of_treeFromDict hread, List.nil_append] at hindex
  have hlength := congrArg List.length hkeys
  rw [List.nil_append, List.length_map, List.length_map, List.length_map, Arena.length_walk_root]
    at hlength
  rw [Except.ok.inj hindex, hlength]

/-- The dictionary of a tree with distinct identifiers is read back as this tree. -/
theorem treeFromDict_subtreePayload (metadata : Nat → Metadata K) (a : Arena K)
    (hids : ∀ m < a.size, ∀ n < a.size, ids m = ids n → m = n) :
    ∃ tree, treeFromDict (.dict [(lit "size", .int a.size),
      (lit "root", subtreePayload ids metadata true a 0)]) = .ok tree ∧
        tree.Restores ids metadata a (placeOf ids tree) := by
  have hdescribes := describes_subtreePayload ids metadata true a a.linked.nonempty
  have hhashable : ∀ bare ∈ (restoredTree ids metadata a).preorder, Hashable bare.id := by
    intro bare hbare
    rw [restoredTree, Rose.preorder_map] at hbare
    obtain ⟨n, -, rfl⟩ := List.mem_map.mp hbare
    trivial
  have hroot : Dict.get? [(lit "size", .int a.size),
      (lit "root", subtreePayload ids metadata true a 0)] (lit "root") =
        some (subtreePayload ids metadata true a 0) := rfl
  obtain ⟨tree, htree, hholds, -, -⟩ := hdescribes.treeFromDict hroot hhashable
  obtain ⟨-, -, t, u, -, -, -, hsound⟩ := treeFromDict_sound htree
  cases hsound.holds.unique hholds
  have hnode := fun n hn => getElem?_placeOf (n := n) hids hsound hn
  have hcount : tree.nodes.length = a.size := by
    refine hsound.size.trans ?_
    rw [Rose.size_map, Rose.size, ← Arena.walk_eq_preorder_subtree _ a.linked.nonempty]
    exact Arena.length_walk_root _
  have hwalked := walked_eq_map hids hsound
  refine ⟨tree, htree, hnode, hcount, ?_, ?_, hwalked, ?_, ?_⟩
  · intro m hm n hn hmn
    refine hids m hm n hn ?_
    have hm := hnode m hm
    rw [hmn, hnode n hn] at hm
    have hbare := congrArg Rebuilt.bare (Option.some.inj hm)
    exact (PyVal.str.inj (congrArg BareNode.id hbare)).symm
  · exact (eq_placeOf_of_holds hids hsound a.linked.nonempty hsound.holds).symm
  · intro n hn
    refine get_of_bareAt hids hsound ?_
    rw [bareAt, hnode n hn]
    rfl
  · exact length_index hids hsound htree

end Dictionaries

section Parts

omit [PyNumber K] [PyKeys K] [LawfulKeys K] [PyFloat K] in
/-- An outcome is read back from its value. -/
theorem outcomeOf_value (outcome : SearchOutcome) :
    outcomeOf (.str outcome.value : PyVal K) = .ok outcome := by
  have hfound : memberOf outcomes SearchOutcome.value outcome.value = some outcome :=
    memberOf_value (by decide +kernel) (by cases outcome <;> decide)
  simp only [outcomeOf, enumOf, hfound]

omit [PyNumber K] [PyKeys K] [LawfulKeys K] [PyFloat K] in
/-- A phase is read back from its value. -/
theorem phaseOf_value (phase : SearchPhase) : phaseOf (.str phase.value : PyVal K) = .ok phase := by
  have hfound : memberOf SearchPhase.members SearchPhase.value phase.value = some phase :=
    memberOf_value (by decide +kernel) (by cases phase <;> decide)
  simp only [phaseOf, enumOf, hfound]

omit [PyFloat K] [PyKeys K] [LawfulKeys K] in
/-- A transition is read back from its entry. -/
theorem transitionOf_value [PyFloat K] (t : PhaseTransition K) :
    transitionOf (transitionValue t) = .ok ⟨t.source, t.target, .str t.note, t.timestamp⟩ := by
  have hsource := @phaseOf_value K _ t.source
  have htarget := @phaseOf_value K _ t.target
  change (phaseOf (.str t.source.value) >>= _) = _
  rw [hsource]
  change (phaseOf (.str t.target.value) >>= _) = _
  rw [htarget]
  rfl

end Parts

section Result

variable {ids : Nat → Str} {savedAt : Str} {result : SearchResult K} {metrics : PyVal K}

/-- The result with a restored tree. -/
def restoredResult (ids : Nat → Str) (result : SearchResult K) (tree : LoadedTree K) :
    LoadedResult K where
  outcome := result.outcome
  bestPath := result.bestPath.map (placeOf ids tree)
  iterations := result.iterations
  nodeCount := result.nodeCount
  phaseHistory := result.phaseHistory.map fun t => ⟨t.source, t.target, .str t.note, t.timestamp⟩
  tree := tree
  error := .str result.error

omit [LawfulKeys K] in
/-- The parts of the document behind the tree are read as those of the result. -/
theorem restOf_archiveDocument {tree : LoadedTree K}
    (hpath : ∀ n ∈ result.bestPath, tree.get (.str (ids n)) = .ok (placeOf ids tree n)) :
    restOf (archiveDocument ids savedAt result metrics) tree =
      .ok (restoredResult ids result tree) := by
  have hhistory : (result.phaseHistory.map transitionValue).mapM (transitionOf (K := K)) =
      .ok (result.phaseHistory.map fun t => ⟨t.source, t.target, .str t.note, t.timestamp⟩) := by
    rw [mapM_eq_ok_iff, List.forall₂_map_left_iff, List.forall₂_map_right_iff, List.forall₂_same]
    exact fun t _ => transitionOf_value t
  have hnodes : (result.bestPath.map fun n => (.str (ids n) : PyVal K)).mapM tree.get =
      .ok (result.bestPath.map (placeOf ids tree)) := by
    rw [mapM_eq_ok_iff, List.forall₂_map_left_iff, List.forall₂_map_right_iff, List.forall₂_same]
    exact hpath
  have houtcome := @outcomeOf_value K _ result.outcome
  change (outcomeOf (.str result.outcome.value) >>= _) = _
  rw [houtcome]
  change ((result.phaseHistory.map transitionValue).mapM transitionOf >>= _) = _
  rw [hhistory]
  change ((result.bestPath.map fun n => (.str (ids n) : PyVal K)).mapM tree.get >>= _) = _
  rw [hnodes]
  rfl

/-- The document of a run is read back as this run. -/
theorem archiveFromDocument_archiveDocument (savedAt : Str) (metrics : PyVal K)
    (hids : ∀ m < result.tree.arena.size, ∀ n < result.tree.arena.size, ids m = ids n → m = n)
    (hpath : ∀ n ∈ result.bestPath, n < result.tree.arena.size) :
    ∃ archive position, archiveFromDocument (archiveDocument ids savedAt result metrics) = .ok archive ∧
      archive.Restores ids result position ∧ archive.metrics = metrics ∧
      archive.savedAt = .str savedAt ∧ archive.version = .int archiveVersion := by
  obtain ⟨tree, htree, htrees⟩ := treeFromDict_subtreePayload result.metadata result.tree.arena hids
  have hresult : resultOf (archiveDocument ids savedAt result metrics) =
      .ok (restoredResult ids result tree) := by
    change (treeFromDict _ >>= fun tree => raising (restOf _ tree)) = _
    rw [htree]
    exact raising_eq_ok.mpr (restOf_archiveDocument fun n hn => htrees.get n (hpath n hn))
  exact ⟨_, placeOf ids tree, archiveFromDocument_of_ok ⟨beq_self_eq_true _, beq_self_eq_true _⟩ hresult,
    ⟨htrees, rfl, rfl, rfl, rfl, rfl, rfl⟩, rfl, rfl, rfl⟩

end Result

section Metrics

/-- What the metrics read of a restored result. -/
def viewOfLoaded (r : LoadedResult K) : ResultView K where
  outcome := r.outcome
  iterations := r.iterations
  nodeCount := r.nodeCount
  history := r.phaseHistory.map fun t => ⟨t.target, t.note, t.timestamp⟩
  nodes := (walked r.tree.nodes).filterMap fun n => (bareAt r.tree.nodes n).map fun bare =>
    ⟨bare.status, (bare.metadata.get? revisionAttemptsKey).getD (.int 0)⟩
  pathDepths := r.bestPath.filterMap fun n => (bareAt r.tree.nodes n).map BareNode.depth

section Bare

variable {tree : LoadedTree K} {ids : Nat → Str} {metadata : Nat → Metadata K} {a : Arena K}
  {position : Nat → Nat}

omit [LawfulKeys K] in
/-- Each node of the run is held in its place. -/
theorem LoadedTree.Restores.bareAt (h : tree.Restores ids metadata a position) {n : Nat}
    (hn : n < a.size) : bareAt tree.nodes (position n) = some (restored ids metadata true a n) := by
  rw [Persistence.bareAt, h.node n hn]
  rfl

omit [LawfulKeys K] in
/-- What is read of the places of nodes is read of their data. -/
theorem LoadedTree.Restores.filterMap_bareAt {β : Type} (h : tree.Restores ids metadata a position)
    (f : BareNode K → β) {ns : List Nat} (hns : ∀ n ∈ ns, n < a.size) :
    ((ns.map position).filterMap fun m => (Persistence.bareAt tree.nodes m).map f) =
      ns.map fun n => f (restored ids metadata true a n) := by
  induction ns with
  | nil => rfl
  | cons n ns ih =>
    rw [List.forall_mem_cons] at hns
    rw [List.map_cons, List.filterMap_cons_some (by rw [h.bareAt hns.1]; rfl), ih hns.2, List.map_cons]

end Bare

omit [LawfulKeys K] in
/-- The metrics read the same of a run and of what is restored of it. -/
theorem RunArchive.Restores.viewOfLoaded {archive : RunArchive K} {ids : Nat → Str}
    {result : SearchResult K} {position : Nat → Nat} (h : archive.Restores ids result position)
    (hpath : ∀ n ∈ result.bestPath, n < result.tree.arena.size) :
    Persistence.viewOfLoaded archive.result = viewOf result := by
  rw [Persistence.viewOfLoaded, viewOf, h.outcome, h.iterations, h.nodeCount, h.history, h.tree.walk, h.path,
    h.tree.filterMap_bareAt _ fun n hn => Arena.mem_walk_root.mp hn, h.tree.filterMap_bareAt _ hpath,
    List.map_map]
  rfl

end Metrics

end Renumbering

section Files

/-- Universal newlines: a carriage return ends a line, alone or before a newline. -/
def universalFrom : Bool → Str → Str
  | _, [] => []
  | returned, c :: s =>
    if c = 13 then Str.newline :: universalFrom true s
    else if returned && c = Str.newline then universalFrom false s
    else c :: universalFrom false s

/-- Without carriage returns universal newlines change nothing. -/
theorem universalFrom_of_noReturn {s : Str} (h : NoReturn s) : universalFrom false s = s := by
  induction s with
  | nil => rfl
  | cons c s ih =>
    obtain ⟨hc, hs⟩ := List.forall_mem_cons.mp h
    rw [universalFrom, if_neg hc, ih hs]
    simp

variable [PyFloat K] [PyDecimal K] [PyNumber K] [PyDocument K] [PyKeys K]

/-- `archive_from_document(json.loads(text))`, with the text of a `JSONDecodeError`. -/
def archiveFromText (reading : Limits) (path : PurePath) (decodeError text : Str) :
    Except Signal (RunArchive K) :=
  match loads (pyHooks K) reading text with
  | .ok document => archiveFromDocument document
  | .error .malformed => .error (.raised (archiveFormatError
      (path.text ++ lit " is not valid JSON: " ++ decodeError)))
  | .error .digits => .error (.raised (valueError
      (lit "Exceeds the limit for integer string conversion")))
  | .error .depth => .error (.raised ⟨lit "RecursionError", lit "maximum recursion depth exceeded"⟩)
  | .error .fuel => .error .diverged

/-- `load_run(path)` from a disk. -/
def loadRun (reading : Limits) (cwd : List Str) (decodeError : Str → Str) (d : Disk)
    (path : PurePath) : Except Signal (RunArchive K) :=
  match d.files (path.locate cwd) with
  | none => .error (.raised ⟨lit "FileNotFoundError",
      lit "[Errno 2] No such file or directory: " ++ PyNumber.quote K path.text⟩)
  | some bytes => match Utf8.decode bytes with
    | none => .error (.raised ⟨lit "UnicodeDecodeError", lit "invalid utf-8"⟩)
    | some text =>
      let text := universalFrom false text
      archiveFromText reading path (decodeError text) text

/-- The floats of a result are finite where they are written, and its metadata are values of JSON. -/
structure PortableResult (result : SearchResult K) : Prop where
  metadata : ∀ n < result.tree.arena.size, PyVal.Portable (.dict (result.metadata n))
  valueSum : ∀ n < result.tree.arena.size,
    isFinite (PyFloat.round (result.tree.arena.node n).valueSum 6) = true
  score : ∀ n < result.tree.arena.size,
    isFinite (PyFloat.round (result.tree.arena.node n).score 6) = true
  time : ∀ t ∈ result.phaseHistory, isFinite t.timestamp = true

section Portable

omit [PyNumber K] [PyDocument K] [PyKeys K]

/-- A list is portable when each element is. -/
theorem portableElements_iff {vs : List (PyVal K)} :
    PyVal.PortableElements vs ↔ ∀ v ∈ vs, v.Portable := by
  induction vs with
  | nil => simp [PyVal.PortableElements]
  | cons v vs ih => rw [PyVal.PortableElements, List.forall_mem_cons, ih]

/-- The keys of a node, a transition and an archive are distinct. -/
theorem nodup_nodeKeys : [lit "id", lit "content", lit "status", lit "depth", lit "visits",
    lit "value_sum", lit "score", lit "rationale", lit "children", lit "metadata"].Nodup := by
  decide +kernel

/-- The keys of an entry of the history are distinct. -/
theorem nodup_transitionKeys :
    [lit "source", lit "target", lit "note", lit "timestamp"].Nodup := by
  decide +kernel

/-- The keys of a tree are distinct. -/
theorem nodup_treeKeys : [lit "size", lit "root"].Nodup := by
  decide +kernel

/-- The keys of an archive are distinct. -/
theorem nodup_archiveKeys : [lit "format", lit "version", lit "saved_at", lit "task",
    lit "outcome", lit "iterations", lit "node_count", lit "error", lit "best_path", lit "tree",
    lit "phase_history", lit "metrics"].Nodup := by
  decide +kernel

variable {ids : Nat → Str} {metadata : Nat → Metadata K} {a : Arena K}

/-- The payload of a node is portable when the metadata, sums and scores are. -/
theorem portable_subtreePayload (hmetadata : ∀ n < a.size, PyVal.Portable (.dict (metadata n)))
    (hsum : ∀ n < a.size, isFinite (PyFloat.round (a.node n).valueSum 6) = true)
    (hscore : ∀ n < a.size, isFinite (PyFloat.round (a.node n).score 6) = true) {n : Nat}
    (hn : n < a.size) : (subtreePayload ids metadata true a n).Portable := by
  refine a.leaf_induction (motive := fun n => (subtreePayload ids metadata true a n).Portable) ?_ n hn
  intro n hn ih
  have hchildren : ∀ v ∈ (a.node n).children.map (subtreePayload ids metadata true a), v.Portable := by
    rw [List.forall_mem_map]
    exact ih
  rw [subtreePayload_eq hn, payload]
  refine ⟨nodup_nodeKeys, ?_⟩
  simp only [List.cons_append, List.nil_append, if_true, PyVal.PortableItems, PyVal.Portable,
    portableElements_iff, hsum n hn, hscore n hn, true_and, and_true]
  exact ⟨hchildren, hmetadata n hn⟩

/-- The document of a portable result is portable. -/
theorem portable_archiveDocument {savedAt : Str} {result : SearchResult K} {metrics : PyVal K}
    (h : PortableResult result) (hmetrics : metrics.Portable) :
    (archiveDocument ids savedAt result metrics).Portable := by
  have htree : (subtreePayload ids result.metadata true result.tree.arena 0).Portable :=
    portable_subtreePayload h.metadata h.valueSum h.score result.tree.arena.linked.nonempty
  refine ⟨nodup_archiveKeys, ?_⟩
  simp only [PyVal.PortableItems, PyVal.Portable, portableElements_iff, List.forall_mem_map,
    transitionValue, true_and, and_true]
  exact ⟨fun _ _ => trivial, ⟨nodup_treeKeys, htree⟩,
    fun t ht => ⟨nodup_transitionKeys, h.time t ht⟩, hmetrics⟩

end Portable

section RoundTrip

variable {W : Type} {st : Storage W}

omit [PyNumber K] [PyDocument K] [PyKeys K] in
/-- A run that was saved has a file with the bytes of its document. -/
theorem saveRun_file {result : SearchResult K} {path path' : PurePath} {metrics : PyVal K}
    {s s' : W × Disk} (h : saveRun st result path metrics s = .ok path' s') :
    path' = path ∧ ∃ savedAt text bytes,
      dumps st.limits false (archiveDocument st.nodeId savedAt result metrics) = .ok text ∧
        Utf8.encode text = some bytes ∧ s'.2.files (path.locate st.cwd) = some bytes := by
  unfold saveRun at h
  obtain ⟨savedAt, s₁, -, h⟩ := exists_ok_of_bind h
  obtain ⟨document, s₂, hdocument, h⟩ := exists_ok_of_bind h
  obtain ⟨⟨⟩, s₃, -, h⟩ := exists_ok_of_bind h
  obtain ⟨text, s₄, htext, h⟩ := exists_ok_of_bind h
  obtain ⟨⟨⟩, s₅, -, h⟩ := exists_ok_of_bind h
  obtain ⟨⟨⟩, s₆, -, h⟩ := exists_ok_of_bind h
  obtain ⟨bytes, s₇, hbytes, h⟩ := exists_ok_of_bind h
  obtain ⟨⟨⟩, s₈, -, h⟩ := exists_ok_of_bind h
  obtain ⟨⟨⟩, s₉, hsave, h⟩ := exists_ok_of_bind h
  have hdocument := (orRaise_ok hdocument).1
  rw [resultToArchiveDocument_eq] at hdocument
  cases hdocument
  cases hsave
  cases h
  have hencoded := (orRaise_ok hbytes).1
  refine ⟨rfl, savedAt, text, bytes, (orRaise_ok htext).1, ?_, Function.update_self _ _ _⟩
  unfold encodeUtf8 at hencoded
  cases hbytes : Utf8.encode text with
  | some bytes' =>
    rw [hbytes] at hencoded
    exact congrArg some (Except.ok.inj hencoded)
  | none =>
    rw [hbytes] at hencoded
    cases hencoded

/-- A run that was saved is loaded again: its tree is restored with the links, identifiers and
data of all nodes, and so are its history and best path. -/
theorem loadRun_saveRun [LawfulKeys K] [FloatText K] {reading : Limits} (decodeError : Str → Str)
    {result : SearchResult K} {path path' : PurePath} {metrics : PyVal K} {s s' : W × Disk}
    (h : saveRun st result path metrics s = .ok path' s')
    (hids : ∀ m < result.tree.arena.size, ∀ n < result.tree.arena.size,
      st.nodeId m = st.nodeId n → m = n)
    (hpath : ∀ n ∈ result.bestPath, n < result.tree.arena.size)
    (hportable : PortableResult result ∧ metrics.Portable)
    (hreading : ShapedResult reading result ∧ metrics.Shaped reading 1) :
    ∃ archive position, loadRun reading st.cwd decodeError s'.2 path = .ok archive ∧
      archive.Restores st.nodeId result position ∧ archive.metrics = metrics ∧
      viewOfLoaded archive.result = viewOf result := by
  obtain ⟨-, savedAt, text, bytes, htext, hbytes, hfile⟩ := saveRun_file h
  have hdocument : (archiveDocument st.nodeId savedAt result metrics).Portable :=
    portable_archiveDocument hportable.1 hportable.2
  obtain ⟨archive, position, hread, hrestores, hmetrics, -⟩ :=
    archiveFromDocument_archiveDocument savedAt metrics hids hpath
  refine ⟨archive, position, ?_, hrestores, hmetrics, hrestores.viewOfLoaded hpath⟩
  have hloads := loads_dumps htext (shaped_archiveDocument.mpr hreading) hdocument
  rw [loadRun, hfile]
  simp only [Utf8.decode_encode hbytes,
    universalFrom_of_noReturn (noReturn_encode 0 _ htext hdocument), archiveFromText, hloads, hread]

/-- What a run returned and was saved is loaded again: the tree is restored with the links,
identifiers and data of all nodes, and so are the history and the best path. The metrics read the
same of both. -/
theorem run_reloads [LawfulKeys K] [FloatText K] {V : Type} {ctl : TreeSearchController K V}
    {rt : Runtime K V} {task : Str} {draws : Nat} {world : V} {result : SearchResult K}
    {final : RunState K V} (hrun : ctl.run rt task draws world = .ok result final)
    {path path' : PurePath} {metrics : PyVal K} {s s' : W × Disk}
    (hsave : saveRun st result path metrics s = .ok path' s') (hids : Function.Injective st.nodeId)
    (hportable : PortableResult result ∧ metrics.Portable) {reading : Limits}
    (hreading : ShapedResult reading result ∧ metrics.Shaped reading 1) (decodeError : Str → Str) :
    ∃ archive position, loadRun reading st.cwd decodeError s'.2 path = .ok archive ∧
      archive.Restores st.nodeId result position ∧ archive.metrics = metrics ∧
      ∀ usage, RunMetrics.fromView (viewOfLoaded archive.result) usage =
        RunMetrics.fromResult result usage := by
  have hspec := run_spec ctl rt task draws world
  rw [hrun] at hspec
  have hpath : ∀ n ∈ result.bestPath, n < result.tree.arena.size := by
    rw [hspec.bestPath, hspec.tree]
    exact fun n hn => Arena.lt_of_mem_bestPath hn
  obtain ⟨archive, position, hload, hrestores, hmetrics, hview⟩ := loadRun_saveRun decodeError hsave
    (fun m _ n _ h => hids h) hpath hportable hreading
  refine ⟨archive, position, hload, hrestores, hmetrics, fun usage => ?_⟩
  rw [hview, RunMetrics.fromResult]

end RoundTrip

section Example

open Ui (WholeFloat)

instance : PyNumber WholeFloat where
  sub a b := ⟨a.value - b.value⟩
  truncate x := .value x.value
  ofInt i := some ⟨i⟩
  parseInt _ := none
  parseFloat _ := none
  quote s := lit "'" ++ s ++ lit "'"

instance : PyDocument WholeFloat where
  repr _ := lit "..."
  ofPairs xs := if xs = [] then .ok [] else .error (typeError (lit "cannot convert dictionary update"))

instance : PyKeys WholeFloat where
  sameFloat x y := x.value == y.value
  equalsInt x i := x.value == i

instance : LawfulKeys WholeFloat where
  symm _ _ h := beq_iff_eq.mpr (beq_iff_eq.mp h).symm
  trans _ _ _ h h' := beq_iff_eq.mpr ((beq_iff_eq.mp h).trans (beq_iff_eq.mp h'))
  same_of_int _ _ _ h h' := beq_iff_eq.mpr ((beq_iff_eq.mp h).trans (beq_iff_eq.mp h').symm)
  int_of_same _ _ _ h h' := beq_iff_eq.mpr ((beq_iff_eq.mp h).symm.trans (beq_iff_eq.mp h'))
  int_unique _ _ _ h h' := (beq_iff_eq.mp h).symm.trans (beq_iff_eq.mp h')

/-- Two iterations of two candidates. -/
def wholeConfig : SearchConfig WholeFloat where
  maxIterations := 2
  maxDepth := 2
  branchingFactor := 2
  explorationWeight := ⟨0⟩
  acceptThreshold := ⟨1⟩
  pruneThreshold := ⟨0⟩
  seed := some 1
  maxWallSeconds := none
  evaluationWorkers := 1
  checked := by decide +kernel

/-- An unfinished candidate. -/
def unfinished : Evaluation WholeFloat := ⟨⟨0⟩, false, lit "more", by decide +kernel⟩

/-- A file system without failures. -/
def calmStorage : Storage Unit where
  limits := .unlimited
  cwd := []
  nodeId n := List.replicate n 110
  utcNow e := (lit "2025-01-01T00:00:00+00:00", e)
  makeDirectory _ e := (none, e)
  openFile _ e := (none, e)
  writeFile _ _ e := (none, e)

/-- The storage gives distinct ids. -/
theorem calmStorage_nodeId_injective : Function.Injective calmStorage.nodeId := by
  intro m n h
  simpa [calmStorage] using congrArg List.length h

/-- A metadata dictionary that is empty and floats that are finite, as a decision. -/
def plainResult (result : SearchResult WholeFloat) : Bool :=
  (List.range result.tree.arena.size).all (fun n => (result.metadata n).isEmpty &&
    isFinite (PyFloat.round (result.tree.arena.node n).valueSum 6) &&
      isFinite (PyFloat.round (result.tree.arena.node n).score 6)) &&
    result.phaseHistory.all fun t => isFinite t.timestamp

/-- A plain result has no metadata. -/
theorem metadata_of_plainResult {result : SearchResult WholeFloat} (h : plainResult result = true) :
    ∀ n < result.tree.arena.size, result.metadata n = [] := by
  simp only [plainResult, Bool.and_eq_true, List.all_eq_true, List.mem_range, List.isEmpty_iff] at h
  exact fun n hn => (h.1 n hn).1.1

/-- A plain result is portable and in shape. -/
theorem plainResult_spec {result : SearchResult WholeFloat} (h : plainResult result = true) :
    PortableResult result ∧ ShapedResult .unlimited result := by
  have hmetadata : ∀ n < result.tree.arena.size, PyVal.Portable (.dict (result.metadata n)) := by
    intro n hn
    rw [metadata_of_plainResult h n hn]
    exact ⟨List.nodup_nil, trivial⟩
  have hprints : ∀ i, Prints .unlimited i := by
    intro i limit hlimit
    cases hlimit
  simp only [plainResult, Bool.and_eq_true, List.all_eq_true, List.mem_range] at h
  obtain ⟨hnodes, htimes⟩ := h
  refine ⟨⟨hmetadata, fun n hn => (hnodes n hn).1.2, fun n hn => (hnodes n hn).2, htimes⟩,
    ⟨fun n hn => ⟨hprints _, hprints _, ?_⟩, hprints _, hprints _, hprints _⟩⟩
  exact shaped_unlimited _ _ (hmetadata n hn)

/-- A run of two iterations, and its file. -/
theorem run_reloads_whole : ∃ result final path' s',
    (pathController wholeConfig (fun _ => [lit "go on"]) (fun _ => unfinished) :
      TreeSearchController WholeFloat Unit).run (Runtime.still fun _ _ => ⟨0⟩) (lit "task") 0 () =
        .ok result final ∧
    saveRun calmStorage result ⟨[], [lit "run.json"]⟩ .none ((), ⟨fun _ => none, []⟩) =
      .ok path' s' ∧
    ∃ archive position, loadRun .unlimited [] id s'.2 ⟨[], [lit "run.json"]⟩ = .ok archive ∧
      archive.Restores calmStorage.nodeId result position ∧ archive.metrics = .none ∧
      ∀ usage, RunMetrics.fromView (viewOfLoaded archive.result) usage =
        RunMetrics.fromResult result usage := by
  obtain ⟨result, final, hrun, hfacts⟩ := exists_ok_of_returned (show (returned
    ((pathController wholeConfig (fun _ => [lit "go on"]) (fun _ => unfinished) :
      TreeSearchController WholeFloat Unit).run (Runtime.still fun _ _ => ⟨0⟩) (lit "task") 0 ())).map
        (fun result => (plainResult result, (returned (saveRun calmStorage result
          ⟨[], [lit "run.json"]⟩ .none ((), ⟨fun _ => none, []⟩))).map fun _ => ())) =
            some (true, some ()) by decide +kernel)
  obtain ⟨hplain, hsaved⟩ := Prod.mk.inj hfacts
  obtain ⟨path', s', hsave, -⟩ := exists_ok_of_returned hsaved
  obtain ⟨hportable, hshaped⟩ := plainResult_spec hplain
  exact ⟨result, final, path', s', hrun, hsave, run_reloads hrun hsave calmStorage_nodeId_injective
    ⟨hportable, trivial⟩ ⟨hshaped, trivial⟩ id⟩

end Example

end Files

end CognitiveTree.Persistence
