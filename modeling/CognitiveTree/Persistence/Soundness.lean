import CognitiveTree.Persistence.Rejection

/-!
# What an accepted archive holds

Any document may be accepted, so the tree, the index and the path that come out of one owe their
form to the reading alone: the nodes form one tree whose links agree, the walk meets each of them
once, and an identifier stands for the last node that the walk meets with it.
-/

namespace CognitiveTree.Persistence

open Search Observability Feedback Llm

variable {K : Type}

section Ancestors

/-- The node that many links above. -/
def ancestorAt (nodes : List (Rebuilt K)) : Nat → Nat → Option Nat
  | 0, m => some m
  | k + 1, m => (parentAt nodes m).bind (ancestorAt nodes k)

variable {nodes : List (Rebuilt K)}

theorem ancestorAt_add (k l m : Nat) :
    ancestorAt nodes (k + l) m = (ancestorAt nodes k m).bind (ancestorAt nodes l) := by
  induction k generalizing m with
  | zero => simp [ancestorAt]
  | succ k ih =>
    rw [Nat.succ_add, ancestorAt, ancestorAt, Option.bind_assoc]
    exact congrArg _ (funext ih)

/-- There is one way up to a node without a parent. -/
theorem ancestorAt_unique {r : Nat} (hr : parentAt nodes r = none) {k l m : Nat}
    (hk : ancestorAt nodes k m = some r) (hl : ancestorAt nodes l m = some r) : k = l := by
  have hless : ∀ {k l : Nat}, k < l → ancestorAt nodes k m = some r →
      ancestorAt nodes l m ≠ some r := by
    intro k l hlt hk
    obtain ⟨d, rfl⟩ := Nat.exists_eq_add_of_lt hlt
    rw [Nat.add_assoc, ancestorAt_add, hk, Option.bind_some, ancestorAt, hr]
    exact fun h => by cases h
  rcases Nat.lt_trichotomy k l with hlt | heq | hlt
  · exact absurd hl (hless hlt hk)
  · exact heq
  · exact absurd hk (hless hlt hl)

/-- A node of a tree of nodes has the root above it, by fewer links than there are nodes. -/
theorem NodeTree.exists_ancestorAt {u : Rose Nat} (hu : NodeTree nodes u) {m : Nat}
    (hm : m ∈ u.preorder) : ∃ k < u.preorder.length, ancestorAt nodes k m = some u.label := by
  induction hu with
  | @node n us _ _ hparents _ ih =>
    rw [Rose.preorder_node, List.mem_cons, List.mem_flatMap] at hm
    rcases hm with rfl | ⟨v, hv, hm⟩
    · refine ⟨0, ?_, rfl⟩
      simp
    · obtain ⟨k, hless, hk⟩ := ih v hv hm
      refine ⟨k + 1, ?_, ?_⟩
      · have hmem : v.preorder ∈ us.map Rose.preorder := List.mem_map_of_mem hv
        rw [Rose.preorder_node, List.length_cons, List.flatMap_def]
        exact Nat.succ_lt_succ (hless.trans_le (List.sublist_flatten_of_mem hmem).length_le)
      · rw [ancestorAt_add, hk, Option.bind_some, ancestorAt, hparents v hv]
        rfl

/-- The links from children to parents tell the nodes of a tree apart. -/
theorem NodeTree.nodup_preorder {u : Rose Nat} (hu : NodeTree nodes u) {d r : Nat}
    (hroot : ancestorAt nodes d u.label = some r) (hr : parentAt nodes r = none) :
    u.preorder.Nodup := by
  induction hu generalizing d with
  | @node n us _ hnodup hparents hus ih =>
    have hchild : ∀ v ∈ us, ancestorAt nodes (d + 1) v.label = some r := by
      intro v hv
      rw [ancestorAt, hparents v hv]
      exact hroot
    -- a node below a child is as far from the root as its place says
    have hbelow : ∀ v ∈ us, ∀ m ∈ v.preorder, ∃ k, ancestorAt nodes k m = some v.label ∧
        ancestorAt nodes (k + (d + 1)) m = some r := by
      intro v hv m hm
      obtain ⟨k, -, hk⟩ := (hus v hv).exists_ancestorAt hm
      refine ⟨k, hk, ?_⟩
      rw [ancestorAt_add, hk]
      exact hchild v hv
    rw [Rose.preorder_node, List.nodup_cons, List.mem_flatMap, List.nodup_flatMap]
    refine ⟨?_, fun v hv => ih v hv (hchild v hv), ?_⟩
    · rintro ⟨v, hv, hm⟩
      obtain ⟨k, -, hk⟩ := hbelow v hv n hm
      have := ancestorAt_unique hr hk hroot
      omega
    · refine (List.pairwise_map.mp hnodup).imp_of_mem ?_
      intro v w hv hw hne m hmv hmw
      obtain ⟨k, hkv, hk⟩ := hbelow v hv m hmv
      obtain ⟨l, hlw, hl⟩ := hbelow w hw m hmw
      have hkl := ancestorAt_unique hr hk hl
      obtain rfl : k = l := by omega
      exact hne (Option.some.inj (hkv.symm.trans hlw))

/-- A node of a tree whose data is there is one of the nodes. -/
theorem lt_of_mem_preorder {u : Rose Nat} {t : Rose (BareNode K)}
    (h : u.map (bareAt nodes) = t.map some) {m : Nat} (hm : m ∈ u.preorder) : m < nodes.length := by
  have hpreorder := congrArg Rose.preorder h
  rw [Rose.preorder_map, Rose.preorder_map] at hpreorder
  obtain ⟨bare, -, hbare⟩ := List.mem_map.mp (hpreorder ▸ List.mem_map_of_mem hm)
  obtain ⟨node, hnode, -⟩ := Option.map_eq_some_iff.mp hbare.symm
  exact (List.getElem?_eq_some_iff.mp hnode).1

/-- The loop of `path_from_root` over restored nodes, for at most `fuel` of them. -/
def climbLoaded (nodes : List (Rebuilt K)) : Nat → Nat → List Nat
  | 0, _ => []
  | fuel + 1, m => m :: match parentAt nodes m with
    | none => []
    | some p => climbLoaded nodes fuel p

/-- `node.path_from_root()` -/
def LoadedTree.pathFromRoot (tree : LoadedTree K) (m : Nat) : List Nat :=
  (climbLoaded tree.nodes tree.nodes.length m).reverse

/-- A way from one node down to another along the links from children to parents. -/
structure LinkedPath (nodes : List (Rebuilt K)) (r m : Nat) (path : List Nat) : Prop where
  head : path.head? = some r
  last : path.getLast? = some m
  chain : path.IsChain fun p c => parentAt nodes c = some p

/-- A path can be followed by a child of its last node. -/
theorem LinkedPath.snoc {r p m : Nat} {path : List Nat} (h : LinkedPath nodes r p path)
    (hm : parentAt nodes m = some p) : LinkedPath nodes r m (path ++ [m]) := by
  constructor
  · rw [List.head?_append, h.head]
    rfl
  · simp
  · apply List.isChain_append.mpr
    refine ⟨h.chain, .singleton m, fun x hx y hy => ?_⟩
    rw [h.last] at hx
    cases hx
    cases hy
    exact hm

/-- The loop ends at the node without a parent, where its fuel is more than the links up to it. -/
theorem linkedPath_climbLoaded {r : Nat} (hr : parentAt nodes r = none) {k fuel m : Nat}
    (hk : ancestorAt nodes k m = some r) (hfuel : k < fuel) :
    LinkedPath nodes r m (climbLoaded nodes fuel m).reverse := by
  induction k generalizing fuel m with
  | zero =>
    obtain ⟨fuel, rfl⟩ := Nat.exists_eq_add_of_lt hfuel
    cases hk
    rw [Nat.zero_add, climbLoaded, hr]
    exact ⟨rfl, rfl, .singleton r⟩
  | succ k ih =>
    obtain ⟨p, hp, hk⟩ := Option.bind_eq_some_iff.mp hk
    obtain ⟨fuel, rfl⟩ : ∃ rest, fuel = rest + 1 := ⟨fuel - 1, by omega⟩
    rw [climbLoaded, hp, List.reverse_cons]
    exact (ih hk (by omega)).snoc hp

end Ancestors

section Index

variable [PyKeys K]

/-- What the index has for an identifier. -/
def found (index : List (PyVal K × Nat)) (id : PyVal K) : Option Nat :=
  (index.find? fun entry => sameKey entry.1 id).map Prod.snd

theorem found_cons (entry : PyVal K × Nat) (rest : List (PyVal K × Nat)) (id : PyVal K) :
    found (entry :: rest) id = if sameKey entry.1 id then some entry.2 else found rest id := by
  rw [found, List.find?_cons]
  split <;> simp [*, found]

variable [LawfulKeys K]

/-- A key that is set stands for its number, and the others for theirs. -/
theorem found_setKey (index : List (PyVal K × Nat)) (key : PyVal K) (n : Nat) (id : PyVal K) :
    found (setKey index key n) id = if sameKey key id then some n else found index id := by
  induction index with
  | nil => exact found_cons _ _ _
  | cons entry rest ih =>
    rw [setKey]
    split
    · rename_i hsame
      have hiff : sameKey entry.1 id = true ↔ sameKey key id = true :=
        ⟨fun h => sameKey_trans (sameKey_symm hsame) h, fun h => sameKey_trans hsame h⟩
      rw [found_cons, found_cons]
      by_cases hkey : sameKey key id = true
      · rw [if_pos (hiff.mpr hkey), if_pos hkey]
      · rw [if_neg (hkey ∘ hiff.mp), if_neg hkey, if_neg (hkey ∘ hiff.mp)]
    · rename_i hother
      rw [found_cons, found_cons, ih]
      by_cases hentry : sameKey entry.1 id = true
      · have hkey : ¬ sameKey key id = true := fun h =>
          hother (sameKey_trans hentry (sameKey_symm h))
        rw [if_pos hentry, if_neg hkey, if_pos hentry]
      · rw [if_neg hentry, if_neg hentry]

/-- The last entry with a key decides. -/
theorem found_indexFrom {entries index final : List (PyVal K × Nat)}
    (h : indexFrom entries index = .ok final) (id : PyVal K) :
    found final id = (found entries.reverse id).or (found index id) := by
  induction entries generalizing index with
  | nil =>
    cases h
    rfl
  | cons entry entries ih =>
    obtain ⟨⟨⟩, -, h⟩ := exists_of_bind_eq_ok h
    have happend : found (entries.reverse ++ [entry]) id =
        (found entries.reverse id).or (found [entry] id) := by
      rw [found, List.find?_append, Option.map_or]
      rfl
    rw [ih h, found_setKey, List.reverse_cons, happend, found_cons, Option.or_assoc]
    congr 1
    split <;> simp [found]

end Index

section Archives

variable [PyNumber K] [PyDocument K] [PyKeys K]

theorem get_eq_ok {tree : LoadedTree K} {id : PyVal K} {n : Nat} :
    tree.get id = .ok n ↔ Hashable id ∧ found tree.index id = some n := by
  rw [LoadedTree.get, ← returns_hashed, found]
  cases hashed id with
  | error e => exact iff_of_false (fun h => by cases h) fun h => not_returns_error e h.1
  | ok _ =>
    cases tree.index.find? fun entry => sameKey entry.1 id with
    | some entry => simp [bind, Except.bind, pure, Except.pure]
    | none => simp [bind, Except.bind]

/-- The node is the last one, in depth-first order, whose identifier is the same key. -/
def LastWith (nodes : List (Rebuilt K)) (id : PyVal K) (n : Nat) : Prop :=
  ∃ before key after, identified nodes = before ++ (key, n) :: after ∧ sameKey key id = true ∧
    ∀ entry ∈ after, sameKey entry.1 id ≠ true

omit [PyNumber K] [PyDocument K] in
/-- The index of a tree finds the last node with an identifier. -/
theorem found_identified [LawfulKeys K] {nodes : List (Rebuilt K)} {index : List (PyVal K × Nat)}
    (h : indexFrom (identified nodes) [] = .ok index) (id : PyVal K) (n : Nat) :
    found index id = some n ↔ LastWith nodes id n := by
  have hnil : found ([] : List (PyVal K × Nat)) id = none := rfl
  rw [found_indexFrom h, hnil, Option.or_none, found, Option.map_eq_some_iff]
  constructor
  · rintro ⟨⟨key, _⟩, hfind, rfl⟩
    obtain ⟨hkey, after, before, hsplit, hafter⟩ := List.find?_eq_some_iff_append.mp hfind
    refine ⟨before.reverse, key, after.reverse, ?_, hkey, ?_⟩
    · simpa using congrArg List.reverse hsplit
    · intro entry hentry
      simpa using hafter entry (List.mem_reverse.mp hentry)
  · rintro ⟨before, key, after, hsplit, hkey, hafter⟩
    refine ⟨(key, n), List.find?_eq_some_iff_append.mpr ⟨hkey, after.reverse, before.reverse, ?_, ?_⟩,
      rfl⟩
    · simp [hsplit]
    · intro entry hentry
      simpa using hafter entry (List.mem_reverse.mp hentry)

variable [PyFloat K]

/-- What a restored tree holds, and its nodes in the form of a tree. -/
structure LoadedTree.Sound (tree : LoadedTree K) (t : Rose (BareNode K)) (u : Rose Nat) : Prop where
  holds : Holds tree.nodes none 0 t
  size : tree.nodes.length = t.size
  /-- The first node is the root of a tree whose links agree in both directions. -/
  linked : NodeTree tree.nodes u
  label : u.label = 0
  orphan : parentAt tree.nodes 0 = none
  /-- The nodes have the data of the tree. -/
  data : u.map (bareAt tree.nodes) = t.map some
  /-- The walk goes through the tree depth first, and meets each node once. -/
  walked : walked tree.nodes = u.preorder
  once : List.Perm (Persistence.walked tree.nodes) (List.range tree.nodes.length)
  /-- The path of each node leads from the root to it, along the links. -/
  climbed : ∀ m < tree.nodes.length, LinkedPath tree.nodes 0 m (tree.pathFromRoot m)
  /-- An identifier stands for the last node with it. -/
  keys : ∀ id n, tree.get id = .ok n ↔ Hashable id ∧ LastWith tree.nodes id n

/-- What an archive holds, with the tree that its document describes. -/
structure RunArchive.Sound (archive : RunArchive K) (items : Dict Str (PyVal K))
    (t : Rose (BareNode K)) (u : Rose Nat) : Prop where
  described : ∃ root, Planted items root ∧ Describes root t
  tree : archive.result.tree.Sound t u
  outcome : ∃ v, Dict.get? items (lit "outcome") = some v ∧ outcomeOf v = .ok archive.result.outcome
  history : ∃ entries, Listed items (lit "phase_history") entries ∧
    List.Forall₂ (fun entry read => transitionOf entry = .ok read) entries archive.result.phaseHistory
  /-- The path has the nodes for the identifiers of the document. -/
  path : ∃ ids, Listed items (lit "best_path") ids ∧
    List.Forall₂ (fun id n => archive.result.tree.get id = .ok n) ids archive.result.bestPath

/-- The nodes of a tree that was read. -/
theorem treeFromDict_sound [LawfulKeys K] {v : PyVal K} {tree : LoadedTree K}
    (h : treeFromDict v = .ok tree) : ∃ items root t u, v = .dict items ∧
      Dict.get? items (lit "root") = some root ∧ Describes root t ∧ tree.Sound t u := by
  obtain ⟨root, hroot, h⟩ := exists_of_bind_eq_ok h
  obtain ⟨nodes, hnodes, h⟩ := exists_of_bind_eq_ok h
  obtain ⟨index, hindex, h⟩ := exists_of_bind_eq_ok h
  cases h
  rw [raising_eq_ok] at hroot hindex
  obtain ⟨items, rfl, hget⟩ := subscriptKey_eq_ok.mp hroot
  obtain ⟨t, ht, hholds, hsize⟩ := described_of_fromDict hnodes
  obtain ⟨u, hu, hlabel, hwalked, hmap⟩ := hholds.exists_walked hsize
  have hparent : parentAt nodes 0 = none := by
    cases t
    obtain ⟨_, hself, -⟩ := hholds
    rw [parentAt, hself]
    rfl
  have hnodup : u.preorder.Nodup :=
    hu.nodup_preorder (d := 0) (r := 0) (by rw [hlabel]; rfl) hparent
  have hlength : u.preorder.length = nodes.length := by
    have hmapped := congrArg Rose.size hmap
    rw [Rose.size_map, Rose.size_map] at hmapped
    exact hmapped.trans hsize.symm
  have honce : List.Perm u.preorder (List.range nodes.length) := by
    refine (List.subperm_of_subset hnodup fun m hm => ?_).perm_of_length_le ?_
    · exact List.mem_range.mpr (lt_of_mem_preorder hmap hm)
    · rw [List.length_range, hlength]
  have hclimbed : ∀ m < nodes.length,
      LinkedPath nodes 0 m (LoadedTree.pathFromRoot ⟨nodes, index⟩ m) := by
    intro m hm
    obtain ⟨k, hless, hk⟩ := hu.exists_ancestorAt (honce.mem_iff.mpr (List.mem_range.mpr hm))
    rw [hlabel] at hk
    exact linkedPath_climbLoaded hparent hk (hlength ▸ hless)
  refine ⟨items, root, t, u, rfl, hget, ht, hholds, hsize, hu, hlabel, hparent, hmap, hwalked,
    hwalked ▸ honce, hclimbed, fun id n => ?_⟩
  rw [get_eq_ok, found_identified hindex]

omit [PyFloat K] in
/-- The parts of a result, as they were read. -/
theorem restOf_eq_ok {items : Dict Str (PyVal K)} {tree : LoadedTree K} {result : LoadedResult K}
    (h : restOf (.dict items) tree = .ok result) : result.tree = tree ∧
      (∃ v, Dict.get? items (lit "outcome") = some v ∧ outcomeOf v = .ok result.outcome) ∧
      (∃ entries, Listed items (lit "phase_history") entries ∧
        List.Forall₂ (fun entry read => transitionOf entry = .ok read) entries result.phaseHistory) ∧
      ∃ ids, Listed items (lit "best_path") ids ∧
        List.Forall₂ (fun id n => tree.get id = .ok n) ids result.bestPath := by
  obtain ⟨v, hv, h⟩ := exists_of_bind_eq_ok h
  obtain ⟨outcome, houtcome, h⟩ := exists_of_bind_eq_ok h
  obtain ⟨history, hhistory, h⟩ := exists_of_bind_eq_ok h
  obtain ⟨entries, hentries, h⟩ := exists_of_bind_eq_ok h
  obtain ⟨transitions, htransitions, h⟩ := exists_of_bind_eq_ok h
  obtain ⟨path, hpath, h⟩ := exists_of_bind_eq_ok h
  obtain ⟨ids, hids, h⟩ := exists_of_bind_eq_ok h
  obtain ⟨nodes, hnodes, h⟩ := exists_of_bind_eq_ok h
  obtain ⟨_, -, h⟩ := exists_of_bind_eq_ok h
  obtain ⟨_, -, h⟩ := exists_of_bind_eq_ok h
  obtain ⟨_, -, h⟩ := exists_of_bind_eq_ok h
  obtain ⟨_, -, h⟩ := exists_of_bind_eq_ok h
  obtain ⟨_, -, h⟩ := exists_of_bind_eq_ok h
  cases h
  exact ⟨rfl, ⟨v, subscriptKey_dict.mp hv, houtcome⟩,
    ⟨entries, ⟨history, subscriptKey_dict.mp hhistory, hentries⟩, mapM_eq_ok_iff.mp htransitions⟩,
    ids, ⟨path, subscriptKey_dict.mp hpath, hids⟩, mapM_eq_ok_iff.mp hnodes⟩

/-- An archive that was read is the result of the body of the `try`. -/
theorem archiveFromDocument_eq_ok {document : PyVal K} {archive : RunArchive K}
    (h : archiveFromDocument document = .ok archive) :
    ∃ items, document = .dict items ∧ resultOf (.dict items) = .ok archive.result := by
  cases document with
  | dict items =>
    simp only [archiveFromDocument] at h
    split at h
    · cases h
    · split at h
      · cases h
      · split at h
        · rename_i result hresult
          cases h
          exact ⟨items, rfl, hresult⟩
        · cases h
        · cases h
  | _ => cases h

/-- Whatever document is accepted, the archive holds the tree that it describes: each node is
visited once, links agree, and identifiers and the path lead to nodes of the tree. -/
theorem archiveFromDocument_sound [LawfulKeys K] {document : PyVal K} {archive : RunArchive K}
    (h : archiveFromDocument document = .ok archive) :
    ∃ items t u, document = .dict items ∧ archive.Sound items t u := by
  obtain ⟨items, rfl, hresult⟩ := archiveFromDocument_eq_ok h
  rw [resultOf_dict] at hresult
  obtain ⟨tree, htree, hrest⟩ := exists_of_bind_eq_ok hresult
  obtain ⟨htreeEq, houtcome, hhistory, hpath⟩ := restOf_eq_ok (raising_eq_ok.mp hrest)
  obtain ⟨v, hv, htree⟩ := exists_of_bind_eq_ok htree
  obtain ⟨fields, root, t, u, rfl, hroot, ht, hsound⟩ := treeFromDict_sound htree
  rw [← htreeEq] at hsound hpath
  refine ⟨items, t, u, rfl, ⟨root, ⟨fields, ?_, hroot⟩, ht⟩, hsound, houtcome, hhistory, hpath⟩
  exact subscriptKey_dict.mp (raising_eq_ok.mp hv)

/-- The later child has the identifier, and the path of the grandchild passes the earlier one. -/
theorem nestedDocument_sound : ∃ archive items t u,
    archiveFromDocument nestedDocument = .ok archive ∧ nestedDocument = .dict items ∧
      archive.Sound items t u ∧ walked archive.result.tree.nodes = [0, 1, 3, 2] ∧
      archive.result.tree.get (.str (lit "b")) = .ok 2 ∧ archive.result.bestPath = [0, 2] ∧
      archive.result.tree.pathFromRoot 3 = [0, 1, 3] ∧ archive.result.phaseHistory.length = 2 := by
  obtain ⟨archive, hread, hwalked, hget, hpath, hclimbed, hhistory⟩ : ∃ archive,
      archiveFromDocument nestedDocument = .ok archive ∧
        walked archive.result.tree.nodes = [0, 1, 3, 2] ∧
        archive.result.tree.get (.str (lit "b")) = .ok 2 ∧ archive.result.bestPath = [0, 2] ∧
        archive.result.tree.pathFromRoot 3 = [0, 1, 3] ∧ archive.result.phaseHistory.length = 2 :=
    ⟨_, rfl, rfl, rfl, rfl, rfl, rfl⟩
  obtain ⟨items, t, u, hitems, hsound⟩ := archiveFromDocument_sound hread
  exact ⟨archive, items, t, u, hread, hitems, hsound, hwalked, hget, hpath, hclimbed, hhistory⟩

end Archives

end CognitiveTree.Persistence
