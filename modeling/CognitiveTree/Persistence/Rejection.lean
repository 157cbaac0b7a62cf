import CognitiveTree.Persistence.Growing

/-!
# Documents that are read and documents that are not

A document is read in a fixed order, and the first field that is missing or cannot be converted
decides. Its exception becomes an `ArchiveFormatError` unless it is an `OverflowError`.
-/

namespace CognitiveTree.Persistence

open Search Observability Feedback Llm

variable {K : Type}

section Documents

variable [PyFloat K] [PyNumber K] [PyDocument K] [PyKeys K]

/-- The items that a loop over this field takes. -/
def Listed (items : Dict Str (PyVal K)) (key : Str) (entries : List (PyVal K)) : Prop :=
  ∃ v, Dict.get? items key = some v ∧ iterated v = .ok entries

/-- The root of the tree in a document. -/
def Planted (items : Dict Str (PyVal K)) (root : PyVal K) : Prop :=
  ∃ tree, Dict.get? items (lit "tree") = some (.dict tree) ∧ Dict.get? tree (lit "root") = some root

/-- The document has this tree, and all its identifiers may be keys. -/
def Grown (items : Dict Str (PyVal K)) (t : Rose (BareNode K)) : Prop :=
  ∃ root, Planted items root ∧ Describes root t ∧ ∀ bare ∈ t.preorder, Hashable bare.id

/-- An identifier of the path is one of a node. -/
def Found (t : Rose (BareNode K)) (id : PyVal K) : Prop :=
  Hashable id ∧ ∃ bare ∈ t.preorder, sameKey bare.id id = true

/-- The fields of a transition that are converted, in their order. -/
def transitionFields : List (Str × Reading) :=
  [(lit "source", .phase), (lit "target", .phase), (lit "timestamp", .number)]

/-- An entry of the history can be read. -/
def EntryReads (entry : PyVal K) : Prop :=
  ∃ items, entry = .dict items ∧ ∀ field ∈ transitionFields, FieldReads items field

/-- The time of an entry is out of range, and what is read before it can be read. -/
def EntryOverflows (entry : PyVal K) : Prop :=
  ∃ items, entry = .dict items ∧ FieldsOverflow items transitionFields

/-- The counters of a result, in their order. -/
def counterFields : List (Str × Reading) :=
  [(lit "iterations", .integer), (lit "node_count", .integer)]

/-- The format and the version are those of the archives. -/
def Recognized (items : Dict Str (PyVal K)) : Prop :=
  sameKey (getOrNone items (lit "format")) (.str archiveFormat) = true ∧
    isInt (getOrNone items (lit "version")) archiveVersion = true

/-- What is read behind the tree can be read. -/
structure RestReads (items : Dict Str (PyVal K)) (t : Rose (BareNode K)) : Prop where
  outcome : FieldReads items (lit "outcome", .outcome)
  history : ∃ entries, Listed items (lit "phase_history") entries ∧ ∀ entry ∈ entries, EntryReads entry
  path : ∃ ids, Listed items (lit "best_path") ids ∧ ∀ id ∈ ids, Found t id
  counters : ∀ field ∈ counterFields, FieldReads items field

/-- A number behind the tree is out of range, and what is read before it can be read. -/
inductive RestOverflows (items : Dict Str (PyVal K)) (t : Rose (BareNode K)) : Prop
  | history {entries : List (PyVal K)} : FieldReads items (lit "outcome", .outcome) →
      Listed items (lit "phase_history") entries → Reached EntryReads EntryOverflows entries →
      RestOverflows items t
  | counters {entries ids : List (PyVal K)} : FieldReads items (lit "outcome", .outcome) →
      Listed items (lit "phase_history") entries → (∀ entry ∈ entries, EntryReads entry) →
      Listed items (lit "best_path") ids → (∀ id ∈ ids, Found t id) →
      FieldsOverflow items counterFields → RestOverflows items t

/-- The document is a complete archive. -/
def Readable (document : PyVal K) : Prop :=
  ∃ items, document = .dict items ∧ Recognized items ∧ ∃ t, Grown items t ∧ RestReads items t

/-- A number of the document is out of range, and what is read before it can be read. -/
def Overflows (document : PyVal K) : Prop :=
  ∃ items, document = .dict items ∧ Recognized items ∧
    ((∃ root, Planted items root ∧ TreeOverflows root) ∨ ∃ t, Grown items t ∧ RestOverflows items t)

end Documents

section Results

variable {items : List (Str × PyVal K)} {key : Str}

/-- A list is iterated in place of the value under its key. -/
theorem listed_iff {entries : List (PyVal K)} :
    (subscriptKey (.dict items) key >>= iterated) = .ok entries ↔ Listed items key entries := by
  constructor
  · intro h
    obtain ⟨v, hv, h⟩ := exists_of_bind_eq_ok h
    exact ⟨v, subscriptKey_dict.mp hv, h⟩
  · rintro ⟨v, hget, h⟩
    rw [subscriptKey_dict.mpr hget]
    exact h

/-- The loop over a field comes first. -/
theorem returns_listed {β : Type} {f : List (PyVal K) → Except Exc β} :
    Returns (subscriptKey (.dict items) key >>= fun v => iterated v >>= f) ↔
      ∃ entries, Listed items key entries ∧ Returns (f entries) := by
  rw [← bind_assoc, returns_bind]
  simp only [listed_iff]

/-- Going over a list overflows on one of its entries. -/
theorem raises_listed {β : Type} {f : List (PyVal K) → Except Exc β} :
    Raises IsOverflow (subscriptKey (.dict items) key >>= fun v => iterated v >>= f) ↔
      ∃ entries, Listed items key entries ∧ Raises IsOverflow (f entries) := by
  have hcaught : RaisesOnly IsCaught (subscriptKey (.dict items) key >>= iterated) :=
    (raisesOnly_subscriptKey _ _).bind fun v _ => raisesOnly_iterated v
  rw [← bind_assoc, raises_bind]
  simp only [listed_iff, not_raises_overflow hcaught, false_or]

/-- Going over a list raises nothing unexpected when its entries do not. -/
theorem only_listed {β : Type} {v : PyVal K} {f : List (PyVal K) → Except Exc β}
    (hf : ∀ entries, RaisesOnly IsExpected (f entries)) :
    RaisesOnly IsExpected (subscriptKey v key >>= fun v => iterated v >>= f) := by
  refine ((raisesOnly_subscriptKey v key).mono fun _ => Or.inl).bind fun w _ => ?_
  exact ((raisesOnly_iterated w).mono fun _ => Or.inl).bind fun entries _ => hf entries

variable [PyNumber K] [PyDocument K]

section History

/-- An entry of the history is read when each of its fields is. -/
theorem returns_transitionOf {entry : PyVal K} : Returns (transitionOf entry) ↔ EntryReads entry := by
  cases entry with
  | dict items =>
    simp only [EntryReads, PyVal.dict.injEq, exists_eq_left', transitionFields,
      List.forall_mem_cons, List.not_mem_nil, false_implies, implies_true]
    refine Reading.done_phase.returns_field fun _ => ?_
    refine Reading.done_phase.returns_field fun _ => ?_
    refine Reading.done_number.returns_field fun _ => ?_
    exact iff_of_true (returns_ok _) trivial
  | _ =>
    refine iff_of_false (not_returns_error _) ?_
    rintro ⟨_, h, -⟩
    cases h

/-- An entry of the history overflows in the first field that is not read. -/
theorem raises_transitionOf {entry : PyVal K} :
    Raises IsOverflow (transitionOf entry) ↔ EntryOverflows entry := by
  cases entry with
  | dict items =>
    simp only [EntryOverflows, PyVal.dict.injEq, exists_eq_left', FieldsOverflow, transitionFields,
      reached_cons, not_reached_nil]
    refine Reading.done_phase.raises_field fun _ => ?_
    refine Reading.done_phase.raises_field fun _ => ?_
    refine Reading.done_number.raises_field fun _ => ?_
    exact iff_of_false (not_raises_ok _) id
  | _ =>
    refine iff_of_false ?_ ?_
    · exact fun h => not_isOverflow_typeError _ (raises_error.mp h)
    · rintro ⟨_, h, -⟩
      cases h

/-- An entry of the history raises nothing unexpected. -/
theorem raisesOnly_transitionOf (entry : PyVal K) : RaisesOnly IsExpected (transitionOf entry) := by
  cases entry with
  | dict items =>
    refine Reading.done_phase.only_field fun _ => ?_
    refine Reading.done_phase.only_field fun _ => ?_
    refine Reading.done_number.only_field fun _ => ?_
    exact raisesOnly_ok _
  | _ => exact raisesOnly_error.mpr (isExpected_typeError _)

end History

variable [PyKeys K]

/-- The index has the identifiers of this tree. -/
def Indexes (tree : LoadedTree K) (t : Rose (BareNode K)) : Prop :=
  ∀ id, HasKey tree.index id ↔ ∃ bare ∈ t.preorder, sameKey bare.id id = true

section Rest

variable {tree : LoadedTree K} {t : Rose (BareNode K)}

/-- Looking an id up succeeds when the tree has a node of it. -/
theorem Indexes.returns_get (h : Indexes tree t) (id : PyVal K) :
    Returns (tree.get id) ↔ Found t id := by
  rw [Persistence.returns_get, h id, Found]

/-- What stands behind the tree is read when each of its fields is. -/
theorem returns_restOf (h : Indexes tree t) :
    Returns (restOf (.dict items) tree) ↔ RestReads items t := by
  have hrest : Returns (restOf (.dict items) tree) ↔
      FieldReads items (lit "outcome", .outcome) ∧ ∃ entries,
        Listed items (lit "phase_history") entries ∧ (∀ entry ∈ entries, EntryReads entry) ∧ ∃ ids,
          Listed items (lit "best_path") ids ∧ (∀ id ∈ ids, Found t id) ∧
            FieldReads items (lit "iterations", .integer) ∧
              FieldReads items (lit "node_count", .integer) ∧ True := by
    refine Reading.done_outcome.returns_field fun _ => ?_
    refine returns_listed.trans (exists_congr fun entries => and_congr_right fun _ => ?_)
    refine returns_bind_of (by simp only [returns_mapM, returns_transitionOf]) fun _ => ?_
    refine returns_listed.trans (exists_congr fun ids => and_congr_right fun _ => ?_)
    refine returns_bind_of (by simp only [returns_mapM, h.returns_get]) fun _ => ?_
    refine Reading.done_integer.returns_field fun _ => ?_
    refine Reading.done_integer.returns_field fun _ => ?_
    exact iff_of_true (returns_ok _) trivial
  rw [hrest]
  constructor
  · rintro ⟨houtcome, entries, hlisted, hentries, ids, hpath, hids, hiterations, hcount, -⟩
    exact ⟨houtcome, ⟨entries, hlisted, hentries⟩, ⟨ids, hpath, hids⟩,
      by simpa [counterFields] using ⟨hiterations, hcount⟩⟩
  · rintro ⟨houtcome, ⟨entries, hlisted, hentries⟩, ⟨ids, hpath, hids⟩, hcounters⟩
    simp only [counterFields, List.forall_mem_cons] at hcounters
    exact ⟨houtcome, entries, hlisted, hentries, ids, hpath, hids, hcounters.1, hcounters.2.1,
      trivial⟩

/-- What stands behind the tree overflows in the first field that is not read. -/
theorem raises_restOf (h : Indexes tree t) :
    Raises IsOverflow (restOf (.dict items) tree) ↔ RestOverflows items t := by
  have hpath : ∀ ids : List (PyVal K), ¬ Raises IsOverflow (ids.mapM tree.get) := fun ids =>
    not_raises_overflow (RaisesOnly.mapM fun id _ => raisesOnly_get tree id)
  have hrest : Raises IsOverflow (restOf (.dict items) tree) ↔
      FieldOverflows items (lit "outcome", .outcome) ∨ FieldReads items (lit "outcome", .outcome) ∧
        ∃ entries, Listed items (lit "phase_history") entries ∧
          (Reached EntryReads EntryOverflows entries ∨ (∀ entry ∈ entries, EntryReads entry) ∧
            ∃ ids, Listed items (lit "best_path") ids ∧
              (False ∨ (∀ id ∈ ids, Found t id) ∧ FieldsOverflow items counterFields)) := by
    simp only [FieldsOverflow, counterFields, reached_cons, not_reached_nil]
    refine Reading.done_outcome.raises_field fun _ => ?_
    refine raises_listed.trans (exists_congr fun entries => and_congr_right fun _ => ?_)
    refine raises_bind_of (by simp only [returns_mapM, returns_transitionOf])
      (by simp only [raises_mapM, returns_transitionOf, raises_transitionOf]) fun _ => ?_
    refine raises_listed.trans (exists_congr fun ids => and_congr_right fun _ => ?_)
    refine raises_bind_of (by simp only [returns_mapM, h.returns_get])
      (iff_of_false (hpath ids) id) fun _ => ?_
    refine Reading.done_integer.raises_field fun _ => ?_
    refine Reading.done_integer.raises_field fun _ => ?_
    exact iff_of_false (not_raises_ok _) id
  rw [hrest]
  constructor
  · rintro (⟨_, -, h⟩ | ⟨houtcome, entries, hlisted, hreached | ⟨hentries, ids, hpath, h⟩⟩)
    · cases h
    · exact .history houtcome hlisted hreached
    · obtain ⟨hids, hcounters⟩ := h.resolve_left id
      exact .counters houtcome hlisted hentries hpath hids hcounters
  · intro h
    cases h with
    | history houtcome hlisted hreached =>
      exact .inr ⟨houtcome, _, hlisted, .inl hreached⟩
    | counters houtcome hlisted hentries hpath hids hcounters =>
      exact .inr ⟨houtcome, _, hlisted, .inr ⟨hentries, _, hpath, .inr ⟨hids, hcounters⟩⟩⟩

/-- What stands behind the tree raises nothing unexpected. -/
theorem raisesOnly_restOf (items : List (Str × PyVal K)) (tree : LoadedTree K) :
    RaisesOnly IsExpected (restOf (.dict items) tree) := by
  refine Reading.done_outcome.only_field fun _ => ?_
  refine only_listed fun entries => ?_
  refine (RaisesOnly.mapM fun entry _ => raisesOnly_transitionOf entry).bind fun _ _ => ?_
  refine only_listed fun ids => ?_
  refine (RaisesOnly.mapM fun id _ => (raisesOnly_get tree id).mono fun _ => Or.inl).bind
    fun _ _ => ?_
  refine Reading.done_integer.only_field fun _ => ?_
  refine Reading.done_integer.only_field fun _ => ?_
  exact raisesOnly_ok _

end Rest

section Tree

variable [PyFloat K]

omit [PyNumber K] [PyDocument K] [PyFloat K] in
/-- The index built over the nodes of a tree has the ids of the tree. -/
theorem indexes_of_indexFrom [LawfulKeys K] {nodes : List (Rebuilt K)} {t : Rose (BareNode K)}
    {index : List (PyVal K × Nat)} (h : Holds nodes none 0 t) (hsize : nodes.length = t.size)
    (hindex : indexFrom (identified nodes) [] = .ok index) : Indexes ⟨nodes, index⟩ t := by
  intro id
  have hexists := not_congr (forall_identified h hsize (P := fun key => ¬ sameKey key id = true))
  simp only [not_forall, not_not, exists_prop] at hexists
  rw [hasKey_indexFrom hindex]
  simpa [HasKey] using hexists

/-- The tree of a document that was read, with its index. -/
theorem treeFromDict_eq_ok [LawfulKeys K] {v : PyVal K} {tree : LoadedTree K}
    (h : treeFromDict v = .ok tree) : ∃ items root t, v = .dict items ∧
      Dict.get? items (lit "root") = some root ∧ Describes root t ∧ Holds tree.nodes none 0 t ∧
      tree.nodes.length = t.size ∧ (∀ bare ∈ t.preorder, Hashable bare.id) ∧ Indexes tree t := by
  obtain ⟨root, hroot, h⟩ := exists_of_bind_eq_ok h
  obtain ⟨nodes, hnodes, h⟩ := exists_of_bind_eq_ok h
  obtain ⟨index, hindex, h⟩ := exists_of_bind_eq_ok h
  cases h
  obtain ⟨items, rfl, hget⟩ := subscriptKey_eq_ok.mp (raising_eq_ok.mp hroot)
  obtain ⟨t, ht, hholds, hsize⟩ := described_of_fromDict hnodes
  rw [raising_eq_ok] at hindex
  refine ⟨items, root, t, rfl, hget, ht, hholds, hsize, ?_, ?_⟩
  · exact (forall_identified hholds hsize).mp (returns_indexFrom.mp ⟨index, hindex⟩)
  · exact indexes_of_indexFrom hholds hsize hindex

/-- A document that describes a tree with identifiers that may be keys is read as this tree. -/
theorem Describes.treeFromDict [LawfulKeys K] {tree : List (Str × PyVal K)} {root : PyVal K}
    {t : Rose (BareNode K)} (h : Describes root t) (hroot : Dict.get? tree (lit "root") = some root)
    (hids : ∀ bare ∈ t.preorder, Hashable bare.id) :
    ∃ loaded, treeFromDict (.dict tree) = .ok loaded ∧ Holds loaded.nodes none 0 t ∧
      loaded.nodes.length = t.size ∧ Indexes loaded t := by
  obtain ⟨nodes, hnodes, hholds, hsize⟩ := h.fromDict
  obtain ⟨index, hindex⟩ := returns_indexFrom.mpr ((forall_identified hholds hsize).mpr hids)
  refine ⟨⟨nodes, index⟩, ?_, hholds, hsize, indexes_of_indexFrom hholds hsize hindex⟩
  rw [Persistence.treeFromDict, subscriptKey_dict.mpr hroot]
  change (Persistence.fromDict root >>= _) = _
  rw [hnodes]
  change (raising (indexFrom (identified nodes) []) >>= _) = _
  rw [hindex]
  rfl

/-- Reading the tree of a document. -/
def loaded (items : Dict Str (PyVal K)) : Except Signal (LoadedTree K) :=
  raising (subscriptKey (.dict items) (lit "tree")) >>= treeFromDict

/-- A tree that was loaded is the one the document describes. -/
theorem grown_of_loaded [LawfulKeys K] {tree : LoadedTree K} (h : loaded items = .ok tree) :
    ∃ t, Grown items t ∧ Indexes tree t := by
  obtain ⟨v, hv, h⟩ := exists_of_bind_eq_ok h
  obtain ⟨_, root, t, rfl, hroot, ht, -, -, hids, hindex⟩ := treeFromDict_eq_ok h
  exact ⟨t, ⟨root, ⟨_, subscriptKey_dict.mp (raising_eq_ok.mp hv), hroot⟩, ht, hids⟩, hindex⟩

/-- A tree that the document describes is loaded. -/
theorem Grown.exists_loaded [LawfulKeys K] {t : Rose (BareNode K)} (h : Grown items t) :
    ∃ tree, loaded items = .ok tree ∧ Indexes tree t := by
  obtain ⟨root, ⟨tree, htree, hroot⟩, ht, hids⟩ := h
  obtain ⟨read, hread, -, -, hindex⟩ := ht.treeFromDict hroot hids
  refine ⟨read, ?_, hindex⟩
  rw [loaded, subscriptKey_dict.mpr htree]
  exact hread

/-- Loading a tree overflows on exactly the payloads whose root overflows. -/
theorem raises_treeFromDict [LawfulDocument K] {v : PyVal K} :
    Raises (SignalIs IsOverflow) (treeFromDict v) ↔
      ∃ tree root, v = .dict tree ∧ Dict.get? tree (lit "root") = some root ∧ TreeOverflows root := by
  have hindex : ∀ nodes : List (Rebuilt K), ¬ Raises (SignalIs IsOverflow)
      (raising (indexFrom (identified nodes) []) >>= fun index => pure (⟨nodes, index⟩ : LoadedTree K)) := by
    intro nodes h
    rcases raises_bind.mp h with h | ⟨_, -, h⟩
    · exact not_raises_overflow (raisesOnly_indexFrom _ _) (raises_raising.mp h)
    · exact not_raises_ok _ h
  have htree : ∀ root, (Raises (SignalIs IsOverflow) (fromDict root >>= fun nodes =>
      raising (indexFrom (identified nodes) []) >>= fun index =>
        pure (⟨nodes, index⟩ : LoadedTree K)) ↔ TreeOverflows root) := by
    intro root
    rw [raises_bind, raises_fromDict, or_iff_left]
    rintro ⟨nodes, -, h⟩
    exact hindex nodes h
  rw [treeFromDict, raises_bind, raises_raising]
  simp only [htree, raising_eq_ok, not_raises_overflow (raisesOnly_subscriptKey _ _), false_or]
  constructor
  · rintro ⟨root, hroot, h⟩
    obtain ⟨tree, rfl, hget⟩ := subscriptKey_eq_ok.mp hroot
    exact ⟨tree, root, rfl, hget, h⟩
  · rintro ⟨tree, root, rfl, hget, h⟩
    exact ⟨root, subscriptKey_dict.mpr hget, h⟩

/-- The tree of a document overflows when its root does. -/
theorem raises_loaded [LawfulDocument K] : Raises (SignalIs IsOverflow) (loaded items) ↔
    ∃ root, Planted items root ∧ TreeOverflows root := by
  rw [loaded, raises_bind, raises_raising]
  simp only [raises_treeFromDict, raising_eq_ok, subscriptKey_dict,
    not_raises_overflow (raisesOnly_subscriptKey _ _), false_or]
  constructor
  · rintro ⟨_, hv, tree, root, rfl, hroot, h⟩
    exact ⟨root, ⟨tree, hv, hroot⟩, h⟩
  · rintro ⟨root, ⟨tree, hv, hroot⟩, h⟩
    exact ⟨_, hv, tree, root, rfl, hroot, h⟩

/-- The tree of a document raises nothing unexpected. -/
theorem raisesOnly_loaded [LawfulDocument K] (items : List (Str × PyVal K)) :
    RaisesOnly (SignalIs IsExpected) (loaded items) := by
  refine (raisesOnly_raising ((raisesOnly_subscriptKey _ _).mono fun _ => Or.inl)).bind
    fun v _ => ?_
  refine (raisesOnly_raising ((raisesOnly_subscriptKey _ _).mono fun _ => Or.inl)).bind
    fun root _ => ?_
  refine (raisesOnly_fromDict root).bind fun nodes _ => ?_
  refine (raisesOnly_raising ((raisesOnly_indexFrom _ _).mono fun _ => Or.inl)).bind fun _ _ => ?_
  exact raisesOnly_ok _

/-- The body of the `try` as its two parts. -/
theorem resultOf_dict (items : Dict Str (PyVal K)) : resultOf (.dict items) =
    loaded items >>= fun tree => raising (restOf (.dict items) tree) := by
  rw [loaded, bind_assoc]
  rfl

/-- A result is read when its tree grows and what stands behind it is read. -/
theorem returns_resultOf [LawfulKeys K] : Returns (resultOf (.dict items)) ↔
    ∃ t, Grown items t ∧ RestReads items t := by
  rw [resultOf_dict, returns_bind]
  simp only [returns_raising]
  constructor
  · rintro ⟨tree, htree, h⟩
    obtain ⟨t, hgrown, hindex⟩ := grown_of_loaded htree
    exact ⟨t, hgrown, (returns_restOf hindex).mp h⟩
  · rintro ⟨t, hgrown, h⟩
    obtain ⟨tree, htree, hindex⟩ := hgrown.exists_loaded
    exact ⟨tree, htree, (returns_restOf hindex).mpr h⟩

/-- A result overflows in its tree, or behind it once the tree has grown. -/
theorem raises_resultOf [LawfulKeys K] [LawfulDocument K] :
    Raises (SignalIs IsOverflow) (resultOf (.dict items)) ↔
      (∃ root, Planted items root ∧ TreeOverflows root) ∨
        ∃ t, Grown items t ∧ RestOverflows items t := by
  rw [resultOf_dict, raises_bind, raises_loaded]
  simp only [raises_raising]
  refine or_congr_right ?_
  constructor
  · rintro ⟨tree, htree, h⟩
    obtain ⟨t, hgrown, hindex⟩ := grown_of_loaded htree
    exact ⟨t, hgrown, (raises_restOf hindex).mp h⟩
  · rintro ⟨t, hgrown, h⟩
    obtain ⟨tree, htree, hindex⟩ := hgrown.exists_loaded
    exact ⟨tree, htree, (raises_restOf hindex).mpr h⟩

/-- A result raises nothing unexpected. -/
theorem raisesOnly_resultOf [LawfulDocument K] (items : List (Str × PyVal K)) :
    RaisesOnly (SignalIs IsExpected) (resultOf (.dict items)) := by
  rw [resultOf_dict]
  exact (raisesOnly_loaded items).bind fun tree _ => raisesOnly_raising (raisesOnly_restOf items tree)

/-- The document is an archive whose format and version are known. -/
def Archived (document : PyVal K) : Prop := ∃ items, document = .dict items ∧ Recognized items

/-- What is no archive is rejected at once. -/
theorem archiveFromDocument_of_not_archived {document : PyVal K} (h : ¬ Archived document) :
    Raises (SignalIs IsFormatError) (archiveFromDocument document) := by
  cases document with
  | dict items =>
    simp only [archiveFromDocument]
    split
    · exact raises_error.mpr rfl
    · split
      · exact raises_error.mpr rfl
      · rename_i hformat hversion
        exact absurd ⟨items, rfl, not_not.mp hformat, not_not.mp hversion⟩ h
  | _ => exact raises_error.mpr rfl

/-- A recognized document is read by the body of the `try`. -/
theorem archiveFromDocument_of_ok {items : Dict Str (PyVal K)} {result : LoadedResult K}
    (h : Recognized items) (hresult : resultOf (.dict items) = .ok result) :
    archiveFromDocument (.dict items) = .ok {
      result := result
      metrics := getOrNone items (lit "metrics")
      savedAt := (Dict.get? items (lit "saved_at")).getD (.str [])
      version := getOrNone items (lit "version") } := by
  simp only [archiveFromDocument, h.1, h.2, not_true_eq_false, if_false, hresult]

/-- A fault of a recognized document leaves the reader translated. -/
theorem archiveFromDocument_of_error {items : Dict Str (PyVal K)} {e : Exc}
    (h : Recognized items) (hresult : resultOf (.dict items) = .error (.raised e)) :
    archiveFromDocument (.dict items) = .error (.raised (translated e)) := by
  simp only [archiveFromDocument, h.1, h.2, not_true_eq_false, if_false, hresult]

/-- A format error is no overflow. -/
theorem IsFormatError.not_overflow {e : Exc} (h : IsFormatError e) : ¬ IsOverflow e := by
  unfold IsOverflow
  rw [h]
  decide

/-- A document is read when it is a complete archive, and rejected with an `ArchiveFormatError`
when it is not, unless a number that comes before what is wrong is out of range. -/
theorem archiveFromDocument_outcome [LawfulKeys K] [LawfulDocument K] (document : PyVal K) :
    (Returns (archiveFromDocument document) ↔ Readable document) ∧
      (Raises (SignalIs IsOverflow) (archiveFromDocument document) ↔ Overflows document) ∧
      (¬ Readable document → ¬ Overflows document →
        Raises (SignalIs IsFormatError) (archiveFromDocument document)) := by
  -- an `ArchiveFormatError` is neither a result nor an overflow
  have hrejected : Raises (SignalIs IsFormatError) (archiveFromDocument document) →
      ¬ Raises (SignalIs IsOverflow) (archiveFromDocument document) := by
    rintro ⟨signal, hsignal, hformat⟩ ⟨signal', hsignal', hover⟩
    cases hsignal.symm.trans hsignal'
    cases signal with
    | raised e => exact IsFormatError.not_overflow hformat hover
    | diverged => exact hover
  by_cases harchived : Archived document
  · obtain ⟨items, rfl, hrecognized⟩ := harchived
    have hreadable : Readable (.dict items) ↔ Returns (resultOf (.dict items)) := by
      simp [Readable, returns_resultOf, hrecognized]
    have hoverflows : Overflows (.dict items) ↔
        Raises (SignalIs IsOverflow) (resultOf (.dict items)) := by
      simp [Overflows, raises_resultOf, hrecognized]
    have honly := raisesOnly_resultOf items
    rw [hreadable, hoverflows]
    cases hresult : resultOf (.dict items) with
    | ok result =>
      have hreturns : Returns (archiveFromDocument (.dict items)) :=
        ⟨_, archiveFromDocument_of_ok hrecognized hresult⟩
      exact ⟨iff_of_true hreturns (returns_ok _),
        iff_of_false (fun h => h.not_returns hreturns) (not_raises_ok _),
        fun h => absurd (returns_ok _) h⟩
    | error signal =>
      cases signal with
      | diverged => exact (honly _ hresult).elim
      | raised e =>
        rw [archiveFromDocument_of_error hrecognized hresult]
        refine ⟨iff_of_false (not_returns_error _) (not_returns_error _), ?_, fun _ h => ?_⟩
        · rw [raises_error, raises_error]
          rcases honly _ hresult with hcaught | hover
          · exact iff_of_false (translated_caught hcaught).not_overflow hcaught.not_overflow
          · exact (translated_overflow hover).symm ▸ Iff.rfl
        · refine raises_error.mpr (translated_caught ((honly _ hresult).resolve_right ?_))
          exact fun hover => h (raises_error.mpr hover)
  · have hformat := archiveFromDocument_of_not_archived harchived
    refine ⟨iff_of_false hformat.not_returns ?_, iff_of_false (hrejected hformat) ?_,
      fun _ _ => hformat⟩
    · rintro ⟨items, hitems, hrecognized, -⟩
      exact harchived ⟨items, hitems, hrecognized⟩
    · rintro ⟨items, hitems, hrecognized, -⟩
      exact harchived ⟨items, hitems, hrecognized⟩

end Tree

end Results

instance : PyDocument ℚ where
  repr _ := lit "..."
  ofPairs xs := if xs = [] then .ok [] else .error (typeError (lit "cannot convert dictionary update"))

instance : LawfulDocument ℚ where
  ofPairs xs := by
    change RaisesOnly IsCaught (if xs = [] then _ else _)
    split
    · exact raisesOnly_ok _
    · exact raisesOnly_error.mpr (isCaught_typeError _)

/-- The payload of a node, with those of its children. -/
def nodeDocument (id : String) (depth : Int) (children : List (PyVal ℚ)) : PyVal ℚ := .dict [
  (lit "id", .str (lit id)), (lit "content", .str (lit "task")), (lit "depth", .int depth),
  (lit "status", .str (lit "pending")), (lit "visits", .int 0), (lit "value_sum", .int 0),
  (lit "score", .int 0), (lit "children", .list children)]

/-- A root with a child that has a child, and then a second child by the name of the first. -/
def nestedDocument : PyVal ℚ := .dict [
  (lit "format", .str archiveFormat), (lit "version", .int 1),
  (lit "tree", .dict [(lit "root", nodeDocument "a" 0
    [nodeDocument "b" 1 [nodeDocument "c" 2 []], nodeDocument "b" 1 []])]),
  (lit "outcome", .str (lit "exhausted")),
  (lit "phase_history", .list [
    .dict [(lit "source", .str (lit "idle")), (lit "target", .str (lit "expansion")),
      (lit "note", .str (lit "search started")), (lit "timestamp", .int 0)],
    .dict [(lit "source", .str (lit "expansion")), (lit "target", .str (lit "exhausted")),
      (lit "note", .str (lit "frontier empty")), (lit "timestamp", .int 1)]]),
  (lit "best_path", .list [.str (lit "a"), .str (lit "b")]), (lit "iterations", .int 1),
  (lit "node_count", .bool true)]

/-- A nested document with two equal ids and a history is read. -/
theorem nestedDocument_readable : Readable nestedDocument :=
  (archiveFromDocument_outcome nestedDocument).1.mp ⟨_, rfl⟩

end CognitiveTree.Persistence
