import CognitiveTree.Persistence.Fields

/-!
# Payloads that grow into a tree

The loop over the payloads reads all children of a node before it goes on below the last of them, so
an overflow below one child is met only behind the children that were read. The index is built once
the tree stands.
-/

namespace CognitiveTree.Persistence

open Search Observability Feedback Llm

variable {K : Type}

section Trees

variable [PyFloat K] [PyNumber K] [PyDocument K]

mutual

/-- A number of a node below is out of range, and what the work list comes to before it can be
read: the data of all children first, then what is below them from the last child on. -/
inductive OverflowsBelow : PyVal K → Prop
  | child {data : PyVal K} {payloads : List (PyVal K)} : childPayloads data = .ok payloads →
      Reached NodeReads NodeOverflows payloads → OverflowsBelow data
  | deeper {data : PyVal K} {payloads : List (PyVal K)} : childPayloads data = .ok payloads →
      (∀ payload ∈ payloads, NodeReads payload) → OverflowsLater payloads.reverse →
      OverflowsBelow data

/-- The same for the entries of a work list. -/
inductive OverflowsLater : List (PyVal K) → Prop
  | here {data : PyVal K} {rest : List (PyVal K)} : OverflowsBelow data → OverflowsLater (data :: rest)
  | later {data : PyVal K} {rest : List (PyVal K)} {t : Rose (BareNode K)} : Describes data t →
      OverflowsLater rest → OverflowsLater (data :: rest)

end

/-- The payload describes a tree. -/
def Described (payload : PyVal K) : Prop := ∃ t, Describes payload t

/-- An overflow among the payloads that wait is below the first of them, or later behind a described
one. -/
theorem overflowsLater_cons {data : PyVal K} {rest : List (PyVal K)} :
    OverflowsLater (data :: rest) ↔ OverflowsBelow data ∨ Described data ∧ OverflowsLater rest := by
  constructor
  · intro h
    cases h with
    | here h => exact .inl h
    | later h h' => exact .inr ⟨⟨_, h⟩, h'⟩
  · rintro (h | ⟨⟨t, h⟩, h'⟩)
    · exact .here h
    · exact .later h h'

/-- An overflow among payloads that wait is in the first part, or in the second behind a described
first part. -/
theorem overflowsLater_append {xs ys : List (PyVal K)} : OverflowsLater (xs ++ ys) ↔
    OverflowsLater xs ∨ (∀ x ∈ xs, Described x) ∧ OverflowsLater ys := by
  induction xs with
  | nil =>
    have hnil : ¬ OverflowsLater ([] : List (PyVal K)) := fun h => by cases h
    simp [hnil]
  | cons x xs ih =>
    rw [List.cons_append, overflowsLater_cons, overflowsLater_cons, ih, List.forall_mem_cons]
    tauto

/-- The root of a described payload reads as a node. -/
theorem Described.reads {payload : PyVal K} (h : Described payload) : NodeReads payload := by
  obtain ⟨t, ht⟩ := h
  exact returns_bareFromPayload.mp ht.exists_bare

/-- With the data of a node, a payload describes a tree exactly when its children do. -/
theorem described_iff {data : PyVal K} {payloads : List (PyVal K)} (hdata : NodeReads data)
    (hpayloads : childPayloads data = .ok payloads) :
    Described data ↔ ∀ payload ∈ payloads, Described payload := by
  constructor
  · rintro ⟨⟨bare, ts⟩, -, payloads', hpayloads', hts⟩ payload hmem
    cases hpayloads.symm.trans hpayloads'
    obtain ⟨t, -, ht⟩ := exists_of_forall₂_left (describesAll_iff.mp hts) hmem
    exact ⟨t, ht⟩
  · intro h
    obtain ⟨ts, hts⟩ := exists_forall₂_describes h
    obtain ⟨bare, hbare⟩ := returns_bareFromPayload.mpr hdata
    exact ⟨.node bare ts, hbare, payloads, hpayloads, describesAll_iff.mpr hts⟩

/-- Below a node the children are all built first, and then visited from the last one. -/
theorem overflowsBelow_iff {data : PyVal K} {payloads : List (PyVal K)}
    (hpayloads : childPayloads data = .ok payloads) : OverflowsBelow data ↔
      Reached NodeReads NodeOverflows payloads ∨
        (∀ payload ∈ payloads, NodeReads payload) ∧ OverflowsLater payloads.reverse := by
  constructor
  · intro h
    cases h with
    | child hchildren h =>
      cases hpayloads.symm.trans hchildren
      exact .inl h
    | deeper hchildren h h' =>
      cases hpayloads.symm.trans hchildren
      exact .inr ⟨h, h'⟩
  · rintro (h | ⟨h, h'⟩)
    · exact .child hpayloads h
    · exact .deeper hpayloads h h'

/-- The children of the data of a node. -/
theorem raisesOnly_childPayloads {data : PyVal K} (h : NodeReads data) :
    RaisesOnly IsCaught (childPayloads data) := by
  obtain ⟨items, rfl, -⟩ := h
  change RaisesOnly IsCaught (Except.ok items >>= _)
  refine (raisesOnly_ok items).bind fun items _ => ?_
  cases Dict.get? items (lit "children") with
  | some v => exact raisesOnly_iterated v
  | none => exact raisesOnly_ok []

/-- The inner loop raises what the first payload without the data of a node raises. -/
theorem attachPayloads_eq_error {parent : Nat} {payloads : List (PyVal K)}
    {store : List (Rebuilt K)} {pending : List (Nat × PyVal K)} {e : Exc} :
    attachPayloads parent payloads store pending = .error e ↔
      payloads.mapM bareFromPayload = .error e := by
  induction payloads generalizing store pending with
  | nil => simp [attachPayloads, pure, Except.pure]
  | cons payload payloads ih =>
    rw [attachPayloads, List.mapM_cons]
    cases bareFromPayload payload with
    | error e' => simp [bind, Except.bind]
    | ok bare =>
      refine Iff.trans ih ?_
      change _ ↔ (payloads.mapM bareFromPayload >>= fun bares => pure (bare :: bares)) = .error e
      cases payloads.mapM bareFromPayload with
      | error e' => simp [bind, Except.bind]
      | ok bares => simp [bind, Except.bind, pure, Except.pure]

/-- The children of a node are attached when each of them reads as a node. -/
theorem returns_attachPayloads {parent : Nat} {payloads : List (PyVal K)}
    {store : List (Rebuilt K)} {pending : List (Nat × PyVal K)} :
    Returns (attachPayloads parent payloads store pending) ↔ ∀ payload ∈ payloads, NodeReads payload := by
  have hmap := @returns_mapM Exc (PyVal K) (BareNode K) bareFromPayload payloads
  simp only [returns_bareFromPayload] at hmap
  rw [← hmap]
  constructor
  · intro h
    refine (returns_or_raises _).resolve_right ?_
    rintro ⟨e, he⟩
    obtain ⟨state, hstate⟩ := h
    cases hstate.symm.trans (attachPayloads_eq_error.mpr he)
  · intro h
    refine (returns_or_raises _).resolve_right ?_
    rintro ⟨e, he⟩
    obtain ⟨bares, hbares⟩ := h
    cases hbares.symm.trans (attachPayloads_eq_error.mp he)

/-- Attaching children overflows at the first of them that does not read as a node. -/
theorem raises_attachPayloads [LawfulDocument K] {parent : Nat} {payloads : List (PyVal K)}
    {store : List (Rebuilt K)} {pending : List (Nat × PyVal K)} :
    Raises IsOverflow (attachPayloads parent payloads store pending) ↔
      Reached NodeReads NodeOverflows payloads := by
  have hmap := @raises_mapM Exc (PyVal K) (BareNode K) IsOverflow bareFromPayload payloads
  simp only [returns_bareFromPayload, raises_bareFromPayload] at hmap
  rw [← hmap]
  exact exists_congr fun e => and_congr_left' attachPayloads_eq_error

/-- Attaching children raises nothing unexpected. -/
theorem raisesOnly_attachPayloads [LawfulDocument K] {parent : Nat} (payloads : List (PyVal K))
    {store : List (Rebuilt K)} {pending : List (Nat × PyVal K)} :
    RaisesOnly IsExpected (attachPayloads parent payloads store pending) := by
  have hmap : RaisesOnly IsExpected (payloads.mapM (bareFromPayload (K := K))) :=
    RaisesOnly.mapM fun v _ => raisesOnly_bareFromPayload v
  exact fun e he => hmap e (attachPayloads_eq_error.mp he)

/-- The loop meets a number out of range exactly when its work list does, read from its end. -/
theorem raises_rebuildFrom [LawfulDocument K] {fuel : Nat} {store : List (Rebuilt K)}
    {pending : List (Nat × PyVal K)} (hfuel : weights (pending.map Prod.snd) ≤ fuel)
    (hreads : ∀ data ∈ pending.map Prod.snd, NodeReads data) :
    Raises (SignalIs IsOverflow) (rebuildFrom fuel store pending) ↔
      OverflowsLater (pending.map Prod.snd) := by
  induction fuel generalizing store pending with
  | zero =>
    rcases pending with _ | ⟨entry, pending⟩
    · rw [rebuildFrom]
      exact iff_of_false (not_raises_ok _) fun h => by cases h
    · have hpos := weight_pos entry.2
      rw [List.map_cons, weights] at hfuel
      omega
  | succ fuel ih =>
    rcases pending with _ | ⟨⟨n, data⟩, pending⟩
    · rw [rebuildFrom]
      exact iff_of_false (not_raises_ok _) fun h => by cases h
    · rw [List.map_cons, List.forall_mem_cons] at hreads
      rw [List.map_cons, weights] at hfuel
      dsimp only at hfuel hreads
      rw [List.map_cons, overflowsLater_cons, rebuildFrom]
      cases hpayloads : childPayloads data with
      | error e =>
        refine iff_of_false (fun h => ?_) ?_
        · rcases raises_bind.mp h with h | ⟨_, h, -⟩
          · exact not_raises_overflow (hpayloads ▸ raisesOnly_childPayloads hreads.1) (raises_raising.mp h)
          · cases h
        · rintro (h | ⟨⟨⟨bare, ts⟩, -, payloads, hchildren, -⟩, -⟩)
          · cases h with
            | child hchildren => cases hpayloads.symm.trans hchildren
            | deeper hchildren => cases hpayloads.symm.trans hchildren
          · cases hpayloads.symm.trans hchildren
      | ok payloads =>
        change Raises (SignalIs IsOverflow) (raising (attachPayloads n payloads store pending) >>= _) ↔ _
        rw [overflowsBelow_iff hpayloads, described_iff hreads.1 hpayloads, raises_bind, raises_raising,
          raises_attachPayloads]
        have hattached := @returns_attachPayloads K _ _ _ n payloads store pending
        have hraised := @raises_attachPayloads K _ _ _ _ n payloads store pending
        cases hstate : attachPayloads n payloads store pending with
        | error e =>
          -- some child has no data, so the loop ends here
          rw [hstate] at hattached
          have hmissing : ¬ ∀ payload ∈ payloads, NodeReads payload := fun h =>
            not_returns_error e (hattached.mpr h)
          have hundescribed : ¬ ∀ payload ∈ payloads, Described payload := fun h =>
            hmissing fun v hv => (h v hv).reads
          simp [raising, hmissing, hundescribed]
        | ok state =>
          rw [hstate] at hattached hraised
          have hall := hattached.mp (returns_ok state)
          have hfine : ¬ Reached NodeReads NodeOverflows payloads := fun h =>
            not_raises_ok state (hraised.mpr h)
          obtain ⟨⟨entries, hentries, hreverse⟩, hbares⟩ := attachPayloads_ok hstate
          have hlist : state.2.map Prod.snd = payloads.reverse ++ pending.map Prod.snd := by
            rw [hentries, List.map_append, ← hreverse, List.reverse_reverse]
          have hlighter := weights_childPayloads hpayloads hbares
          have hnext := @ih state.1 state.2 (by
            rw [hlist, weights_append, weights_reverse]
            omega) (by
            rw [hlist]
            exact fun v hv => (List.mem_append.mp hv).elim (fun h => hall v (List.mem_reverse.mp h))
              (hreads.2 v))
          rw [hlist, overflowsLater_append] at hnext
          have hloop : (∃ a, raising (Except.ok state : Except Exc _) = .ok a ∧
              Raises (SignalIs IsOverflow) (rebuildFrom fuel a.1 a.2)) ↔
                Raises (SignalIs IsOverflow) (rebuildFrom fuel state.1 state.2) := by
            simp [raising]
          rw [hloop, hnext]
          simp only [hfine, false_or, List.mem_reverse]
          exact or_congr_left (and_iff_right hall).symm

/-- What else can stop the loop is caught. -/
theorem raisesOnly_rebuildFrom [LawfulDocument K] {fuel : Nat} {store : List (Rebuilt K)}
    {pending : List (Nat × PyVal K)} (hfuel : weights (pending.map Prod.snd) ≤ fuel)
    (hreads : ∀ data ∈ pending.map Prod.snd, NodeReads data) :
    RaisesOnly (SignalIs IsExpected) (rebuildFrom fuel store pending) := by
  induction fuel generalizing store pending with
  | zero =>
    rcases pending with _ | ⟨entry, pending⟩
    · rw [rebuildFrom]
      exact raisesOnly_ok _
    · have hpos := weight_pos entry.2
      rw [List.map_cons, weights] at hfuel
      omega
  | succ fuel ih =>
    rcases pending with _ | ⟨⟨n, data⟩, pending⟩
    · rw [rebuildFrom]
      exact raisesOnly_ok _
    · rw [List.map_cons, List.forall_mem_cons] at hreads
      rw [List.map_cons, weights] at hfuel
      dsimp only at hfuel hreads
      rw [rebuildFrom]
      refine (raisesOnly_raising ((raisesOnly_childPayloads hreads.1).mono fun _ => Or.inl)).bind
        fun payloads hpayloads => ?_
      rw [raising_eq_ok] at hpayloads
      refine (raisesOnly_raising (raisesOnly_attachPayloads payloads)).bind fun state hstate => ?_
      rw [raising_eq_ok] at hstate
      have hall := returns_attachPayloads.mp ⟨state, hstate⟩
      obtain ⟨⟨entries, hentries, hreverse⟩, hbares⟩ := attachPayloads_ok hstate
      have hlighter := weights_childPayloads hpayloads hbares
      have hlist : state.2.map Prod.snd = payloads.reverse ++ pending.map Prod.snd := by
        rw [hentries, List.map_append, ← hreverse, List.reverse_reverse]
      refine ih ?_ ?_
      · rw [hlist, weights_append, weights_reverse]
        omega
      · rw [hlist]
        exact fun v hv => (List.mem_append.mp hv).elim (fun h => hall v (List.mem_reverse.mp h))
          (hreads.2 v)

/-- A number of the tree is out of range, and what is read before it can be read. -/
def TreeOverflows (root : PyVal K) : Prop := NodeOverflows root ∨ NodeReads root ∧ OverflowsBelow root

/-- The loop over the payloads overflows on exactly the documents whose tree overflows. -/
theorem raises_fromDict [LawfulDocument K] {root : PyVal K} :
    Raises (SignalIs IsOverflow) (fromDict root) ↔ TreeOverflows root := by
  rw [fromDict, raises_bind, raises_raising, raises_bareFromPayload, TreeOverflows]
  refine or_congr_right ?_
  have hloop : ∀ bare, NodeReads root → (Raises (SignalIs IsOverflow)
      (rebuildFrom (weight root) [⟨bare, none, []⟩] [(0, root)]) ↔ OverflowsBelow root) := by
    intro bare hroot
    rw [raises_rebuildFrom (by simp [weights]) (by simpa using hroot), List.map_singleton,
      overflowsLater_cons, or_iff_left]
    rintro ⟨-, h⟩
    cases h
  constructor
  · rintro ⟨bare, hbare, h⟩
    have hroot := returns_bareFromPayload.mp ⟨bare, raising_eq_ok.mp hbare⟩
    exact ⟨hroot, (hloop bare hroot).mp h⟩
  · rintro ⟨hroot, h⟩
    obtain ⟨bare, hbare⟩ := returns_bareFromPayload.mpr hroot
    exact ⟨bare, raising_eq_ok.mpr hbare, (hloop bare hroot).mpr h⟩

/-- The loop over the payloads raises nothing unexpected, and it ends. -/
theorem raisesOnly_fromDict [LawfulDocument K] (root : PyVal K) :
    RaisesOnly (SignalIs IsExpected) (fromDict root) := by
  refine (raisesOnly_raising (raisesOnly_bareFromPayload root)).bind fun bare hbare => ?_
  have hroot := returns_bareFromPayload.mp ⟨bare, raising_eq_ok.mp hbare⟩
  exact raisesOnly_rebuildFrom (by simp [weights]) (by simpa using hroot)

/-- What was rebuilt holds a tree that the root describes. -/
theorem described_of_fromDict {root : PyVal K} {store : List (Rebuilt K)}
    (h : fromDict root = .ok store) :
    ∃ t, Describes root t ∧ Holds store none 0 t ∧ store.length = t.size := by
  obtain ⟨bare, hbare, hloop⟩ := exists_ok_of_raising h
  obtain ⟨t, ht⟩ := describes_of_rebuildFrom hloop _ (List.mem_singleton_self _) bare hbare
  obtain ⟨store', hrun, hholds, hlength⟩ := ht.fromDict
  cases h.symm.trans hrun
  exact ⟨t, ht, hholds, hlength⟩

end Trees

section Index

variable [PyKeys K]

/-- A key of the index is the same as this one. -/
def HasKey (index : List (PyVal K × Nat)) (id : PyVal K) : Prop :=
  ∃ entry ∈ index, sameKey entry.1 id = true

/-- A key is in an index when it is that of the first entry or of a later one. -/
theorem hasKey_cons {entry : PyVal K × Nat} {index : List (PyVal K × Nat)} {id : PyVal K} :
    HasKey (entry :: index) id ↔ sameKey entry.1 id = true ∨ HasKey index id := by
  simp [HasKey]

/-- Setting a key adds it to those of the index. -/
theorem hasKey_setKey [LawfulKeys K] {index : List (PyVal K × Nat)} {key id : PyVal K} {n : Nat} :
    HasKey (setKey index key n) id ↔ HasKey index id ∨ sameKey key id = true := by
  induction index with
  | nil => simp [setKey, HasKey]
  | cons entry rest ih =>
    rw [setKey]
    split
    · rename_i hsame
      rw [hasKey_cons, hasKey_cons]
      refine ⟨Or.inl, fun h => h.elim (fun h => h) fun hkey => .inl ?_⟩
      exact sameKey_trans hsame hkey
    · rw [hasKey_cons, hasKey_cons, ih, or_assoc]

/-- A key is in the index exactly when an entry has the same key. -/
theorem hasKey_indexFrom [LawfulKeys K] {entries index final : List (PyVal K × Nat)}
    (h : indexFrom entries index = .ok final) (id : PyVal K) :
    HasKey final id ↔ HasKey index id ∨ HasKey entries id := by
  induction entries generalizing index with
  | nil =>
    cases h
    simp [HasKey]
  | cons entry entries ih =>
    obtain ⟨⟨⟩, -, h⟩ := exists_of_bind_eq_ok h
    rw [ih h, hasKey_setKey, hasKey_cons, or_assoc]

/-- The index is built when every id is hashable. -/
theorem returns_indexFrom {entries index : List (PyVal K × Nat)} :
    Returns (indexFrom entries index) ↔ ∀ entry ∈ entries, Hashable entry.1 := by
  induction entries generalizing index with
  | nil => simp [indexFrom]
  | cons entry entries ih =>
    rw [indexFrom, returns_bind, List.forall_mem_cons, ← returns_hashed]
    constructor
    · rintro ⟨⟨⟩, hkey, h⟩
      exact ⟨⟨(), hkey⟩, ih.mp h⟩
    · rintro ⟨⟨⟨⟩, hkey⟩, h⟩
      exact ⟨(), hkey, ih.mpr h⟩

/-- An id that cannot be hashed is translated. -/
theorem raisesOnly_indexFrom (entries index : List (PyVal K × Nat)) :
    RaisesOnly IsCaught (indexFrom entries index) := by
  induction entries generalizing index with
  | nil => exact raisesOnly_ok _
  | cons entry entries ih => exact (raisesOnly_hashed _).bind fun _ _ => ih _

variable [PyNumber K] [PyDocument K]

/-- A node is found under a hashable id of the index. -/
theorem returns_get {tree : LoadedTree K} {id : PyVal K} :
    Returns (tree.get id) ↔ Hashable id ∧ HasKey tree.index id := by
  rw [LoadedTree.get, returns_bind, ← returns_hashed]
  have hfind : (tree.index.find? fun entry => sameKey entry.1 id).isSome ↔ HasKey tree.index id := by
    rw [List.find?_isSome]
    rfl
  constructor
  · rintro ⟨⟨⟩, hkey, h⟩
    refine ⟨⟨(), hkey⟩, hfind.mp ?_⟩
    cases hentry : tree.index.find? fun entry => sameKey entry.1 id with
    | some entry => rfl
    | none =>
      rw [hentry] at h
      exact absurd h (not_returns_error _)
  · rintro ⟨⟨⟨⟩, hkey⟩, h⟩
    obtain ⟨entry, hentry⟩ := Option.isSome_iff_exists.mp (hfind.mpr h)
    refine ⟨(), hkey, entry.2, ?_⟩
    rw [hentry]
    rfl

/-- An id that is not in the index is translated. -/
theorem raisesOnly_get (tree : LoadedTree K) (id : PyVal K) : RaisesOnly IsCaught (tree.get id) := by
  refine (raisesOnly_hashed id).bind fun _ _ => ?_
  split
  · exact raisesOnly_ok _
  · exact raisesOnly_error.mpr (.inl rfl)

end Index

/-- The identified nodes have the identifiers of the tree that the nodes hold. -/
theorem forall_identified {nodes : List (Rebuilt K)} {t : Rose (BareNode K)}
    (h : Holds nodes none 0 t) (hsize : nodes.length = t.size) {P : PyVal K → Prop} :
    (∀ entry ∈ identified nodes, P entry.1) ↔ ∀ bare ∈ t.preorder, P bare.id := by
  rw [← List.forall_mem_map (f := Prod.fst) (P := P), map_fst_identified h hsize, List.forall_mem_map]

end CognitiveTree.Persistence
