import CognitiveTree.Persistence.Serialization

/-!
# Rebuilt trees

`from_dict` creates the nodes of a document from a work list that it pops from its end. What a
document describes is said by recursion: the record of its root and the documents of its children.
The rebuilt nodes hold this tree, with every child list in document order and every parent link
naming the node whose child list has the child.
-/

namespace CognitiveTree.Persistence

open Search Observability Feedback Llm

/-- What else the runtime makes of the values of a document. -/
class PyDocument (K : Type) where
  /-- `repr(x)` -/
  repr : PyVal K → Str
  /-- `dict(xs)` of a list of pairs -/
  ofPairs : List (PyVal K) → Except Exc (Metadata K)

/-- A rebuilt node without its links. -/
structure BareNode (K : Type) where
  content : PyVal K
  depth : Int
  id : PyVal K
  status : NodeStatus
  visits : Int
  valueSum : K
  score : K
  rationale : PyVal K
  metadata : Metadata K

variable {K : Type}

/-- `NodeStatus(value)`. -/
def statusOf [PyDocument K] (v : PyVal K) : Except Exc NodeStatus :=
  let found := match v with
    | .str s => memberOf nodeStatuses statusValue s
    | _ => none
  match found with
  | some status => .ok status
  | none => .error (valueError (PyDocument.repr v ++ lit " is not a valid NodeStatus"))

/-- `dict(x)` of a value that is not empty. -/
def dictOf [PyDocument K] : PyVal K → Except Exc (Metadata K)
  | .dict items => .ok items
  | .list xs => PyDocument.ofPairs xs
  | .str _ => .error (valueError
      (lit "dictionary update sequence element #0 has length 1; 2 is required"))
  | v => .error (typeError (lit "'" ++ v.typeName ++ lit "' object is not iterable"))

/-- `dict(payload.get("metadata") or {})`. -/
def metadataOf [PyFloat K] [PyDocument K] (found : Option (PyVal K)) : Except Exc (Metadata K) :=
  match found with
  | none => .ok []
  | some v => if truthy v then dictOf v else .ok []

/-- The items a `for` loop takes from a value. -/
def iterated : PyVal K → Except Exc (List (PyVal K))
  | .list xs => .ok xs
  | .str s => .ok (s.map fun c => .str [c])
  | .dict items => .ok (items.map fun item => .str item.1)
  | v => .error (typeError (lit "'" ++ v.typeName ++ lit "' object is not iterable"))

/-- `data.get("children", ())`, as the loop of `from_dict` takes it apart. -/
def childPayloads (data : PyVal K) : Except Exc (List (PyVal K)) := do
  let items ← itemsOf data
  match Dict.get? items (lit "children") with
  | some v => iterated v
  | none => pure []

/-- A node of the rebuilt tree: its data, its parent and its children. -/
structure Rebuilt (K : Type) where
  bare : BareNode K
  parent : Option Nat
  children : List Nat

/-- `cls(...)` with a parent, appended to its child list. -/
def attached (store : List (Rebuilt K)) (parent : Nat) (bare : BareNode K) : List (Rebuilt K) :=
  store.modify parent (fun node => { node with children := node.children ++ [store.length] }) ++
    [⟨bare, some parent, []⟩]

section FromDict

variable [PyFloat K] [PyNumber K] [PyDocument K]

/-- `cls._bare_from_payload(payload, parent)`, without the parent. -/
def bareFromPayload (payload : PyVal K) : Except Exc (BareNode K) := do
  let content ← subscriptKey payload (lit "content")
  let depth ← (← subscriptKey payload (lit "depth")).toInt
  let id ← subscriptKey payload (lit "id")
  let status ← statusOf (← subscriptKey payload (lit "status"))
  let visits ← (← subscriptKey payload (lit "visits")).toInt
  let valueSum ← (← subscriptKey payload (lit "value_sum")).toFloat
  let score ← (← subscriptKey payload (lit "score")).toFloat
  let items ← itemsOf payload
  let metadata ← metadataOf (Dict.get? items (lit "metadata"))
  pure {
    content := content
    depth := depth
    id := id
    status := status
    visits := visits
    valueSum := valueSum
    score := score
    rationale := (Dict.get? items (lit "rationale")).getD (.str [])
    metadata := metadata }

/-- The inner loop of `from_dict`: the children of one node, with the work they leave. -/
def attachPayloads (parent : Nat) : List (PyVal K) → List (Rebuilt K) → List (Nat × PyVal K) →
    Except Exc (List (Rebuilt K) × List (Nat × PyVal K))
  | [], store, pending => .ok (store, pending)
  | payload :: rest, store, pending => do
    let bare ← bareFromPayload payload
    attachPayloads parent rest (attached store parent bare) ((store.length, payload) :: pending)

/-- An exception in a loop. -/
def raising {α : Type} : Except Exc α → Except Signal α
  | .ok a => .ok a
  | .error e => .error (.raised e)

/-- The outer loop of `from_dict`, popping at most `fuel` entries of the work list; its end is the
head of the list. -/
def rebuildFrom : Nat → List (Rebuilt K) → List (Nat × PyVal K) → Except Signal (List (Rebuilt K))
  | _, store, [] => .ok store
  | 0, _, _ :: _ => .error .diverged
  | fuel + 1, store, (node, data) :: pending => do
    let payloads ← raising (childPayloads data)
    let state ← raising (attachPayloads node payloads store pending)
    rebuildFrom fuel state.1 state.2

end FromDict

mutual

/-- The number of values in a value. -/
def weight : PyVal K → Nat
  | .list vs => 1 + weights vs
  | .dict items => 1 + itemWeights items
  | _ => 1

def weights : List (PyVal K) → Nat
  | [] => 0
  | v :: vs => weight v + weights vs

def itemWeights : List (Str × PyVal K) → Nat
  | [] => 0
  | (_, v) :: items => weight v + itemWeights items

end

/-- `ThoughtNode.from_dict(payload)`: the nodes in the order of their creation. -/
def fromDict [PyFloat K] [PyNumber K] [PyDocument K] (payload : PyVal K) :
    Except Signal (List (Rebuilt K)) := do
  let root ← raising (bareFromPayload payload)
  rebuildFrom (weight payload) [⟨root, none, []⟩] [(0, payload)]

section Described

variable [PyFloat K] [PyNumber K] [PyDocument K]

mutual

/-- The document describes the tree, by recursion over its children. -/
def Describes (payload : PyVal K) : Rose (BareNode K) → Prop
  | .node bare ts => bareFromPayload payload = .ok bare ∧
      ∃ payloads, childPayloads payload = .ok payloads ∧ DescribesAll payloads ts

def DescribesAll : List (PyVal K) → List (Rose (BareNode K)) → Prop
  | [], [] => True
  | payload :: payloads, t :: ts => Describes payload t ∧ DescribesAll payloads ts
  | _, _ => False

end

end Described

mutual

/-- The nodes from this one on are the tree: each child list has the roots of the subtrees in their
order, and each child names its parent. -/
def Holds (store : List (Rebuilt K)) (parent : Option Nat) (n : Nat) : Rose (BareNode K) → Prop
  | .node bare ts => ∃ children, store[n]? = some ⟨bare, parent, children⟩ ∧ children.Nodup ∧
      HoldsAll store n children ts

def HoldsAll (store : List (Rebuilt K)) (parent : Nat) :
    List Nat → List (Rose (BareNode K)) → Prop
  | [], [] => True
  | c :: cs, t :: ts => Holds store (some parent) c t ∧ HoldsAll store parent cs ts
  | _, _ => False

end

/-- The subtrees below a node are held one by one. -/
theorem holdsAll_iff {store : List (Rebuilt K)} {parent : Nat} {cs : List Nat}
    {ts : List (Rose (BareNode K))} :
    HoldsAll store parent cs ts ↔ List.Forall₂ (Holds store (some parent)) cs ts := by
  induction cs generalizing ts with
  | nil => cases ts <;> simp [HoldsAll]
  | cons c cs ih => cases ts <;> simp [HoldsAll, ih]

/-- What a store holds at a node is determined. -/
theorem Holds.unique {store : List (Rebuilt K)} {parent : Option Nat} {n : Nat}
    {t u : Rose (BareNode K)} (h : Holds store parent n t) (h' : Holds store parent n u) : t = u := by
  induction t using Rose.induct generalizing parent n u with
  | node bare ts ih =>
    obtain ⟨bare', us⟩ := u
    obtain ⟨cs, hcs, -, hts⟩ := h
    obtain ⟨cs', hcs', -, hus⟩ := h'
    cases hcs.symm.trans hcs'
    rw [holdsAll_iff] at hts hus
    congr 1
    clear hcs hcs'
    induction hts generalizing us with
    | nil =>
      cases hus
      rfl
    | cons hc _ ihts =>
      cases hus with
      | cons hc' hus =>
        rw [ih _ (List.mem_cons_self ..) hc hc', ihts (fun t ht => ih t (List.mem_cons_of_mem _ ht)) _ hus]

section Weight

/-- A value weighs no more than the dictionary around it. -/
theorem weight_le_of_mem {items : List (Str × PyVal K)} {key : Str} {v : PyVal K}
    (h : Dict.get? items key = some v) : weight v ≤ itemWeights items := by
  induction items with
  | nil => cases h
  | cons item items ih =>
    rw [Dict.get?] at h
    rw [itemWeights]
    split at h
    · cases h
      omega
    · have := ih h
      omega

/-- Every value weighs something. -/
theorem weight_pos (v : PyVal K) : 0 < weight v := by
  cases v <;> simp [weight]

/-- Two lists weigh what both of them weigh. -/
theorem weights_append (vs ws : List (PyVal K)) : weights (vs ++ ws) = weights vs + weights ws := by
  induction vs with
  | nil => simp [weights]
  | cons v vs ih => rw [List.cons_append, weights, ih, weights, Nat.add_assoc]

/-- The order does not change the weight. -/
theorem weights_reverse (vs : List (PyVal K)) : weights vs.reverse = weights vs := by
  induction vs with
  | nil => rfl
  | cons v vs ih =>
    rw [List.reverse_cons, weights_append, ih, weights, weights, weights]
    omega

variable [PyFloat K] [PyNumber K] [PyDocument K]

/-- A text is not a payload. -/
theorem eq_nil_of_texts {texts : List Str} (h : ∀ v ∈ texts.map (.str : Str → PyVal K),
    ∃ bare, bareFromPayload v = .ok bare) : texts = [] := by
  rcases texts with _ | ⟨text, texts⟩
  · rfl
  · obtain ⟨bare, hbare⟩ := h _ (List.mem_cons_self ..)
    cases hbare

/-- The payloads inside a value weigh less than it does. -/
theorem weights_iterated {v : PyVal K} {vs : List (PyVal K)} (h : iterated v = .ok vs)
    (hbare : ∀ v ∈ vs, ∃ bare, bareFromPayload v = .ok bare) : weights vs < weight v := by
  cases v with
  | list xs =>
    cases h
    rw [weight]
    omega
  | str s =>
    cases h
    have hnil := @eq_nil_of_texts K _ _ _ (s.map fun c => [c]) (by simpa using hbare)
    rw [List.map_eq_nil_iff.mp hnil]
    exact Nat.zero_lt_one
  | dict items =>
    cases h
    have hnil := @eq_nil_of_texts K _ _ _ (items.map Prod.fst) (by simpa using hbare)
    rw [List.map_eq_nil_iff.mp hnil]
    exact Nat.zero_lt_one
  | _ => cases h

/-- The children of a document are together lighter than the document. -/
theorem weights_childPayloads {data : PyVal K} {payloads : List (PyVal K)}
    (h : childPayloads data = .ok payloads)
    (hbare : ∀ v ∈ payloads, ∃ bare, bareFromPayload v = .ok bare) :
    weights payloads < weight data := by
  obtain ⟨items, hitems, hfound⟩ := exists_of_bind_eq_ok h
  cases data with
  | dict items' =>
    cases hitems
    rw [weight]
    cases hv : Dict.get? items (lit "children") with
    | none =>
      rw [hv] at hfound
      cases hfound
      rw [weights]
      omega
    | some v =>
      rw [hv] at hfound
      have hlt := weights_iterated hfound hbare
      have hle := weight_le_of_mem hv
      omega
  | _ => cases hitems

end Weight

section Loops

variable [PyFloat K] [PyNumber K] [PyDocument K]

/-- The subtrees below a node are described one by one. -/
theorem describesAll_iff {payloads : List (PyVal K)} {ts : List (Rose (BareNode K))} :
    DescribesAll payloads ts ↔ List.Forall₂ Describes payloads ts := by
  induction payloads generalizing ts with
  | nil => cases ts <;> simp [DescribesAll]
  | cons v vs ih => cases ts <;> simp [DescribesAll, ih]

/-- What describes a tree describes its root. -/
theorem Describes.exists_bare {v : PyVal K} {t : Rose (BareNode K)} (h : Describes v t) :
    ∃ bare, bareFromPayload v = .ok bare := by
  cases t
  exact ⟨_, h.1⟩

/-- A document has at least as many values as the tree it describes has nodes. -/
theorem Describes.size_le {v : PyVal K} {t : Rose (BareNode K)} (h : Describes v t) :
    t.size ≤ weight v := by
  induction t using Rose.induct generalizing v with
  | node bare ts ih =>
    obtain ⟨-, payloads, hpayloads, hts⟩ := h
    rw [describesAll_iff] at hts
    have hlt := weights_childPayloads hpayloads fun v hv => by
      obtain ⟨u, -, hu⟩ := exists_of_forall₂_left hts hv
      exact hu.exists_bare
    have hle : (ts.flatMap Rose.preorder).length ≤ weights payloads := by
      clear hpayloads hlt
      induction hts with
      | nil => exact le_rfl
      | cons hv _ ihts =>
        have hsize := ih _ (List.mem_cons_self ..) hv
        have hrest := ihts fun t ht => ih t (List.mem_cons_of_mem _ ht)
        rw [Rose.size] at hsize
        rw [List.flatMap_cons, List.length_append, weights]
        omega
    rw [Rose.size_node]
    omega

end Loops

section Attached

variable {store : List (Rebuilt K)} {parent m : Nat} {bare : BareNode K}

/-- A node was attached. -/
@[simp] theorem length_attached : (attached store parent bare).length = store.length + 1 := by
  simp [attached]

/-- The new node is the last one, and a leaf. -/
theorem attached_new :
    (attached store parent bare)[store.length]? = some ⟨bare, some parent, []⟩ := by
  simp [attached]

/-- The other nodes stay as they are. -/
theorem attached_other (h : m ≠ parent) {node : Rebuilt K} (hm : store[m]? = some node) :
    (attached store parent bare)[m]? = some node := by
  have hlt := (List.getElem?_eq_some_iff.mp hm).1
  rw [attached, List.getElem?_append_left (by simpa using hlt), List.getElem?_modify, hm]
  simp [Ne.symm h]

/-- Its parent has it as the last child. -/
theorem attached_parent {node : Rebuilt K} (hm : store[parent]? = some node) :
    (attached store parent bare)[parent]? =
      some { node with children := node.children ++ [store.length] } := by
  have hlt := (List.getElem?_eq_some_iff.mp hm).1
  rw [attached, List.getElem?_append_left (by simpa using hlt), List.getElem?_modify, hm]
  simp

end Attached

section Rebuild

variable [PyFloat K] [PyNumber K] [PyDocument K]

/-- An entry of the work list with the parent of its node and the tree it describes. -/
structure Work (K : Type) where
  node : Nat
  payload : PyVal K
  parent : Option Nat
  tree : Rose (BareNode K)

/-- The entry itself. -/
def Work.entry (w : Work K) : Nat × PyVal K := (w.node, w.payload)

/-- The node of the entry is there, without its children. -/
def Work.Ready (store : List (Rebuilt K)) (w : Work K) : Prop :=
  Describes w.payload w.tree ∧ store[w.node]? = some ⟨w.tree.label, w.parent, []⟩

/-- The work that the children of a node leave, the first child first. -/
def queued (parent : Nat) : Nat → List (PyVal K) → List (Rose (BareNode K)) → List (Work K)
  | first, v :: vs, t :: ts => ⟨first, v, some parent, t⟩ :: queued parent (first + 1) vs ts
  | _, _, _ => []

omit [PyFloat K] [PyNumber K] [PyDocument K] in
/-- The queued nodes are numbered in their order. -/
theorem map_node_queued {R : PyVal K → Rose (BareNode K) → Prop} {payloads : List (PyVal K)}
    {ts : List (Rose (BareNode K))} (h : List.Forall₂ R payloads ts) (parent first : Nat) :
    (queued parent first payloads ts).map Work.node = List.range' first ts.length := by
  induction h generalizing first with
  | nil => rfl
  | cons _ _ ih => rw [queued, List.map_cons, ih, List.length_cons, List.range'_succ]

omit [PyFloat K] [PyNumber K] [PyDocument K] in
/-- The queued trees stand in their order. -/
theorem map_tree_queued {R : PyVal K → Rose (BareNode K) → Prop} {payloads : List (PyVal K)}
    {ts : List (Rose (BareNode K))} (h : List.Forall₂ R payloads ts) (parent first : Nat) :
    (queued parent first payloads ts).map Work.tree = ts := by
  induction h generalizing first with
  | nil => rfl
  | cons _ _ ih => rw [queued, List.map_cons, ih]

omit [PyFloat K] [PyNumber K] [PyDocument K] in
/-- When the queued trees are held, the child list made of their nodes is. -/
theorem holdsAll_of_queued {R : PyVal K → Rose (BareNode K) → Prop} {payloads : List (PyVal K)}
    {ts : List (Rose (BareNode K))} (h : List.Forall₂ R payloads ts) {store : List (Rebuilt K)}
    {parent first : Nat}
    (hheld : ∀ w ∈ queued parent first payloads ts, Holds store w.parent w.node w.tree) :
    HoldsAll store parent (List.range' first ts.length) ts := by
  induction h generalizing first with
  | nil => trivial
  | cons _ _ ih =>
    rw [queued, List.forall_mem_cons] at hheld
    rw [List.length_cons, List.range'_succ]
    exact ⟨hheld.1, ih hheld.2⟩

/-- The inner loop appends the children of one node in document order and touches no other. -/
theorem attachPayloads_spec {payloads : List (PyVal K)} {ts : List (Rose (BareNode K))}
    (h : List.Forall₂ Describes payloads ts) {store : List (Rebuilt K)} {parent : Nat}
    {node : Rebuilt K} (hnode : store[parent]? = some node) (pending : List (Nat × PyVal K)) :
    ∃ store', attachPayloads parent payloads store pending = .ok (store',
        ((queued parent store.length payloads ts).map Work.entry).reverse ++ pending) ∧
      store'.length = store.length + ts.length ∧
      store'[parent]? = some { node with
        children := node.children ++ List.range' store.length ts.length } ∧
      (∀ m, m ≠ parent → ∀ other, store[m]? = some other → store'[m]? = some other) ∧
      ∀ w ∈ queued parent store.length payloads ts, w.Ready store' := by
  induction h generalizing store node pending with
  | nil => exact ⟨store, rfl, rfl, by simpa using hnode, fun _ _ _ h => h, by simp [queued]⟩
  | @cons v t payloads ts hv _ ih =>
    have hbare : bareFromPayload v = .ok t.label := by
      cases t
      exact hv.1
    have hne : store.length ≠ parent := by
      have := (List.getElem?_eq_some_iff.mp hnode).1
      omega
    obtain ⟨store', hrun, hlength, hparent, hothers, hready⟩ :=
      ih (@attached_parent K store parent t.label node hnode) ((store.length, v) :: pending)
    rw [length_attached] at hrun hlength hparent hready
    refine ⟨store', ?_, ?_, ?_, ?_, ?_⟩
    · rw [attachPayloads, hbare, queued, List.map_cons, List.reverse_cons, List.append_assoc]
      exact hrun
    · rw [hlength, List.length_cons]
      omega
    · rw [hparent, List.length_cons, List.range'_succ, List.append_assoc]
      rfl
    · exact fun m hm other hother => hothers m hm other (attached_other hm hother)
    · rw [queued, List.forall_mem_cons]
      exact ⟨⟨hv, hothers _ hne _ attached_new⟩, hready⟩

/-- The loop builds the tree of every entry of the work list below the entry's node, and touches
no other node. -/
theorem rebuildFrom_spec {fuel : Nat} {works : List (Work K)} {store : List (Rebuilt K)}
    (hready : ∀ w ∈ works, w.Ready store) (hnodup : (works.map Work.node).Nodup)
    (hfuel : ((works.map Work.tree).flatMap Rose.preorder).length ≤ fuel) :
    ∃ store', rebuildFrom fuel store (works.map Work.entry) = .ok store' ∧
      store'.length + works.length =
        store.length + ((works.map Work.tree).flatMap Rose.preorder).length ∧
      (∀ m, m ∉ works.map Work.node → ∀ other, store[m]? = some other → store'[m]? = some other) ∧
      ∀ w ∈ works, Holds store' w.parent w.node w.tree := by
  induction fuel generalizing works store with
  | zero =>
    rcases works with _ | ⟨w, works⟩
    · exact ⟨store, by rw [List.map_nil, rebuildFrom], rfl, fun _ _ _ h => h, by simp⟩
    · have hpos := w.tree.size_pos
      rw [Rose.size] at hpos
      rw [List.map_cons, List.flatMap_cons, List.length_append] at hfuel
      omega
  | succ fuel ih =>
    rcases works with _ | ⟨⟨n, v, parent, ⟨bare, ts⟩⟩, works⟩
    · exact ⟨store, by rw [List.map_nil, rebuildFrom], rfl, fun _ _ _ h => h, by simp⟩
    · rw [List.forall_mem_cons] at hready
      obtain ⟨⟨⟨-, payloads, hpayloads, hts⟩, hnode⟩, hready⟩ := hready
      rw [describesAll_iff] at hts
      rw [List.map_cons, List.nodup_cons] at hnodup
      obtain ⟨hn, hnodup⟩ := hnodup
      obtain ⟨store', hrun, hlength, hparent, hothers, hqueued⟩ :=
        attachPayloads_spec hts hnode (works.map Work.entry)
      have hbound : n < store.length := (List.getElem?_eq_some_iff.mp hnode).1
      have hold : ∀ m ∈ works.map Work.node, m < store.length := by
        intro m hm
        obtain ⟨w, hw, rfl⟩ := List.mem_map.mp hm
        exact (List.getElem?_eq_some_iff.mp (hready w hw).2).1
      -- the work list after this round, last child first
      obtain ⟨queue, hqueue⟩ : ∃ queue, queue = queued n store.length payloads ts := ⟨_, rfl⟩
      have hnodes := map_node_queued hts n store.length
      have htrees := map_tree_queued hts n store.length
      rw [← hqueue] at hrun hqueued hnodes htrees
      have hfresh : ∀ m ∈ queue.map Work.node, store.length ≤ m := by
        intro m hm
        rw [hnodes] at hm
        exact (List.mem_range'_1.mp hm).1
      have hsizes : (((queue.reverse ++ works).map Work.tree).flatMap Rose.preorder).length =
          (ts.flatMap Rose.preorder).length + ((works.map Work.tree).flatMap Rose.preorder).length := by
        rw [List.map_append, List.map_reverse, htrees, List.flatMap_append, List.length_append,
          ((List.reverse_perm ts).flatMap_right _).length_eq]
      have hready' : ∀ w ∈ queue.reverse ++ works, w.Ready store' := by
        intro w hw
        rcases List.mem_append.mp hw with hw | hw
        · exact hqueued w (List.mem_reverse.mp hw)
        · have hne : w.node ≠ n := fun he => hn (List.mem_map.mpr ⟨w, hw, he⟩)
          exact ⟨(hready w hw).1, hothers _ hne _ (hready w hw).2⟩
      have hnodup' : ((queue.reverse ++ works).map Work.node).Nodup := by
        rw [List.map_append, List.map_reverse, hnodes]
        refine List.Nodup.append (List.nodup_reverse.mpr List.nodup_range') hnodup fun m hm hm' => ?_
        have hlow := (List.mem_range'_1.mp (List.mem_reverse.mp hm)).1
        have := hold m hm'
        omega
      have hfuel' : (((queue.reverse ++ works).map Work.tree).flatMap Rose.preorder).length ≤ fuel := by
        rw [List.map_cons, List.flatMap_cons, List.length_append, Rose.preorder_node,
          List.length_cons] at hfuel
        omega
      obtain ⟨final, hfinal, hcount, hframe, hheld⟩ := ih hready' hnodup' hfuel'
      have hkept : n ∉ (queue.reverse ++ works).map Work.node := by
        rw [List.map_append, List.map_reverse, List.mem_append, List.mem_reverse]
        rintro (hm | hm)
        · have := hfresh n hm
          omega
        · exact hn hm
      refine ⟨final, ?_, ?_, ?_, ?_⟩
      · rw [List.map_cons, rebuildFrom]
        change (raising (childPayloads v) >>= _) = _
        rw [hpayloads]
        change (raising (attachPayloads n payloads store _) >>= _) = _
        rw [hrun]
        rw [List.map_append, List.map_reverse] at hfinal
        exact hfinal
      · have hnew := congrArg List.length hnodes
        rw [List.length_map, List.length_range'] at hnew
        rw [List.length_append, List.length_reverse, hsizes] at hcount
        rw [List.length_cons, List.map_cons, List.flatMap_cons, List.length_append,
          Rose.preorder_node, List.length_cons]
        omega
      · intro m hm other hother
        rw [List.map_cons, List.mem_cons, not_or] at hm
        refine hframe m ?_ other (hothers m hm.1 other hother)
        rw [List.map_append, List.map_reverse, List.mem_append, List.mem_reverse]
        rintro (hmem | hmem)
        · have hlow := hfresh m hmem
          have hlt := (List.getElem?_eq_some_iff.mp hother).1
          omega
        · exact hm.2 hmem
      · rw [List.forall_mem_cons]
        refine ⟨⟨List.range' store.length ts.length, ?_, List.nodup_range', ?_⟩, fun w hw =>
          hheld w (List.mem_append_right _ hw)⟩
        · exact hframe n hkept _ hparent
        · refine holdsAll_of_queued hts fun w hw => hheld w (List.mem_append_left _ ?_)
          rw [List.mem_reverse, hqueue]
          exact hw

/-- A step of a loop that succeeded had a value to go on with. -/
theorem exists_ok_of_raising {α β : Type} {x : Except Exc α} {f : α → Except Signal β} {b : β}
    (h : (raising x >>= f) = .ok b) : ∃ a, x = .ok a ∧ f a = .ok b := by
  cases x with
  | ok a => exact ⟨a, rfl, h⟩
  | error e => cases h

/-- What the inner loop went through is queued, and each payload had the data of a node. -/
theorem attachPayloads_ok {parent : Nat} {payloads : List (PyVal K)} {store : List (Rebuilt K)}
    {pending : List (Nat × PyVal K)} {state : List (Rebuilt K) × List (Nat × PyVal K)}
    (h : attachPayloads parent payloads store pending = .ok state) :
    (∃ entries, state.2 = entries ++ pending ∧ (entries.map Prod.snd).reverse = payloads) ∧
      ∀ v ∈ payloads, ∃ bare, bareFromPayload v = .ok bare := by
  induction payloads generalizing store pending with
  | nil =>
    cases h
    exact ⟨⟨[], rfl, rfl⟩, by simp⟩
  | cons v payloads ih =>
    obtain ⟨bare, hbare, h⟩ := exists_of_bind_eq_ok h
    obtain ⟨⟨entries, hentries, hpayloads⟩, hall⟩ := ih h
    refine ⟨⟨entries ++ [(store.length, v)], ?_, ?_⟩, List.forall_mem_cons.mpr ⟨⟨bare, hbare⟩, hall⟩⟩
    · rw [hentries, List.append_assoc]
      rfl
    · rw [List.map_append, List.reverse_append, hpayloads]
      rfl

/-- Documents that each describe a tree. -/
theorem exists_forall₂_describes {payloads : List (PyVal K)}
    (h : ∀ v ∈ payloads, ∃ t, Describes v t) : ∃ ts, List.Forall₂ Describes payloads ts := by
  induction payloads with
  | nil => exact ⟨[], .nil⟩
  | cons v payloads ih =>
    rw [List.forall_mem_cons] at h
    obtain ⟨⟨t, ht⟩, hrest⟩ := h
    obtain ⟨ts, hts⟩ := ih hrest
    exact ⟨t :: ts, .cons ht hts⟩

/-- A loop that returned has found a tree in every document of its work list. -/
theorem describes_of_rebuildFrom {fuel : Nat} {store final : List (Rebuilt K)}
    {pending : List (Nat × PyVal K)} (h : rebuildFrom fuel store pending = .ok final) :
    ∀ entry ∈ pending, ∀ bare, bareFromPayload entry.2 = .ok bare →
      ∃ t, Describes entry.2 t := by
  induction fuel generalizing store pending with
  | zero =>
    rcases pending with _ | ⟨entry, pending⟩
    · simp
    · cases h
  | succ fuel ih =>
    rcases pending with _ | ⟨⟨n, data⟩, pending⟩
    · simp
    · rw [rebuildFrom] at h
      obtain ⟨payloads, hpayloads, hround⟩ := exists_ok_of_raising h
      obtain ⟨state, hstate, hnext⟩ := exists_ok_of_raising hround
      obtain ⟨⟨entries, hentries, rfl⟩, hbares⟩ := attachPayloads_ok hstate
      have hrest := ih hnext
      rw [hentries] at hrest
      rw [List.forall_mem_cons]
      refine ⟨fun bare hbare => ?_, fun entry he => hrest entry (List.mem_append_right _ he)⟩
      obtain ⟨ts, hts⟩ := exists_forall₂_describes fun v hv => by
        obtain ⟨bare', hbare'⟩ := hbares v hv
        obtain ⟨entry, he, rfl⟩ := List.mem_map.mp (List.mem_reverse.mp hv)
        exact hrest entry (List.mem_append_left _ he) bare' hbare'
      exact ⟨.node bare ts, hbare, _, hpayloads, describesAll_iff.mpr hts⟩

/-- `from_dict` creates the nodes of the tree that the document describes. -/
theorem Describes.fromDict {payload : PyVal K} {t : Rose (BareNode K)} (h : Describes payload t) :
    ∃ store, fromDict payload = .ok store ∧ Holds store none 0 t ∧ store.length = t.size := by
  obtain ⟨bare, hbare⟩ := h.exists_bare
  have hlabel : bare = t.label := by
    cases t
    exact Except.ok.inj (hbare.symm.trans h.1)
  have hready : ∀ w ∈ [(⟨0, payload, none, t⟩ : Work K)], w.Ready [⟨bare, none, []⟩] := by
    rw [List.forall_mem_singleton]
    exact ⟨h, by rw [hlabel]; rfl⟩
  have hfuel : (([(⟨0, payload, none, t⟩ : Work K)].map Work.tree).flatMap Rose.preorder).length ≤
      weight payload := by
    simpa [Rose.size] using h.size_le
  obtain ⟨store, hrun, hlength, -, hheld⟩ := rebuildFrom_spec hready (List.nodup_singleton _) hfuel
  refine ⟨store, ?_, hheld _ (List.mem_singleton_self _), ?_⟩
  · rw [Persistence.fromDict, hbare]
    exact hrun
  · simp [Rose.size] at hlength ⊢
    omega

/-- The rebuilt nodes hold a tree exactly when the document describes it by recursion. -/
theorem describes_iff {payload : PyVal K} {t : Rose (BareNode K)} : Describes payload t ↔
    ∃ store, fromDict payload = .ok store ∧ Holds store none 0 t ∧ store.length = t.size := by
  refine ⟨Describes.fromDict, ?_⟩
  rintro ⟨store, hrun, hheld, -⟩
  have hread : ∃ u, Describes payload u := by
    rw [fromDict] at hrun
    obtain ⟨bare, hbare, hloop⟩ := exists_ok_of_raising hrun
    exact describes_of_rebuildFrom hloop _ (List.mem_singleton_self _) bare hbare
  obtain ⟨u, hu⟩ := hread
  obtain ⟨store', hrun', hheld', -⟩ := hu.fromDict
  cases hrun.symm.trans hrun'
  rwa [hheld.unique hheld']

end Rebuild

section RoundTrip

variable [PyDocument K]

/-- A status is read back from its value. -/
theorem statusOf_statusValue (status : NodeStatus) :
    statusOf (.str (statusValue status) : PyVal K) = .ok status := by
  have hfound : memberOf nodeStatuses statusValue (statusValue status) = some status :=
    memberOf_value (by decide +kernel) (by cases status <;> decide)
  simp only [statusOf, hfound]

/-- A dictionary is metadata. -/
theorem metadataOf_dict [PyFloat K] (items : Metadata K) :
    metadataOf (some (.dict items)) = .ok items := by
  cases items <;> rfl

variable [PyFloat K] [PyNumber K] (ids : Nat → Str) (metadata : Nat → Metadata K)
  (includeMetadata : Bool) (a : Arena K)

/-- What is rebuilt of a serialized node: its sums are rounded to six digits, and its metadata is
there if it was included. -/
def restored (n : Nat) : BareNode K where
  content := .str (a.node n).content
  depth := (a.node n).depth
  id := .str (ids n)
  status := (a.node n).status
  visits := (a.node n).visits
  valueSum := PyFloat.round (a.node n).valueSum 6
  score := PyFloat.round (a.node n).score 6
  rationale := .str (a.node n).rationale
  metadata := if includeMetadata then metadata n else []

/-- The data of a payload are those of the node. -/
theorem bareFromPayload_payload (n : Nat) (children : List (PyVal K)) :
    bareFromPayload (payload ids metadata includeMetadata a n children) =
      .ok (restored ids metadata includeMetadata a n) := by
  have hstatus := @statusOf_statusValue K _ (a.node n).status
  have hmetadata := metadataOf_dict (metadata n)
  rw [bareFromPayload]
  cases includeMetadata with
  | false =>
    change (statusOf (.str (statusValue (a.node n).status)) >>= _) = _
    rw [hstatus]
    rfl
  | true =>
    change (statusOf (.str (statusValue (a.node n).status)) >>= _) = _
    rw [hstatus]
    change (metadataOf (some (.dict (metadata n))) >>= _) = _
    rw [hmetadata]
    rfl

omit [PyNumber K] [PyDocument K] in
/-- The children of a payload are the ones it was built from. -/
theorem childPayloads_payload (n : Nat) (children : List (PyVal K)) :
    childPayloads (payload ids metadata includeMetadata a n children) = .ok children := rfl

/-- A serialized subtree describes the subtree. -/
theorem describes_subtreePayload {n : Nat} (hn : n < a.size) :
    Describes (subtreePayload ids metadata includeMetadata a n)
      ((a.subtree n).map (restored ids metadata includeMetadata a)) := by
  refine a.leaf_induction (motive := fun n =>
    Describes (subtreePayload ids metadata includeMetadata a n)
      ((a.subtree n).map (restored ids metadata includeMetadata a))) ?_ n hn
  intro n hn ih
  rw [subtreePayload_eq hn, Arena.subtree_eq a hn, Rose.map_node]
  refine ⟨bareFromPayload_payload .., _, childPayloads_payload .., describesAll_iff.mpr ?_⟩
  rw [List.map_map, List.forall₂_map_left_iff, List.forall₂_map_right_iff, List.forall₂_same]
  exact ih

/-- The loops over explicit stacks do what the recursion over the tree does. -/
structure FollowsRecursion [PyFixed K] : Prop where
  /-- The tree below a node: its children's trees, in the order of its child list. -/
  subtree : ∀ n : Fin a.size, a.subtree n = .node n ((a.node n).children.map a.subtree)
  /-- `walk` yields the preorder. -/
  walk : ∀ n : Fin a.size, a.walk n = (a.subtree n).preorder
  /-- `to_dict` returns the payload computed from the leaves up. -/
  toDict : ∀ n : Fin a.size, toDict ids metadata includeMetadata a n =
    .ok ((a.subtree n).fold (payload ids metadata includeMetadata a))
  /-- `from_dict` rebuilds the tree that a document describes, and no other. -/
  fromDict : ∀ (document : PyVal K) (t : Rose (BareNode K)), Describes document t ↔
    ∃ store, fromDict document = .ok store ∧ Holds store none 0 t ∧ store.length = t.size
  /-- Of a serialized subtree it rebuilds the subtree. -/
  restored : ∀ n : Fin a.size, Describes ((a.subtree n).fold (payload ids metadata includeMetadata a))
    ((a.subtree n).map (restored ids metadata includeMetadata a))
  /-- `render` writes the lines of the recursive layout. -/
  render : render a = Str.join [Str.newline] (draw (fun n => formatLabel (a.node n)) (a.subtree 0))

/-- On every tree the iterative traversals are their recursive definitions. -/
theorem traversals_follow_recursion [PyFixed K] :
    FollowsRecursion ids metadata includeMetadata a where
  subtree n := Arena.subtree_eq a n.isLt
  walk n := Arena.walk_eq_preorder_subtree a n.isLt
  toDict n := toDict_eq n.isLt
  fromDict _ _ := describes_iff
  restored n := describes_subtreePayload ids metadata includeMetadata a n.isLt
  render := congrArg (Str.join [Str.newline]) (renderLines_eq _ a)

end RoundTrip

end CognitiveTree.Persistence
