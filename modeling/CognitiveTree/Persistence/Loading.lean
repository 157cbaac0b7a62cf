import CognitiveTree.Persistence.Archive
import CognitiveTree.Persistence.Restoration

/-!
# Archives that are read back

A document is checked for its format and version, then its tree, outcome, history, path and
counters are read in this order. Whatever raises a `KeyError`, a `TypeError` or a `ValueError` on
the way makes it an `ArchiveFormatError`.
-/

namespace CognitiveTree.Persistence

open Search Observability Feedback Llm

/-- Which floats are the same key of a dictionary. -/
class PyKeys (K : Type) where
  /-- `x is y or x == y` -/
  sameFloat : K → K → Bool
  /-- `x == i` of a float and an integer -/
  equalsInt : K → Int → Bool

variable {K : Type}

section Keys

variable [PyKeys K]

/-- `v == i`. -/
def isInt (v : PyVal K) (i : Int) : Bool :=
  match v with
  | .int j => j == i
  | .bool b => (if b then 1 else 0) == i
  | .float x => PyKeys.equalsInt x i
  | _ => false

/-- Whether two values that have a hash are the same key. -/
def sameKey : PyVal K → PyVal K → Bool
  | .none, .none => true
  | .str s, .str t => s == t
  | .object m, .object n => m == n
  | .int i, w => isInt w i
  | .bool b, w => isInt w (if b then 1 else 0)
  | .float x, .float y => PyKeys.sameFloat x y
  | .float x, .int i => PyKeys.equalsInt x i
  | .float x, .bool b => PyKeys.equalsInt x (if b then 1 else 0)
  | _, _ => false

/-- Floats that are the same key are equal to the same integer, and a float to one only. -/
class LawfulKeys (K : Type) [PyKeys K] : Prop where
  symm : ∀ x y : K, PyKeys.sameFloat x y = true → PyKeys.sameFloat y x = true
  trans : ∀ x y z : K, PyKeys.sameFloat x y = true → PyKeys.sameFloat y z = true →
    PyKeys.sameFloat x z = true
  same_of_int : ∀ (x y : K) (i : Int), PyKeys.equalsInt x i = true → PyKeys.equalsInt y i = true →
    PyKeys.sameFloat x y = true
  int_of_same : ∀ (x y : K) (i : Int), PyKeys.sameFloat x y = true →
    PyKeys.equalsInt x i = true → PyKeys.equalsInt y i = true
  int_unique : ∀ (x : K) (i j : Int), PyKeys.equalsInt x i = true → PyKeys.equalsInt x j = true → i = j

section Lawful

variable [LawfulKeys K]

/-- A value that is the same key as an integer equals it. -/
theorem sameKey_of_isInt {v w : PyVal K} {i : Int} (h : isInt v i = true) :
    sameKey v w = true ↔ isInt w i = true := by
  cases v with
  | int j => rw [sameKey, beq_iff_eq.mp h]
  | bool b => rw [sameKey, beq_iff_eq.mp h]
  | float x =>
    cases w with
    | float y =>
      exact ⟨fun hxy => LawfulKeys.int_of_same x y i hxy h,
        fun hy => LawfulKeys.same_of_int x y i h hy⟩
    | int j =>
      refine ⟨fun hj => beq_iff_eq.mpr (LawfulKeys.int_unique x j i hj h), fun hj => ?_⟩
      rw [sameKey, beq_iff_eq.mp hj]
      exact h
    | bool b =>
      refine ⟨fun hj => beq_iff_eq.mpr (LawfulKeys.int_unique x _ i hj h), fun hj => ?_⟩
      rw [sameKey, beq_iff_eq.mp hj]
      exact h
    | _ => exact Iff.rfl
  | _ => cases h

theorem sameKey_symm {v w : PyVal K} (h : sameKey v w = true) : sameKey w v = true := by
  have hint : ∀ i, isInt v i = true → sameKey w v = true := fun i hi =>
    (sameKey_of_isInt ((sameKey_of_isInt hi).mp h)).mpr hi
  cases v with
  | int i => exact hint i (beq_self_eq_true i)
  | bool b => exact hint _ (beq_self_eq_true _)
  | float x =>
    cases w with
    | float y => exact LawfulKeys.symm x y h
    | int i => exact h
    | bool b => exact h
    | _ => cases h
  | _ => cases w <;> simp_all [sameKey]

theorem sameKey_trans {u v w : PyVal K} (h : sameKey u v = true) (h' : sameKey v w = true) :
    sameKey u w = true := by
  have hint : ∀ i, isInt v i = true → sameKey u w = true := fun i hi =>
    (sameKey_of_isInt ((sameKey_of_isInt hi).mp (sameKey_symm h))).mpr ((sameKey_of_isInt hi).mp h')
  cases v with
  | int i => exact hint i (beq_self_eq_true i)
  | bool b => exact hint _ (beq_self_eq_true _)
  | float x =>
    cases u with
    | float y =>
      cases w with
      | float z => exact LawfulKeys.trans y x z h h'
      | int i => exact LawfulKeys.int_of_same x y i (LawfulKeys.symm y x h) h'
      | bool b => exact LawfulKeys.int_of_same x y _ (LawfulKeys.symm y x h) h'
      | _ => cases h'
    | int i => exact hint i h
    | bool b => exact hint _ h
    | _ => cases h
  | _ => cases u <;> cases w <;> simp_all [sameKey]

end Lawful

omit [PyKeys K] in
/-- Whether a value has a hash. -/
def Hashable : PyVal K → Prop
  | .list _ | .dict _ => False
  | _ => True

omit [PyKeys K] in
/-- `hash(v)`. -/
def hashed : PyVal K → Except Exc Unit
  | .list _ => .error (typeError (lit "unhashable type: 'list'"))
  | .dict _ => .error (typeError (lit "unhashable type: 'dict'"))
  | _ => .ok ()

/-- `index[key] = n`: the key that came first stays. -/
def setKey (index : List (PyVal K × Nat)) (key : PyVal K) (n : Nat) : List (PyVal K × Nat) :=
  match index with
  | [] => [(key, n)]
  | entry :: rest =>
    if sameKey entry.1 key then (entry.1, n) :: rest else entry :: setKey rest key n

/-- `{node.id: node for node in nodes}`, with the entries made so far. -/
def indexFrom : List (PyVal K × Nat) → List (PyVal K × Nat) → Except Exc (List (PyVal K × Nat))
  | [], index => .ok index
  | (key, n) :: rest, index => do
    hashed key
    indexFrom rest (setKey index key n)

end Keys

section Exact

instance : PyKeys ℚ where
  sameFloat x y := decide (x = y)
  equalsInt x i := decide (x = i)

instance : LawfulKeys ℚ where
  symm x y h := decide_eq_true (of_decide_eq_true h).symm
  trans x y z h h' := decide_eq_true ((of_decide_eq_true h).trans (of_decide_eq_true h'))
  same_of_int x y i h h' := decide_eq_true ((of_decide_eq_true h).trans (of_decide_eq_true h').symm)
  int_of_same x y i h h' := decide_eq_true ((of_decide_eq_true h).symm.trans (of_decide_eq_true h'))
  int_unique x i j h h' := by
    have heq := (of_decide_eq_true h).symm.trans (of_decide_eq_true h')
    exact_mod_cast heq

end Exact

/-- A restored tree: its nodes in the order of their creation, and the index by identifiers. -/
structure LoadedTree (K : Type) where
  nodes : List (Rebuilt K)
  index : List (PyVal K × Nat)

/-- The child list of a restored node. -/
def childrenOf (nodes : List (Rebuilt K)) (n : Nat) : List Nat :=
  match nodes[n]? with
  | some node => node.children
  | none => []

/-- The stack loop of `walk` over restored nodes, popping at most `fuel` of them. -/
def walkLoaded (nodes : List (Rebuilt K)) : Nat → List Nat → List Nat
  | 0, _ => []
  | _ + 1, [] => []
  | fuel + 1, n :: stack => n :: walkLoaded nodes fuel (childrenOf nodes n ++ stack)

/-- `root.walk()`. -/
def walked (nodes : List (Rebuilt K)) : List Nat := walkLoaded nodes nodes.length [0]

/-- The identifier of every node, in depth-first order. -/
def identified (nodes : List (Rebuilt K)) : List (PyVal K × Nat) :=
  (walked nodes).filterMap fun n => nodes[n]?.map fun node => (node.bare.id, n)

/-- `tree.get(node_id)`. -/
def LoadedTree.get [PyNumber K] [PyDocument K] [PyKeys K] (tree : LoadedTree K) (id : PyVal K) :
    Except Exc Nat := do
  hashed id
  match tree.index.find? fun entry => sameKey entry.1 id with
  | some entry => pure entry.2
  | none => .error ⟨lit "KeyError",
      PyNumber.quote K (lit "unknown node id " ++ PyDocument.repr id)⟩

/-- A transition of a restored history. -/
structure LoadedTransition (K : Type) where
  source : SearchPhase
  target : SearchPhase
  note : PyVal K
  timestamp : K

/-- The restored `SearchResult`. -/
structure LoadedResult (K : Type) where
  outcome : SearchOutcome
  bestPath : List Nat
  iterations : Int
  nodeCount : Int
  phaseHistory : List (LoadedTransition K)
  tree : LoadedTree K
  error : PyVal K

/-- `RunArchive`. -/
structure RunArchive (K : Type) where
  result : LoadedResult K
  metrics : PyVal K
  savedAt : PyVal K
  version : PyVal K

/-- `Enum(value)` of an enumeration of texts. -/
def enumOf [PyDocument K] {α : Type} (name : Str) (members : List α) (value : α → Str)
    (v : PyVal K) : Except Exc α :=
  let found := match v with
    | .str s => memberOf members value s
    | _ => none
  match found with
  | some member => .ok member
  | none => .error (valueError (PyDocument.repr v ++ lit " is not a valid " ++ name))

/-- `SearchOutcome`, in the order of its definition. -/
def outcomes : List SearchOutcome :=
  [.succeeded, .exhausted, .failed, .timedOut, .budgetExhausted, .cancelled]

/-- `SearchOutcome(value)`. -/
def outcomeOf [PyDocument K] (v : PyVal K) : Except Exc SearchOutcome :=
  enumOf (lit "SearchOutcome") outcomes SearchOutcome.value v

/-- `SearchPhase(value)`. -/
def phaseOf [PyDocument K] (v : PyVal K) : Except Exc SearchPhase :=
  enumOf (lit "SearchPhase") SearchPhase.members SearchPhase.value v

section Walk

/-- The data of a restored node. -/
def bareAt (nodes : List (Rebuilt K)) (n : Nat) : Option (BareNode K) := nodes[n]?.map Rebuilt.bare

/-- The parent of a restored node. -/
def parentAt (nodes : List (Rebuilt K)) (n : Nat) : Option Nat := nodes[n]?.bind Rebuilt.parent

/-- A tree of nodes: the child list of each has the roots of its subtrees, and these name it as
their parent. -/
inductive NodeTree (nodes : List (Rebuilt K)) : Rose Nat → Prop
  | node {n : Nat} {us : List (Rose Nat)} : childrenOf nodes n = us.map Rose.label →
      (us.map Rose.label).Nodup → (∀ u ∈ us, parentAt nodes u.label = some n) → (∀ u ∈ us, NodeTree nodes u) →
      NodeTree nodes (.node n us)

variable {nodes : List (Rebuilt K)}

/-- Where the nodes hold a tree, there is a tree of nodes with its data. -/
theorem Holds.exists_nodeTree {parent : Option Nat} {n : Nat} {t : Rose (BareNode K)}
    (h : Holds nodes parent n t) :
    ∃ u, NodeTree nodes u ∧ u.label = n ∧ u.map (bareAt nodes) = t.map some := by
  induction t using Rose.induct generalizing parent n with
  | node bare ts ih =>
    obtain ⟨cs, hnode, hnodup, hts⟩ := h
    rw [holdsAll_iff] at hts
    have hbelow : ∃ us : List (Rose Nat), us.map Rose.label = cs ∧ (∀ u ∈ us, parentAt nodes u.label = some n) ∧
        (∀ u ∈ us, NodeTree nodes u) ∧ us.map (Rose.map (bareAt nodes)) = ts.map (Rose.map some) := by
      clear hnode hnodup
      induction hts with
      | nil => exact ⟨[], rfl, by simp, by simp, rfl⟩
      | @cons c t cs ts hc _ ihts =>
        obtain ⟨u, hu, rfl, hmap⟩ := ih t (List.mem_cons_self ..) hc
        obtain ⟨us, rfl, hparents, hus, hmaps⟩ := ihts fun v hv => ih v (List.mem_cons_of_mem _ hv)
        have hparent : parentAt nodes u.label = some n := by
          cases t
          obtain ⟨_, hself, -⟩ := hc
          rw [parentAt, hself]
          rfl
        refine ⟨u :: us, rfl, ?_, ?_, ?_⟩
        · exact List.forall_mem_cons.mpr ⟨hparent, hparents⟩
        · exact List.forall_mem_cons.mpr ⟨hu, hus⟩
        · rw [List.map_cons, List.map_cons, hmap, hmaps]
    obtain ⟨us, rfl, hparents, hus, hmaps⟩ := hbelow
    have hchildren : childrenOf nodes n = us.map Rose.label := by rw [childrenOf, hnode]
    refine ⟨.node n us, .node hchildren hnodup hparents hus, rfl, ?_⟩
    have hbare : bareAt nodes n = some bare := by rw [bareAt, hnode]; rfl
    rw [Rose.map_node, Rose.map_node, hmaps, hbare]

/-- The stack loop visits the trees on its stack one after another. -/
theorem walkLoaded_eq {fuel : Nat} {us : List (Rose Nat)} (hus : ∀ u ∈ us, NodeTree nodes u)
    (hfuel : (us.flatMap Rose.preorder).length ≤ fuel) :
    walkLoaded nodes fuel (us.map Rose.label) = us.flatMap Rose.preorder := by
  induction fuel generalizing us with
  | zero =>
    have hnil := List.eq_nil_of_length_eq_zero (Nat.le_zero.mp hfuel)
    rw [hnil, walkLoaded]
  | succ fuel ih =>
    rcases us with _ | ⟨⟨n, ws⟩, us⟩
    · rfl
    · rw [List.forall_mem_cons] at hus
      obtain ⟨⟨hchildren, -, -, hws⟩, hus⟩ := hus
      rw [List.flatMap_cons, Rose.preorder_node, List.cons_append, List.length_cons,
        ← List.flatMap_append] at hfuel
      have hrest : walkLoaded nodes fuel ((ws ++ us).map Rose.label) =
          (ws ++ us).flatMap Rose.preorder :=
        ih (fun u hu => (List.mem_append.mp hu).elim (hws u) (hus u)) (by omega)
      rw [List.map_cons, Rose.label, walkLoaded, hchildren, ← List.map_append, hrest,
        List.flatMap_cons, Rose.preorder_node, List.cons_append, List.flatMap_append]

/-- Walking the nodes that hold a tree visits its nodes in depth-first order. -/
theorem walked_eq {u : Rose Nat} (hu : NodeTree nodes u) (hroot : u.label = 0)
    (hsize : nodes.length = u.size) : walked nodes = u.preorder := by
  have h : walkLoaded nodes nodes.length ([u].map Rose.label) = [u].flatMap Rose.preorder :=
    walkLoaded_eq (by simpa using hu) (by simp [hsize, Rose.size])
  rw [List.map_singleton, hroot] at h
  rw [walked, h, List.flatMap_singleton]

/-- Walking the nodes that hold a tree meets its data in depth-first order. -/
theorem Holds.exists_walked {t : Rose (BareNode K)} (h : Holds nodes none 0 t)
    (hsize : nodes.length = t.size) : ∃ u, NodeTree nodes u ∧ u.label = 0 ∧
      walked nodes = u.preorder ∧ u.map (bareAt nodes) = t.map some := by
  obtain ⟨u, hu, hroot, hmap⟩ := h.exists_nodeTree
  have hlength : u.size = t.size := by
    rw [← Rose.size_map (bareAt nodes) u, hmap, Rose.size_map]
  exact ⟨u, hu, hroot, walked_eq hu hroot (hsize.trans hlength.symm), hmap⟩

/-- The identifiers of the restored nodes are those of the tree they hold. -/
theorem map_fst_identified {t : Rose (BareNode K)} (h : Holds nodes none 0 t)
    (hsize : nodes.length = t.size) :
    (identified nodes).map Prod.fst = t.preorder.map BareNode.id := by
  obtain ⟨u, -, -, hwalked, hmap⟩ := h.exists_walked hsize
  have hpreorder := congrArg Rose.preorder hmap
  rw [Rose.preorder_map, Rose.preorder_map] at hpreorder
  rw [identified, hwalked]
  generalize u.preorder = ns at hpreorder
  generalize t.preorder = bares at hpreorder
  induction ns generalizing bares with
  | nil =>
    have hnil := List.map_eq_nil_iff.mp hpreorder.symm
    rw [hnil]
    rfl
  | cons n ns ih =>
    rcases bares with _ | ⟨bare, bares⟩
    · cases hpreorder
    · rw [List.map_cons, List.map_cons, List.cons.injEq] at hpreorder
      obtain ⟨node, hnode, hbare⟩ := Option.map_eq_some_iff.mp hpreorder.1
      rw [List.filterMap_cons_some (by rw [hnode]; rfl), List.map_cons, ih bares hpreorder.2,
        List.map_cons, ← hbare]

end Walk

section Loading

variable [PyFloat K] [PyNumber K] [PyDocument K] [PyKeys K]

/-- `ThoughtTree.from_dict(payload)`. -/
def treeFromDict (payload : PyVal K) : Except Signal (LoadedTree K) := do
  let root ← raising (subscriptKey payload (lit "root"))
  let nodes ← fromDict root
  let index ← raising (indexFrom (identified nodes) [])
  pure ⟨nodes, index⟩

omit [PyFloat K] [PyKeys K] in
/-- One entry of the history. -/
def transitionOf (entry : PyVal K) : Except Exc (LoadedTransition K) := do
  let source ← phaseOf (← subscriptKey entry (lit "source"))
  let target ← phaseOf (← subscriptKey entry (lit "target"))
  let items ← itemsOf entry
  let timestamp ← (← subscriptKey entry (lit "timestamp")).toFloat
  pure {
    source := source
    target := target
    note := (Dict.get? items (lit "note")).getD (.str [])
    timestamp := timestamp }

omit [PyFloat K] in
/-- The result of a document whose tree is there. -/
def restOf (document : PyVal K) (tree : LoadedTree K) : Except Exc (LoadedResult K) := do
  let outcome ← outcomeOf (← subscriptKey document (lit "outcome"))
  let entries ← iterated (← subscriptKey document (lit "phase_history"))
  let phaseHistory ← entries.mapM transitionOf
  let ids ← iterated (← subscriptKey document (lit "best_path"))
  let bestPath ← ids.mapM tree.get
  let iterations ← (← subscriptKey document (lit "iterations")).toInt
  let nodeCount ← (← subscriptKey document (lit "node_count")).toInt
  let items ← itemsOf document
  pure {
    outcome := outcome
    bestPath := bestPath
    iterations := iterations
    nodeCount := nodeCount
    phaseHistory := phaseHistory
    tree := tree
    error := (Dict.get? items (lit "error")).getD (.str []) }

/-- The body of the `try` of `archive_from_document`. -/
def resultOf (document : PyVal K) : Except Signal (LoadedResult K) := do
  let tree ← treeFromDict (← raising (subscriptKey document (lit "tree")))
  raising (restOf document tree)

omit [PyFloat K] [PyNumber K] [PyDocument K] [PyKeys K] in
/-- `ArchiveFormatError(message)`. -/
def archiveFormatError (message : Str) : Exc := ⟨lit "ArchiveFormatError", message⟩

/-- The `except` clauses of `archive_from_document`. -/
def translated (e : Exc) : Exc :=
  if e.typeName = lit "KeyError" ∨ e.typeName = lit "TypeError" then
    archiveFormatError (lit "archive document is missing or malformed: " ++ e.text)
  else if e.typeName = lit "ValueError" then
    archiveFormatError (lit "archive document holds an invalid value: " ++ e.text)
  else e

/-- `document.get(key)`. -/
def getOrNone (items : Dict Str (PyVal K)) (key : Str) : PyVal K :=
  (Dict.get? items key).getD .none

/-- `archive_from_document(document)`. -/
def archiveFromDocument (document : PyVal K) : Except Signal (RunArchive K) :=
  match document with
  | .dict items =>
    let format := getOrNone items (lit "format")
    let version := getOrNone items (lit "version")
    if ¬ sameKey format (.str archiveFormat) then
      .error (.raised (archiveFormatError (lit "unrecognized archive format " ++
        PyDocument.repr format ++ lit "; expected " ++ PyNumber.quote K archiveFormat)))
    else if ¬ isInt version archiveVersion then
      .error (.raised (archiveFormatError (lit "unsupported archive version " ++
        PyDocument.repr version ++ lit "; this build reads version " ++
        Str.ofInt archiveVersion)))
    else match resultOf document with
      | .ok result => .ok {
          result := result
          metrics := getOrNone items (lit "metrics")
          savedAt := (Dict.get? items (lit "saved_at")).getD (.str [])
          version := version }
      | .error (.raised e) => .error (.raised (translated e))
      | .error .diverged => .error .diverged
  | _ => .error (.raised (archiveFormatError (lit "archive document must be a JSON object")))

end Loading

end CognitiveTree.Persistence
