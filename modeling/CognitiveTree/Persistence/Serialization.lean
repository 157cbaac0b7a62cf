import CognitiveTree.Llm.OpenAiCompatible
import CognitiveTree.Observability.Metrics
import CognitiveTree.Search.Rendering

/-!
# Serialized trees

`to_dict` computes the payloads of a subtree over the reversed depth-first order, with a table of
those already built. `from_dict` rebuilds the nodes from a work list that it pops from its end. Both
do what the recursion over the children, in their order, does.
-/

namespace CognitiveTree.Persistence

open Search Observability Feedback

variable {K : Type}

/-- Every node of the list is followed by its children. -/
def Grounded (node : Nat → ThoughtNode K) : List Nat → Prop
  | [] => True
  | r :: rs => (∀ c ∈ (node r).children, c ∈ rs) ∧ Grounded node rs

theorem Grounded.append {node : Nat → ThoughtNode K} {rs ss : List Nat} (h : Grounded node rs)
    (h' : Grounded node ss) : Grounded node (rs ++ ss) := by
  induction rs with
  | nil => exact h'
  | cons r rs ih => exact ⟨fun c hc => List.mem_append_left _ (h.1 c hc), ih h.2⟩

theorem Grounded.flatMap {node : Nat → ThoughtNode K} {f : Nat → List Nat} {rs : List Nat}
    (h : ∀ r ∈ rs, Grounded node (f r)) : Grounded node (rs.flatMap f) := by
  induction rs with
  | nil => trivial
  | cons r rs ih =>
    rw [List.flatMap_cons]
    exact (h r (List.mem_cons_self ..)).append (ih fun s hs => h s (List.mem_cons_of_mem _ hs))

/-- In depth-first order a node comes before its children. -/
theorem grounded_walk (a : Arena K) {r : Nat} (hr : r < a.size) : Grounded a.node (a.walk r) := by
  rw [Arena.walk_eq_preorder a hr]
  refine a.leaf_induction (motive := fun r => Grounded a.node (a.preorder r)) ?_ r hr
  intro r hr ih
  rw [Arena.preorder_eq a hr]
  refine ⟨fun c hc => List.mem_flatMap.mpr ⟨c, hc, ?_⟩, Grounded.flatMap ih⟩
  rw [Arena.preorder_eq a (Arena.mem_children.mp hc).1]
  exact List.mem_cons_self ..


/-- `table[id(node)]`. -/
def payloadOf (table : Dict Nat (PyVal K)) (n : Nat) : Except Exc (PyVal K) :=
  match table.get? n with
  | some payload => .ok payload
  | none => .error ⟨lit "KeyError", Str.ofNat n⟩

/-- `[payloads[id(child)] for child in node.children]`. -/
def payloadsOf (table : Dict Nat (PyVal K)) : List Nat → Except Exc (List (PyVal K))
  | [] => .ok []
  | c :: cs => do
    let payload ← payloadOf table c
    let payloads ← payloadsOf table cs
    pure (payload :: payloads)

theorem payloadsOf_eq {table : Dict Nat (PyVal K)} {value : Nat → PyVal K} {cs : List Nat}
    (h : ∀ c ∈ cs, table.get? c = some (value c)) : payloadsOf table cs = .ok (cs.map value) := by
  induction cs with
  | nil => rfl
  | cons c cs ih =>
    rw [payloadsOf, payloadOf, h c (List.mem_cons_self ..),
      ih fun d hd => h d (List.mem_cons_of_mem _ hd)]
    rfl

section ToDict

variable [PyFloat K] (ids : Nat → Str) (metadata : Nat → Metadata K) (includeMetadata : Bool)
  (a : Arena K)

/-- The payload of one node, with those of its children. -/
def payload (n : Nat) (children : List (PyVal K)) : PyVal K :=
  let node := a.node n
  .dict ([(lit "id", .str (ids n)), (lit "content", .str node.content),
    (lit "status", .str (statusValue node.status)), (lit "depth", .int node.depth),
    (lit "visits", .int node.visits), (lit "value_sum", .float (PyFloat.round node.valueSum 6)),
    (lit "score", .float (PyFloat.round node.score 6)), (lit "rationale", .str node.rationale),
    (lit "children", .list children)] ++
    if includeMetadata then [(lit "metadata", .dict (metadata n))] else [])

/-- The loop of `to_dict` over the nodes that are left. -/
def payloadsFrom : List Nat → Dict Nat (PyVal K) → Except Exc (Dict Nat (PyVal K))
  | [], table => .ok table
  | n :: rest, table => do
    let children ← payloadsOf table (a.node n).children
    payloadsFrom rest (table.set n (payload ids metadata includeMetadata a n children))

/-- `node.to_dict(include_metadata)`. -/
def toDict (n : Nat) : Except Exc (PyVal K) := do
  let payloads ← payloadsFrom ids metadata includeMetadata a (a.walk n).reverse []
  payloadOf payloads n

/-- `tree.to_dict(include_metadata)` of a tree whose index lists every node. -/
def treeToDict : Except Exc (PyVal K) := do
  let root ← toDict ids metadata includeMetadata a 0
  pure (.dict [(lit "size", .int a.size), (lit "root", root)])

/-- The payload of a subtree by recursion over its children. -/
def subtreePayload (n : Nat) : PyVal K :=
  (a.subtree n).fold (payload ids metadata includeMetadata a)

variable {ids metadata includeMetadata a}

theorem subtreePayload_eq {n : Nat} (hn : n < a.size) :
    subtreePayload ids metadata includeMetadata a n = payload ids metadata includeMetadata a n
      ((a.node n).children.map (subtreePayload ids metadata includeMetadata a)) := by
  rw [subtreePayload, Arena.subtree_eq a hn, Rose.fold_node, List.map_map]
  rfl

theorem payloadsFrom_append {rs ss : List Nat} {table table' : Dict Nat (PyVal K)}
    (h : payloadsFrom ids metadata includeMetadata a rs table = .ok table') :
    payloadsFrom ids metadata includeMetadata a (rs ++ ss) table =
      payloadsFrom ids metadata includeMetadata a ss table' := by
  induction rs generalizing table with
  | nil =>
    cases h
    rfl
  | cons r rs ih =>
    obtain ⟨children, hchildren, h⟩ := exists_of_bind_eq_ok h
    rw [List.cons_append, payloadsFrom, hchildren]
    exact ih h

/-- Read backwards, a list that grounds its nodes leaves a table with all their payloads. -/
theorem payloadsFrom_reverse {rs : List Nat} (hrs : ∀ r ∈ rs, r < a.size)
    (h : Grounded a.node rs) : ∃ table,
      payloadsFrom ids metadata includeMetadata a rs.reverse [] = .ok table ∧
        ∀ r ∈ rs, table.get? r = some (subtreePayload ids metadata includeMetadata a r) := by
  induction rs with
  | nil => exact ⟨[], rfl, fun r hr => absurd hr List.not_mem_nil⟩
  | cons r rs ih =>
    obtain ⟨table, htable, hentries⟩ := ih (fun x hx => hrs x (List.mem_cons_of_mem _ hx)) h.2
    have hchildren := payloadsOf_eq fun c hc => hentries c (h.1 c hc)
    rw [List.reverse_cons, payloadsFrom_append htable, payloadsFrom, hchildren]
    refine ⟨_, rfl, fun x hx => ?_⟩
    rw [Dict.get?_set, subtreePayload_eq (hrs x hx)]
    by_cases hxr : x = r
    · rw [if_pos hxr, hxr]
    · rw [if_neg hxr, ← subtreePayload_eq (hrs x hx)]
      exact hentries x ((List.mem_cons.mp hx).resolve_left hxr)

/-- The loop computes the structural recursion. -/
theorem toDict_eq {n : Nat} (hn : n < a.size) : toDict ids metadata includeMetadata a n =
    .ok (subtreePayload ids metadata includeMetadata a n) := by
  obtain ⟨table, htable, hentries⟩ := @payloadsFrom_reverse K _ ids metadata includeMetadata a _
    (fun r hr => ((Arena.mem_walk hn).mp hr).1) (grounded_walk a hn)
  have hself : n ∈ a.walk n := (Arena.mem_walk hn).mpr ⟨hn, Arena.mem_lineage_self a n⟩
  rw [toDict, htable]
  change payloadOf table n = _
  rw [payloadOf, hentries n hself]

end ToDict

end CognitiveTree.Persistence
