import CognitiveTree.Core.Float
import Mathlib.Data.List.Range
import Mathlib.Logic.Function.Basic

/-!
# Thought nodes and the arena that owns them

Object identity is the creation order: a node is named by the number of nodes
created before it, so the root is `0`. The arena of one run maps these references
to node records; its `Linked` field states the parent/child consistency that every
operation keeps, so a dangling or doubly owned child cannot be built. The identifier and the metadata dictionary of
a node live beside its record: the controller never branches on either.
-/

namespace CognitiveTree.Search

/-- Lifecycle states of a node. -/
inductive NodeStatus where
  | pending
  | evaluated
  | terminal
  | pruned
  | failed
  deriving DecidableEq, Repr

/-- Membership in `LIVE_STATUSES`. -/
def NodeStatus.isLive : NodeStatus → Bool
  | .pending => true
  | .evaluated => true
  | .terminal => false
  | .pruned => false
  | .failed => false

/-- One reasoning step with its accumulated search statistics. -/
structure ThoughtNode (K : Type) where
  content : Str
  parent : Option Nat
  depth : Nat
  status : NodeStatus
  children : List Nat
  visits : Nat
  valueSum : K
  score : K
  rationale : Str

variable {K : Type}

namespace ThoughtNode

variable [PyFloat K]

/-- A freshly constructed node with the dataclass defaults. -/
def fresh (content : Str) (parent : Option Nat) (depth : Nat) : ThoughtNode K where
  content := content
  parent := parent
  depth := depth
  status := .pending
  children := []
  visits := 0
  valueSum := PyFloat.zero
  score := PyFloat.zero
  rationale := []

/-- Whether the node remains eligible for traversal and expansion. -/
def isLive (n : ThoughtNode K) : Bool := n.status.isLive

/-- The average backpropagated value, `0.0` before any visit. -/
def meanValue (n : ThoughtNode K) : K :=
  if n.visits = 0 then PyFloat.zero else PyFloat.div n.valueSum (PyFloat.ofNat n.visits)

/-- The UCT score of a node whose parent has `parentVisits` visits. -/
def uctScore (n : ThoughtNode K) (parentVisits : Nat) (explorationWeight : K) : K :=
  if n.visits = 0 then PyFloat.inf
  else PyFloat.add n.meanValue (PyFloat.mul explorationWeight (PyFloat.sqrt
    (PyFloat.div (PyFloat.log (PyFloat.ofNat (max parentVisits 1))) (PyFloat.ofNat n.visits))))

/-- Fold one backpropagated sample into the statistics. -/
def recordVisit (value : K) (n : ThoughtNode K) : ThoughtNode K :=
  { n with visits := n.visits + 1, valueSum := PyFloat.add n.valueSum value }

omit [PyFloat K] in
/-- Store a verdict and advance the lifecycle status. -/
def applyEvaluation (score : K) (status : NodeStatus) (rationale : Str) (n : ThoughtNode K) :
    ThoughtNode K :=
  { n with score := score, status := status, rationale := rationale }

end ThoughtNode

/-- Parent links, child lists and depths of the first `size` references agree. -/
structure Linked (size : Nat) (node : Nat → ThoughtNode K) : Prop where
  /-- There is a root, and it has no parent. -/
  nonempty : 0 < size
  root_parent : (node 0).parent = none
  root_depth : (node 0).depth = 0
  /-- Every other node was created after its parent. -/
  parent_lt : ∀ r, 0 < r → r < size → ∃ p, (node r).parent = some p ∧ p < r
  /-- A child list holds exactly the nodes naming this parent, in creation order. -/
  children_eq : ∀ p, (node p).children = (List.range size).filter
    fun r => (node r).parent = some p
  depth_eq : ∀ r p, r < size → (node r).parent = some p → (node r).depth = (node p).depth + 1

namespace Linked

variable {size : Nat} {node : Nat → ThoughtNode K}

/-- A parent was created before its child. -/
theorem parent_lt_self (h : Linked size node) {r p : Nat} (hr : r < size)
    (hp : (node r).parent = some p) : p < r := by
  rcases Nat.eq_zero_or_pos r with h0 | h0
  · subst h0
    rw [h.root_parent] at hp
    cases hp
  · obtain ⟨q, hq, hlt⟩ := h.parent_lt r h0 hr
    rw [hp] at hq
    cases hq
    exact hlt

/-- A reference not yet handed out has no children. -/
theorem children_size (h : Linked size node) : (node size).children = [] := by
  rw [h.children_eq, List.filter_eq_nil_iff]
  intro r hr hp
  have hlt := h.parent_lt_self (List.mem_range.mp hr) (by simpa using hp)
  have hr := List.mem_range.mp hr
  omega

/-- Links survive any update that leaves parents, child lists and depths alone. -/
theorem congr {node' : Nat → ThoughtNode K} (h : Linked size node)
    (hp : ∀ x, (node' x).parent = (node x).parent)
    (hc : ∀ x, (node' x).children = (node x).children)
    (hd : ∀ x, (node' x).depth = (node x).depth) : Linked size node' := by
  constructor
  · exact h.nonempty
  · simpa only [hp] using h.root_parent
  · simpa only [hd] using h.root_depth
  · simpa only [hp] using h.parent_lt
  · simpa only [hp, hc] using h.children_eq
  · simpa only [hp, hd] using h.depth_eq

end Linked

/-- The records after `parent.attach_child(content)` at the next free reference. -/
def attachAt [PyFloat K] (size : Nat) (node : Nat → ThoughtNode K) (p : Nat) (content : Str) :
    Nat → ThoughtNode K := fun x =>
  if x = size then .fresh content (some p) ((node p).depth + 1)
  else if x = p then { node p with children := (node p).children ++ [size] }
  else node x

section Attach

variable [PyFloat K] {size : Nat} {node : Nat → ThoughtNode K} {p : Nat} (content : Str)

/-- An existing node keeps every field but the child list. -/
theorem attachAt_old {x : Nat} (hx : x ≠ size) :
    attachAt size node p content x = { node x with
      children := (node x).children ++ if x = p then [size] else [] } := by
  unfold attachAt
  rw [if_neg hx]
  by_cases h : x = p
  · subst h
    simp
  · simp [h]

/-- The new node is a fresh one below its parent. -/
theorem attachAt_new :
    attachAt size node p content size = .fresh content (some p) ((node p).depth + 1) := by
  simp [attachAt]

/-- Attaching below an allocated node keeps all links consistent. -/
theorem Linked.attach (h : Linked size node) (hp : p < size) :
    Linked (size + 1) (attachAt size node p content) := by
  have hold : ∀ x, x < size → attachAt size node p content x = { node x with
      children := (node x).children ++ if x = p then [size] else [] } :=
    fun x hx => attachAt_old content (by omega)
  constructor
  case nonempty => omega
  case root_parent => rw [hold 0 h.nonempty]; exact h.root_parent
  case root_depth => rw [hold 0 h.nonempty]; exact h.root_depth
  case parent_lt =>
    intro r h0 hr
    by_cases hs : r = size
    · subst hs
      exact ⟨p, by rw [attachAt_new]; rfl, hp⟩
    · rw [hold r (by omega)]
      exact h.parent_lt r h0 (by omega)
  case children_eq =>
    intro q
    have hfilter : (List.range size).filter (fun r =>
        (attachAt size node p content r).parent = some q) = (node q).children := by
      rw [h.children_eq q]
      apply List.filter_congr
      intro r hr
      rw [hold r (List.mem_range.mp hr)]
    have hlast : (attachAt size node p content size).parent = some p := by
      rw [attachAt_new]
      rfl
    rw [List.range_succ, List.filter_append, hfilter]
    by_cases hq : q = size
    · subst hq
      have hne : p ≠ q := by omega
      simp [attachAt_new, ThoughtNode.fresh, h.children_size, hne]
    · rw [attachAt_old content hq]
      by_cases hqp : q = p
      · subst hqp
        simp [hlast]
      · simp [hlast, hqp, Ne.symm hqp]
  case depth_eq =>
    intro r q hr hpar
    by_cases hs : r = size
    · subst hs
      rw [attachAt_new] at hpar ⊢
      cases hpar
      rw [hold p hp]
      rfl
    · have hr' : r < size := by omega
      rw [hold r hr'] at hpar ⊢
      have hlt := h.parent_lt_self hr' hpar
      rw [hold q (by omega)]
      exact h.depth_eq r q hr' hpar

end Attach

/-- The nodes allocated by one run. -/
@[ext]
structure Arena (K : Type) where
  size : Nat
  node : Nat → ThoughtNode K
  linked : Linked size node

namespace Arena

/-- The arena holding only a root with the given content. -/
def single [PyFloat K] (content : Str) : Arena K where
  size := 1
  node := fun _ => .fresh content none 0
  linked := by
    constructor
    case parent_lt => intro r h0 hr; omega
    all_goals simp [ThoughtNode.fresh]

/-- The fields an in-place update may not touch. -/
def KeepsLinks (f : ThoughtNode K → ThoughtNode K) : Prop :=
  ∀ n, (f n).content = n.content ∧ (f n).parent = n.parent ∧ (f n).children = n.children ∧
    (f n).depth = n.depth

/-- Update the record of one node in place. -/
def amend (a : Arena K) (r : Nat) (f : ThoughtNode K → ThoughtNode K) (hf : KeepsLinks f) :
    Arena K where
  size := a.size
  node := fun x => if x = r then f (a.node x) else a.node x
  linked := by
    refine a.linked.congr ?_ ?_ ?_ <;> intro x <;> by_cases hx : x = r
    · simpa only [hx, if_true] using (hf (a.node r)).2.1
    · simp only [hx, if_false]
    · simpa only [hx, if_true] using (hf (a.node r)).2.2.1
    · simp only [hx, if_false]
    · simpa only [hx, if_true] using (hf (a.node r)).2.2.2
    · simp only [hx, if_false]

/-- `node.status = status`. -/
def setStatus (a : Arena K) (r : Nat) (status : NodeStatus) : Arena K :=
  a.amend r (fun n => { n with status := status }) fun _ => ⟨rfl, rfl, rfl, rfl⟩

/-- `node.apply_evaluation(score, status, rationale)`. -/
def applyEvaluation (a : Arena K) (r : Nat) (score : K) (status : NodeStatus)
    (rationale : Str) : Arena K :=
  a.amend r (.applyEvaluation score status rationale) fun _ => ⟨rfl, rfl, rfl, rfl⟩

/-- `node.record_visit(value)`. -/
def recordVisit [PyFloat K] (a : Arena K) (r : Nat) (value : K) : Arena K :=
  a.amend r (.recordVisit value) fun _ => ⟨rfl, rfl, rfl, rfl⟩

/-- `parent.attach_child(content)`: the new node takes the next reference. A
reference always names an allocated node, so the other branch has no caller. -/
def attachChild [PyFloat K] (a : Arena K) (p : Nat) (content : Str) : Arena K :=
  if hp : p < a.size then
    { size := a.size + 1
      node := attachAt a.size a.node p content
      linked := a.linked.attach content hp }
  else a

/-- Two arenas hold the same tree of contents; records may differ elsewhere. -/
structure SameLinks (a b : Arena K) : Prop where
  size_eq : b.size = a.size
  content_eq : ∀ x, (b.node x).content = (a.node x).content
  parent_eq : ∀ x, (b.node x).parent = (a.node x).parent
  children_eq : ∀ x, (b.node x).children = (a.node x).children
  depth_eq : ∀ x, (b.node x).depth = (a.node x).depth

namespace SameLinks

/-- The same tree has the same links. -/
theorem refl (a : Arena K) : SameLinks a a :=
  ⟨rfl, fun _ => rfl, fun _ => rfl, fun _ => rfl, fun _ => rfl⟩

/-- Links that are kept twice are kept. -/
theorem trans {a b c : Arena K} (h : SameLinks a b) (h' : SameLinks b c) : SameLinks a c where
  size_eq := h'.size_eq.trans h.size_eq
  content_eq x := (h'.content_eq x).trans (h.content_eq x)
  parent_eq x := (h'.parent_eq x).trans (h.parent_eq x)
  children_eq x := (h'.children_eq x).trans (h.children_eq x)
  depth_eq x := (h'.depth_eq x).trans (h.depth_eq x)

end SameLinks

section Amend

variable (a : Arena K) (r x : Nat) {f : ThoughtNode K → ThoughtNode K} (hf : KeepsLinks f)

/-- Only the amended node changes. -/
theorem amend_node : (a.amend r f hf).node x = if x = r then f (a.node x) else a.node x := rfl

/-- No in-place update moves a node. -/
theorem sameLinks_amend : SameLinks a (a.amend r f hf) := by
  refine ⟨rfl, ?_, ?_, ?_, ?_⟩ <;> intro x <;> rw [amend_node] <;> split
  · exact (hf _).1
  · rfl
  · exact (hf _).2.1
  · rfl
  · exact (hf _).2.2.1
  · rfl
  · exact (hf _).2.2.2
  · rfl

end Amend

/-- Only the node's status changes. -/
theorem setStatus_node (a : Arena K) (r x : Nat) (status : NodeStatus) :
    (a.setStatus r status).node x =
      if x = r then { a.node x with status := status } else a.node x := rfl

/-- Only the evaluated node changes. -/
theorem applyEvaluation_node (a : Arena K) (r x : Nat) (score : K) (status : NodeStatus)
    (rationale : Str) : (a.applyEvaluation r score status rationale).node x =
      if x = r then (a.node x).applyEvaluation score status rationale else a.node x := rfl

/-- Only the visited node changes. -/
theorem recordVisit_node [PyFloat K] (a : Arena K) (r x : Nat) (value : K) :
    (a.recordVisit r value).node x =
      if x = r then (a.node x).recordVisit value else a.node x := rfl

/-- A status changes no link. -/
theorem sameLinks_setStatus (a : Arena K) (r : Nat) (status : NodeStatus) :
    SameLinks a (a.setStatus r status) :=
  sameLinks_amend a r _

/-- An evaluation changes no link. -/
theorem sameLinks_applyEvaluation (a : Arena K) (r : Nat) (score : K) (status : NodeStatus)
    (rationale : Str) : SameLinks a (a.applyEvaluation r score status rationale) :=
  sameLinks_amend a r _

/-- A visit changes no link. -/
theorem sameLinks_recordVisit [PyFloat K] (a : Arena K) (r : Nat) (value : K) :
    SameLinks a (a.recordVisit r value) :=
  sameLinks_amend a r _

section Attach

variable [PyFloat K] {a : Arena K} {p : Nat} (content : Str)

/-- One node is added. -/
theorem attachChild_size (hp : p < a.size) : (a.attachChild p content).size = a.size + 1 := by
  simp [attachChild, hp]

/-- An existing node keeps every field but the child list. -/
theorem attachChild_old (hp : p < a.size) {x : Nat} (hx : x ≠ a.size) :
    (a.attachChild p content).node x = { a.node x with
      children := (a.node x).children ++ if x = p then [a.size] else [] } := by
  simp only [attachChild, hp, dif_pos]
  exact attachAt_old content hx

/-- The node added is a fresh one below its parent. -/
theorem attachChild_new (hp : p < a.size) :
    (a.attachChild p content).node a.size = .fresh content (some p) ((a.node p).depth + 1) := by
  simp only [attachChild, hp, dif_pos]
  exact attachAt_new content

end Attach

/-- A child list holds exactly the allocated nodes naming this parent. -/
theorem mem_children {a : Arena K} {p c : Nat} :
    c ∈ (a.node p).children ↔ c < a.size ∧ (a.node c).parent = some p := by
  rw [a.linked.children_eq, List.mem_filter, List.mem_range, decide_eq_true_eq]

/-- No child is listed twice. -/
theorem children_nodup (a : Arena K) (p : Nat) : (a.node p).children.Nodup := by
  rw [a.linked.children_eq]
  exact List.nodup_range.filter _

/-- A child is younger than its parent. -/
theorem lt_of_mem_children {a : Arena K} {p c : Nat} (h : c ∈ (a.node p).children) : p < c :=
  a.linked.parent_lt_self (mem_children.mp h).1 (mem_children.mp h).2

/-- Only the root has no parent. -/
theorem exists_parent {a : Arena K} {r : Nat} (h0 : r ≠ 0) (hr : r < a.size) :
    ∃ p, (a.node r).parent = some p ∧ p < r ∧ p < a.size := by
  obtain ⟨p, hp, hlt⟩ := a.linked.parent_lt r (by omega) hr
  exact ⟨p, hp, hlt, by omega⟩

/-- Induction along parent links: from the root to a child of a settled node. -/
theorem root_induction (a : Arena K) {motive : Nat → Prop} (root : motive 0)
    (child : ∀ r p, r < a.size → (a.node r).parent = some p → motive p → motive r)
    (r : Nat) (hr : r < a.size) : motive r := by
  induction r using Nat.strongRecOn with
  | ind r ih =>
    by_cases h0 : r = 0
    · exact h0 ▸ root
    · obtain ⟨p, hp, hlt, hps⟩ := exists_parent h0 hr
      exact child r p hr hp (ih p hlt hps)

end Arena

end CognitiveTree.Search
