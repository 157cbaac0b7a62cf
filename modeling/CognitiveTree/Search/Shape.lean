import CognitiveTree.Search.Controller

/-!
# Well-formed search trees

`Sound` is what the tree satisfies at every moment of a run, `Frontier` describes a
node that may be pruned without touching any other, and `Working` the node of the
current iteration together with its batch of children. Each operation of the
controller keeps them; `SameCore` covers the operations that only move statistics.
-/

namespace CognitiveTree.Search

variable {K W : Type}

namespace Arena

/-- Two arenas that differ in visit counts and value sums alone. -/
structure SameCore (a b : Arena K) : Prop extends SameLinks a b where
  status_eq : ∀ x, (b.node x).status = (a.node x).status
  score_eq : ∀ x, (b.node x).score = (a.node x).score
  rationale_eq : ∀ x, (b.node x).rationale = (a.node x).rationale

namespace SameCore

/-- The same tree has the same core. -/
theorem refl (a : Arena K) : SameCore a a :=
  ⟨.refl a, fun _ => rfl, fun _ => rfl, fun _ => rfl⟩

/-- A core that is kept twice is kept. -/
theorem trans {a b c : Arena K} (h : SameCore a b) (h' : SameCore b c) : SameCore a c :=
  ⟨h.toSameLinks.trans h'.toSameLinks, fun x => (h'.status_eq x).trans (h.status_eq x),
    fun x => (h'.score_eq x).trans (h.score_eq x),
    fun x => (h'.rationale_eq x).trans (h.rationale_eq x)⟩

end SameCore

/-- The controller's tree invariant. -/
structure Sound (maxDepth : Nat) (a : Arena K) : Prop where
  depth_le : ∀ r, r < a.size → (a.node r).depth ≤ maxDepth
  content_ne : ∀ r, 0 < r → r < a.size → (a.node r).content ≠ []
  content_strip : ∀ r, 0 < r → r < a.size → Str.strip (a.node r).content = (a.node r).content
  siblings : ∀ p c d, c ∈ (a.node p).children → d ∈ (a.node p).children →
    (a.node c).content = (a.node d).content → c = d
  live_parent : ∀ r p, r < a.size → (a.node r).parent = some p →
    (a.node r).status.isLive = true → (a.node p).status.isLive = true

/-- A live node none of whose children is live. -/
structure Frontier (a : Arena K) (n : Nat) : Prop where
  alloc : n < a.size
  live : (a.node n).status.isLive = true
  children_dead : ∀ c ∈ (a.node n).children, (a.node c).status.isLive = false

/-- The node of the current iteration, its batch of new children, and those of them
that have no verdict yet. -/
structure Working (maxDepth : Nat) (a : Arena K) (n : Nat) (batch unjudged : List Nat) :
    Prop where
  alloc : n < a.size
  live : (a.node n).status.isLive = true
  shallow : (a.node n).depth < maxDepth
  old_dead : ∀ c ∈ (a.node n).children, c ∉ batch → (a.node c).status.isLive = false
  attached : ∀ c ∈ batch, c ∈ (a.node n).children
  sorted : batch.Pairwise (· < ·)
  childless : ∀ c ∈ batch, (a.node c).children = []
  subset : ∀ c ∈ unjudged, c ∈ batch
  unjudged_nodup : unjudged.Nodup
  pending : ∀ c ∈ unjudged, (a.node c).status = .pending

namespace Sound

variable {maxDepth : Nat} {a b : Arena K}

/-- Every ancestor of a live node is live. -/
theorem live_lineage (h : Sound maxDepth a) {r x : Nat} (hr : r < a.size)
    (hlive : (a.node r).status.isLive = true) (hx : x ∈ a.lineage r) :
    (a.node x).status.isLive = true := by
  revert hlive hx
  refine a.root_induction (motive := fun r => (a.node r).status.isLive = true →
    x ∈ a.lineage r → (a.node x).status.isLive = true) ?_ ?_ r hr
  · intro hlive hx
    rw [lineage_root] at hx
    rwa [List.mem_singleton.mp hx]
  · intro r p hr hp ih hlive hx
    rcases (mem_lineage_child hr hp).mp hx with rfl | hx
    · exact hlive
    · exact ih (h.live_parent r p hr hp hlive) hx

/-- A sound tree stays sound with the same core. -/
theorem congr (h : Sound maxDepth a) (he : SameCore a b) : Sound maxDepth b where
  depth_le r hr := by
    rw [he.depth_eq]
    exact h.depth_le r (he.size_eq ▸ hr)
  content_ne r h0 hr := by
    rw [he.content_eq]
    exact h.content_ne r h0 (he.size_eq ▸ hr)
  content_strip r h0 hr := by
    rw [he.content_eq]
    exact h.content_strip r h0 (he.size_eq ▸ hr)
  siblings p c d := by
    simp only [he.children_eq, he.content_eq]
    exact h.siblings p c d
  live_parent r p hr := by
    simp only [he.parent_eq, he.status_eq]
    exact h.live_parent r p (he.size_eq ▸ hr)

/-- Changing the status of one node keeps the invariant when the node's parent is
live or it dies, and its own children are dead or it lives on. -/
theorem amend_status (h : Sound maxDepth a) (hl : SameLinks a b) {n : Nat}
    (hother : ∀ x, x ≠ n → (b.node x).status = (a.node x).status)
    (hparent : ∀ p, n < a.size → (a.node n).parent = some p →
      (b.node n).status.isLive = true → (a.node p).status.isLive = true)
    (hchildren : ∀ c ∈ (a.node n).children, (a.node c).status.isLive = false) :
    Sound maxDepth b where
  depth_le r hr := by
    rw [hl.depth_eq]
    exact h.depth_le r (hl.size_eq ▸ hr)
  content_ne r h0 hr := by
    rw [hl.content_eq]
    exact h.content_ne r h0 (hl.size_eq ▸ hr)
  content_strip r h0 hr := by
    rw [hl.content_eq]
    exact h.content_strip r h0 (hl.size_eq ▸ hr)
  siblings p c d := by
    simp only [hl.children_eq, hl.content_eq]
    exact h.siblings p c d
  live_parent r p hr hp hlive := by
    rw [hl.size_eq] at hr
    rw [hl.parent_eq] at hp
    have hne : r ≠ p := by
      have := a.linked.parent_lt_self hr hp
      omega
    by_cases hpn : p = n
    · subst hpn
      rw [hother r hne, hchildren r (mem_children.mpr ⟨hr, hp⟩)] at hlive
      cases hlive
    · rw [hother p hpn]
      by_cases hrn : r = n
      · subst hrn
        exact hparent p hr hp hlive
      · rw [hother r hrn] at hlive
        exact h.live_parent r p hr hp hlive

end Sound

namespace Frontier

variable {maxDepth : Nat} {a : Arena K} {n : Nat}

/-- Below a frontier node everything is dead. -/
theorem descendant_dead (h : Frontier a n) (hs : Sound maxDepth a) {r : Nat} (hr : r < a.size)
    (hn : n ∈ a.lineage r) (hne : r ≠ n) : (a.node r).status.isLive = false := by
  obtain ⟨c, hc, hcr⟩ := exists_child_on_lineage hr hn (Ne.symm hne)
  cases hlive : (a.node r).status.isLive with
  | false => rfl
  | true =>
    have hcl := hs.live_lineage hr hlive hcr
    rw [h.children_dead c hc] at hcl
    cases hcl

/-- Pruning a frontier node changes exactly that node. -/
theorem pruneSubtree_eq (h : Frontier a n) (hs : Sound maxDepth a) :
    a.pruneSubtree n = (a.setStatus n .pruned, 1) :=
  pruneSubtree_frontier h.alloc h.live fun _ hr hn hne => h.descendant_dead hs hr hn hne

/-- Pruning a node of the frontier keeps the tree sound. -/
theorem sound_prune (h : Frontier a n) (hs : Sound maxDepth a) :
    Sound maxDepth (a.pruneSubtree n).1 := by
  rw [h.pruneSubtree_eq hs]
  refine hs.amend_status (sameLinks_setStatus a n .pruned) (n := n) ?_ ?_ h.children_dead
  · intro x hx
    rw [setStatus_node, if_neg hx]
  · intro p _ _ hlive
    rw [setStatus_node, if_pos rfl] at hlive
    cases hlive

end Frontier

namespace Working

variable {maxDepth : Nat} {a b : Arena K} {n : Nat} {batch unjudged : List Nat}

/-- Before its first new child the working node is on the frontier. -/
theorem frontier (h : Working maxDepth a n [] []) : Frontier a n :=
  ⟨h.alloc, h.live, fun c hc => h.old_dead c hc List.not_mem_nil⟩

/-- A frontier node above the depth cap can be worked on. -/
theorem of_frontier (h : Frontier a n) (hd : (a.node n).depth < maxDepth) :
    Working maxDepth a n [] [] where
  alloc := h.alloc
  live := h.live
  shallow := hd
  old_dead c hc _ := h.children_dead c hc
  attached _ hc := absurd hc List.not_mem_nil
  sorted := .nil
  childless _ hc := absurd hc List.not_mem_nil
  subset _ hc := hc
  unjudged_nodup := .nil
  pending _ hc := absurd hc List.not_mem_nil

/-- No child is in the batch twice. -/
theorem nodup (h : Working maxDepth a n batch unjudged) : batch.Nodup :=
  h.sorted.imp fun hlt => hlt.ne

/-- The nodes of a batch are in the tree. -/
theorem mem_alloc (h : Working maxDepth a n batch unjudged) {c : Nat} (hc : c ∈ batch) :
    c < a.size :=
  (mem_children.mp (h.attached c hc)).1

/-- The node that was expanded is not in its batch. -/
theorem mem_ne (h : Working maxDepth a n batch unjudged) {c : Nat} (hc : c ∈ batch) : c ≠ n := by
  have := lt_of_mem_children (h.attached c hc)
  omega

variable [PyFloat K]

/-- Attaching a stripped, non-blank, new content keeps the tree invariant. -/
theorem sound_attach (h : Working maxDepth a n batch unjudged) (hs : Sound maxDepth a)
    {content : Str} (hne : content ≠ []) (hstrip : Str.strip content = content)
    (hnew : ∀ c ∈ (a.node n).children, (a.node c).content ≠ content) :
    Sound maxDepth (a.attachChild n content) := by
  have hsize := attachChild_size content h.alloc
  have hold := fun x => attachChild_old content h.alloc (x := x)
  have hlast := attachChild_new content h.alloc
  have hchild : ∀ p c, c ∈ ((a.attachChild n content).node p).children →
      c ∈ (a.node p).children ∨ (c = a.size ∧ p = n) := by
    intro p c hc
    obtain ⟨hcs, hcp⟩ := mem_children.mp hc
    by_cases hce : c = a.size
    · subst hce
      rw [hlast] at hcp
      cases hcp
      exact Or.inr ⟨rfl, rfl⟩
    · rw [hold c hce] at hcp
      exact Or.inl (mem_children.mpr ⟨by omega, hcp⟩)
  have hchild_ne : ∀ p c, c ∈ (a.node p).children → c ≠ a.size := fun p c hc => by
    have := (mem_children.mp hc).1
    omega
  constructor
  case depth_le =>
    intro r hr
    by_cases hre : r = a.size
    · rw [hre, hlast]
      exact h.shallow
    · rw [hold r hre]
      exact hs.depth_le r (by omega)
  case content_ne =>
    intro r h0 hr
    by_cases hre : r = a.size
    · rw [hre, hlast]
      exact hne
    · rw [hold r hre]
      exact hs.content_ne r h0 (by omega)
  case content_strip =>
    intro r h0 hr
    by_cases hre : r = a.size
    · rw [hre, hlast]
      exact hstrip
    · rw [hold r hre]
      exact hs.content_strip r h0 (by omega)
  case siblings =>
    intro p c d hc hd he
    rcases hchild p c hc with hc' | ⟨rfl, rfl⟩ <;> rcases hchild p d hd with hd' | ⟨rfl, hpn⟩
    · rw [hold c (hchild_ne p c hc'), hold d (hchild_ne p d hd')] at he
      exact hs.siblings p c d hc' hd' he
    · subst hpn
      rw [hold c (hchild_ne p c hc'), hlast] at he
      exact absurd he (hnew c hc')
    · rw [hold d (hchild_ne p d hd'), hlast] at he
      exact absurd he.symm (hnew d hd')
    · rfl
  case live_parent =>
    intro r p hr hp hlive
    by_cases hre : r = a.size
    · subst hre
      rw [hlast] at hp
      cases hp
      rw [hold n (by have := h.alloc; omega)]
      exact h.live
    · have hrs : r < a.size := by omega
      rw [hold r hre] at hp hlive
      have := a.linked.parent_lt_self hrs hp
      rw [hold p (by omega)]
      exact hs.live_parent r p hrs hp hlive

/-- The new child joins the batch. -/
theorem attach (h : Working maxDepth a n batch unjudged) {content : Str} :
    Working maxDepth (a.attachChild n content) n (batch ++ [a.size]) (unjudged ++ [a.size]) := by
  have hsize := attachChild_size content h.alloc
  have hold := fun x => attachChild_old content h.alloc (x := x)
  have hlast := attachChild_new content h.alloc
  have hn : n ≠ a.size := by
    have := h.alloc
    omega
  have hbatch : ∀ c ∈ batch, c ≠ a.size := fun c hc => by
    have := h.mem_alloc hc
    omega
  have hkids : ((a.attachChild n content).node n).children = (a.node n).children ++ [a.size] := by
    rw [hold n hn, if_pos rfl]
  constructor
  case alloc =>
    have := h.alloc
    omega
  case live =>
    rw [hold n hn]
    exact h.live
  case shallow =>
    rw [hold n hn]
    exact h.shallow
  case old_dead =>
    intro c hc hcb
    rw [hkids, List.mem_append, List.mem_singleton] at hc
    rw [List.mem_append, List.mem_singleton, not_or] at hcb
    rw [hold c hcb.2]
    exact h.old_dead c (hc.resolve_right hcb.2) hcb.1
  case attached =>
    intro c hc
    rw [hkids, List.mem_append]
    exact (List.mem_append.mp hc).imp_left (h.attached c)
  case sorted =>
    exact List.pairwise_append.mpr ⟨h.sorted, List.pairwise_singleton _ _, fun c hc d hd =>
      List.mem_singleton.mp hd ▸ h.mem_alloc hc⟩
  case childless =>
    intro c hc
    rcases List.mem_append.mp hc with hc | hc
    · rw [hold c (hbatch c hc), if_neg (h.mem_ne hc), List.append_nil]
      exact h.childless c hc
    · rw [List.mem_singleton.mp hc, hlast]
      rfl
  case subset =>
    intro c hc
    exact List.mem_append.mpr ((List.mem_append.mp hc).imp_left (h.subset c))
  case unjudged_nodup =>
    exact List.nodup_append.mpr ⟨h.unjudged_nodup, List.nodup_singleton _, fun c hc d hd =>
      List.mem_singleton.mp hd ▸ hbatch c (h.subset c hc)⟩
  case pending =>
    intro c hc
    rcases List.mem_append.mp hc with hc | hc
    · rw [hold c (hbatch c (h.subset c hc))]
      exact h.pending c hc
    · rw [List.mem_singleton.mp hc, hlast]
      rfl

omit [PyFloat K] in
/-- Storing a verdict on a child of the batch keeps the tree invariant. -/
theorem sound_judge (h : Working maxDepth a n batch unjudged) (hs : Sound maxDepth a) {c : Nat}
    (hc : c ∈ batch) (score : K) (status : NodeStatus) (rationale : Str) :
    Sound maxDepth (a.applyEvaluation c score status rationale) := by
  refine hs.amend_status (sameLinks_applyEvaluation a c score status rationale) (n := c) ?_ ?_ ?_
  · intro x hx
    rw [applyEvaluation_node, if_neg hx]
  · intro p _ hp _
    have hpn := (mem_children.mp (h.attached c hc)).2
    rw [hp] at hpn
    cases hpn
    exact h.live
  · intro d hd
    rw [h.childless c hc] at hd
    cases hd

omit [PyFloat K] in
/-- The judged child leaves the list of those without a verdict. -/
theorem judge {c : Nat} {rest : List Nat} (h : Working maxDepth a n batch (c :: rest))
    (score : K) (status : NodeStatus) (rationale : Str) :
    Working maxDepth (a.applyEvaluation c score status rationale) n batch rest := by
  have hl := sameLinks_applyEvaluation a c score status rationale
  have hc := h.subset c (List.mem_cons_self ..)
  have hcr := (List.nodup_cons.mp h.unjudged_nodup).1
  have hother : ∀ x, x ≠ c →
      (a.applyEvaluation c score status rationale).node x = a.node x := fun x hx => by
    rw [applyEvaluation_node, if_neg hx]
  constructor
  case alloc => exact h.alloc
  case live =>
    rw [hother n (h.mem_ne hc).symm]
    exact h.live
  case shallow =>
    rw [hl.depth_eq]
    exact h.shallow
  case old_dead =>
    intro d hd hdb
    rw [hl.children_eq] at hd
    rw [hother d (fun he => hdb (he ▸ hc))]
    exact h.old_dead d hd hdb
  case attached =>
    intro d hd
    rw [hl.children_eq]
    exact h.attached d hd
  case sorted => exact h.sorted
  case childless =>
    intro d hd
    rw [hl.children_eq]
    exact h.childless d hd
  case subset => exact fun d hd => h.subset d (List.mem_cons_of_mem _ hd)
  case unjudged_nodup => exact (List.nodup_cons.mp h.unjudged_nodup).2
  case pending =>
    intro d hd
    rw [hother d (fun he => hcr (he ▸ hd))]
    exact h.pending d (List.mem_cons_of_mem _ hd)

end Working

section Backpropagation

variable [PyFloat K]

/-- A visit changes nothing of the core. -/
theorem sameCore_recordVisit (a : Arena K) (r : Nat) (value : K) :
    SameCore a (a.recordVisit r value) := by
  refine ⟨sameLinks_recordVisit a r value, ?_, ?_, ?_⟩ <;> intro x <;>
    rw [recordVisit_node] <;> split <;> rfl

end Backpropagation

end Arena

variable [PyFloat K]

/-- Visits along a path change nothing of the core. -/
theorem sameCore_recordPath (a : Arena K) (path : List Nat) (value : K) :
    Arena.SameCore a (recordPath a path value) := by
  induction path generalizing a with
  | nil => exact .refl a
  | cons x path ih => exact (Arena.sameCore_recordVisit a x value).trans (ih _)

/-- Backpropagation moves statistics only. -/
theorem sameCore_backpropagate (a : Arena K) (valued : List (Nat × K)) :
    Arena.SameCore a (backpropagateArena a valued) := by
  induction valued generalizing a with
  | nil => exact .refl a
  | cons cv valued ih => exact (sameCore_recordPath a _ cv.2).trans (ih _)

end CognitiveTree.Search
