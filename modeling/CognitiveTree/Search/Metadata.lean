import CognitiveTree.Search.Ledger

/-!
# Node metadata along a run

Metadata change in three places only: a new node starts without entries, a policy call
leaves behind what it likes, and the controller stores a critique. `Asked` lists the calls
with the stages around them, so that a fact about one key needs to look at the calls of
the policies that may write it, and at nothing else.
-/

namespace CognitiveTree.Search

open Arena

variable {K W : Type} [PyFloat K]

/-- The entry of a node under one key. -/
def RunState.entry (s : RunState K W) (r : Nat) (key : Str) : Option (PyVal K) :=
  Dict.get? (s.metadata r) key

/-- The call leaves this key of every node alone. -/
def Leaves {α : Type} (call : Call K W α) (key : Str) : Prop :=
  ∀ arena metadata world r,
    Dict.get? ((call arena metadata world).metadata r) key = Dict.get? (metadata r) key

/-- The policies that see node metadata. -/
inductive Policy where
  | generator
  | evaluator
  | critic
  | revision
  | reward
  deriving DecidableEq, Repr

namespace TreeSearchController

/-- All calls of one policy leave this key alone. -/
def Spares (ctl : TreeSearchController K W) (key : Str) : Policy → Prop
  | .generator => ∀ n k, Leaves (ctl.generator n k) key
  | .evaluator => ∀ n, Leaves (ctl.evaluator n) key
  | .critic => ∀ critic, ctl.critic = some critic → ∀ n, Leaves (critic n) key
  | .revision => ∀ policy, ctl.revisionPolicy = some policy → ∀ n, Leaves (policy n) key
  | .reward => ∀ model, ctl.rewardModel = some model → ∀ n base critique,
      Leaves (model n base critique) key

/-- No other policy writes this key. -/
def SoleWriter (ctl : TreeSearchController K W) (key : Str) (policy : Policy) : Prop :=
  ∀ other, other ≠ policy → ctl.Spares key other

end TreeSearchController

/-- A step that calls a policy, with what becomes of its reply. -/
inductive Asked (ctl : TreeSearchController K W) :
    Policy → Stage K × RunState K W → Stage K × RunState K W → Prop
  | generator {s : RunState K W} {n : Nat} {st : Stage K} {reply : Reply K W (List Str)}
      (hreply : reply = ctl.generator n ctl.config.branchingFactor s.tree.arena s.metadata
        s.world) :
      Asked ctl .generator (.expanding n, s)
        (st, s.consulted reply (.generate n ctl.config.branchingFactor reply.answer))
  | evaluator {s : RunState K W} {n d : Nat} {batch : List Nat}
      {results : List (Nat × Except Exc (Evaluation K))} {reply : Reply K W (Evaluation K)}
      (pending : d ∈ batch) (fresh : d ∉ results.map Prod.fst)
      (hreply : reply = ctl.evaluator d s.tree.arena s.metadata s.world) :
      Asked ctl .evaluator (.collecting n batch results, s)
        (.collecting n batch (results ++ [(d, reply.answer)]),
          s.consulted reply (.evaluate d reply.answer))
  | critic {s : RunState K W} {n d : Nat} {v : Evaluation K} {todo : List (Nat × Evaluation K)}
      {solution : Option Nat} {valued : List (Nat × K)} {st : Stage K} {critic}
      {reply : Reply K W (Option (Critique K))} (hcritic : ctl.critic = some critic)
      (hreply : reply = critic d s.tree.arena s.metadata s.world)
      (silent : ∀ critique, reply.answer ≠ .ok (some critique)) :
      Asked ctl .critic (.diagnosing n d v todo solution valued, s)
        (st, s.consulted reply (.critique d reply.answer))
  | critique {s : RunState K W} {n d : Nat} {v : Evaluation K} {todo : List (Nat × Evaluation K)}
      {solution : Option Nat} {valued : List (Nat × K)} {st : Stage K} {critic}
      {reply : Reply K W (Option (Critique K))} {critique : Critique K}
      (hcritic : ctl.critic = some critic)
      (hreply : reply = critic d s.tree.arena s.metadata s.world)
      (answer : reply.answer = .ok (some critique)) :
      Asked ctl .critic (.diagnosing n d v todo solution valued, s)
        (st, (s.consulted reply (.critique d reply.answer)).annotated d critique)
  | revision {s : RunState K W} {n : Nat} {st : Stage K} {policy} {reply : Reply K W Bool}
      (alloc : n < s.tree.arena.size) (live : (s.tree.arena.node n).isLive = true)
      (saturated : Saturated s.tree.arena n) (hpolicy : ctl.revisionPolicy = some policy)
      (hreply : reply = policy n s.tree.arena s.metadata s.world) :
      Asked ctl .revision (.selecting, s) (st, s.consulted reply (.revise n reply.answer))
  | reward {s : RunState K W} {n d : Nat} {v : Evaluation K} {critique : Option (Critique K)}
      {todo : List (Nat × Evaluation K)} {solution : Option Nat} {valued : List (Nat × K)}
      {st : Stage K} {model} {reply : Reply K W K} (hmodel : ctl.rewardModel = some model)
      (hreply : reply = model d v.score critique s.tree.arena s.metadata s.world) :
      Asked ctl .reward (.shaping n d v critique todo solution valued, s)
        (st, s.consulted reply (.shape d v.score critique reply.answer))

variable {ctl : TreeSearchController K W} {rt : Runtime K W}

/-- Without a policy call the metadata stay as they are, but for a new node. -/
structure Unasked (c c' : Stage K × RunState K W) : Prop where
  old : ∀ r, r < c.2.tree.arena.size → c'.2.metadata r = c.2.metadata r
  new : ∀ r, c.2.tree.arena.size ≤ r → r < c'.2.tree.arena.size → c'.2.metadata r = []
  verdicts : evaluationsIn c'.2.log = evaluationsIn c.2.log

/-- Every step calls a policy or leaves the metadata alone. -/
theorem Step.metadata_cases {c c' : Stage K × RunState K W} (hs : Step ctl rt c c')
    (hi : Inv ctl rt c) : (∃ policy, Asked ctl policy c c') ∨ Unasked c c' := by
  -- most steps keep the metadata as a whole
  have hkept : ∀ {st : Stage K} {s : RunState K W}, s.metadata = c.2.metadata →
      s.tree.arena.size = c.2.tree.arena.size → evaluationsIn s.log = evaluationsIn c.2.log →
      Unasked c (st, s) := by
    intro st s hmeta hsize hlog
    refine ⟨fun r _ => congrFun hmeta r, fun r hge hlt => ?_, hlog⟩
    have hlt : r < s.tree.arena.size := hlt
    omega
  cases hs with
  | @advance s st st' target node detail edge h quiet =>
    have hm := RunState.mirrored_fields ctl rt (s.transitioned rt target node detail h) target node
      detail
    exact Or.inr (hkept hm.2.2.1 (by rw [hm.1]; rfl) evaluationsIn_mirrored)
  | @advanceRaised s st st' target node detail e edge h raised =>
    have hm := RunState.mirrored_fields ctl rt (s.transitioned rt target node detail h) target node
      detail
    exact Or.inr (hkept hm.2.2.1 (by rw [hm.1]; rfl) evaluationsIn_mirrored)
  | cap | collapse | retreat =>
    exact Or.inr (hkept rfl (sameLinks_pruneSubtree _ _).size_eq rfl)
  | credit => exact Or.inr (hkept rfl (sameCore_backpropagate _ _).size_eq rfl)
  | @attach s n content rest seen batch child tree _ _ added =>
    have halloc := (hi.working n rfl).alloc
    rw [ThoughtTree.addChild, if_pos (hi.indexed n halloc)] at added
    cases added
    refine Or.inr ⟨fun r hr => ?_, fun r hge hlt => ?_, rfl⟩
    · have hne : r ≠ s.tree.arena.size := Nat.ne_of_lt hr
      simp [RunState.grown, hne]
    · have hlt : r < s.tree.arena.size + 1 := attachChild_size (Str.strip content) halloc ▸ hlt
      have he : r = s.tree.arena.size := Nat.le_antisymm (Nat.le_of_lt_succ hlt) hge
      simp [RunState.grown, he]
  | revise alloc live saturated hpolicy hreply =>
    exact Or.inl ⟨_, .revision alloc live saturated hpolicy hreply⟩
  | reviseRaised alloc live saturated hpolicy hreply =>
    exact Or.inl ⟨_, .revision alloc live saturated hpolicy hreply⟩
  | generate hreply => exact Or.inl ⟨_, .generator hreply⟩
  | generateRaised hreply => exact Or.inl ⟨_, .generator hreply⟩
  | evaluate pending fresh hreply => exact Or.inl ⟨_, .evaluator pending fresh hreply⟩
  | uncritiqued hcritic _ hreply answer =>
    exact Or.inl ⟨_, .critic hcritic hreply fun critique he => by rw [answer] at he; cases he⟩
  | critiqued hcritic _ hreply answer => exact Or.inl ⟨_, .critique hcritic hreply answer⟩
  | critiqueRaised hcritic hreply answer =>
    exact Or.inl ⟨_, .critic hcritic hreply fun critique he => by rw [answer] at he; cases he⟩
  | shape hmodel hreply => exact Or.inl ⟨_, .reward hmodel hreply⟩
  | shapeRaised hmodel hreply => exact Or.inl ⟨_, .reward hmodel hreply⟩
  | _ => exact Or.inr (hkept rfl rfl rfl)

/-- A policy call moves no node. -/
theorem Asked.tree_eq {policy : Policy} {c c' : Stage K × RunState K W}
    (h : Asked ctl policy c c') : c'.2.tree = c.2.tree := by
  cases h <;> rfl

/-- Only the evaluator adds verdicts to the log. -/
theorem Asked.verdicts {policy : Policy} {c c' : Stage K × RunState K W}
    (h : Asked ctl policy c c') (hp : policy ≠ .evaluator) :
    evaluationsIn c'.2.log = evaluationsIn c.2.log := by
  cases h
  case evaluator => exact absurd rfl hp
  all_goals rfl

/-- A policy that spares a key keeps its entries, unless the controller stores a critique
there. -/
theorem Asked.entry_eq {policy : Policy} {c c' : Stage K × RunState K W} {key : Str}
    (h : Asked ctl policy c c') (spares : ctl.Spares key policy)
    (hkey : policy = .critic → key ≠ critiqueMetadataKey) (r : Nat) :
    c'.2.entry r key = c.2.entry r key := by
  cases h with
  | generator hreply => exact hreply ▸ spares _ _ _ _ _ r
  | evaluator _ _ hreply => exact hreply ▸ spares _ _ _ _ r
  | critic hcritic hreply => exact hreply ▸ spares _ hcritic _ _ _ _ r
  | @critique s n d _ _ _ _ _ _ reply critique hcritic hreply =>
    have hkept : Dict.get? (reply.metadata r) key = Dict.get? (s.metadata r) key :=
      hreply ▸ spares _ hcritic _ _ _ _ r
    change Dict.get? (if r = d then _ else reply.metadata r) key = Dict.get? (s.metadata r) key
    split
    · rw [Dict.get?_set, if_neg (hkey rfl)]
      exact hkept
    · exact hkept
  | revision _ _ _ hpolicy hreply => exact hreply ▸ spares _ hpolicy _ _ _ _ r
  | reward hmodel hreply => exact hreply ▸ spares _ hmodel _ _ _ _ _ _ r

/-- Without a call of the evaluator no verdict is added to the log. -/
theorem Step.verdicts_eq {c c' : Stage K × RunState K W} (hs : Step ctl rt c c')
    (hi : Inv ctl rt c) (hask : ¬ Asked ctl .evaluator c c') :
    evaluationsIn c'.2.log = evaluationsIn c.2.log := by
  rcases hs.metadata_cases hi with ⟨other, ho⟩ | hquiet
  · exact ho.verdicts fun he => hask (he ▸ ho)
  · exact hquiet.verdicts

/-- Without a call of the only writer of a key, old nodes keep their entries under it and a new
node has none. -/
theorem Step.entry_eq {c c' : Stage K × RunState K W} {key : Str} {policy : Policy}
    (hs : Step ctl rt c c') (hi : Inv ctl rt c) (sole : ctl.SoleWriter key policy)
    (hkey : policy = .critic ∨ key ≠ critiqueMetadataKey) (hask : ¬ Asked ctl policy c c') :
    (∀ r, r < c.2.tree.arena.size → c'.2.entry r key = c.2.entry r key) ∧
    ∀ r, c.2.tree.arena.size ≤ r → r < c'.2.tree.arena.size → c'.2.entry r key = none := by
  rcases hs.metadata_cases hi with ⟨other, ho⟩ | hquiet
  · have hne : other ≠ policy := fun he => hask (he ▸ ho)
    refine ⟨fun r _ => ho.entry_eq (sole other hne) (fun hc => hkey.resolve_left fun hp =>
      hne (hc.trans hp.symm)) r, ?_⟩
    rw [ho.tree_eq]
    intro r hge hlt
    omega
  · refine ⟨fun r hr => congrArg (Dict.get? · key) (hquiet.old r hr), fun r hge hlt => ?_⟩
    rw [RunState.entry, hquiet.new r hge hlt]
    rfl

/-- No step changes the content of a node. -/
theorem Step.content_eq {c c' : Stage K × RunState K W} (hs : Step ctl rt c c')
    (hi : Inv ctl rt c) {r : Nat} (hr : r < c.2.tree.arena.size) :
    (c'.2.tree.arena.node r).content = (c.2.tree.arena.node r).content := by
  rcases hs.tree_cases hi with ⟨-, hchange⟩ | ⟨n, solution, valued, -, -, -, he⟩
  · generalize c'.2.tree.arena = b at hchange ⊢
    cases hchange with
    | same => rfl
    | prune n => exact (sameLinks_setStatus _ n _).content_eq r
    | verdict n d v => exact (sameLinks_applyEvaluation _ d _ _ _).content_eq r
    | child n content focus =>
      rw [attachChild_old content (hi.working n focus).alloc hr.ne]
  · rw [he]
    exact (sameCore_backpropagate _ valued).content_eq r

end CognitiveTree.Search
