import CognitiveTree.Core.Alike
import CognitiveTree.Search.Outcome

/-!
# Exchanging the critic

Only the diagnosis of a rejected child depends on the critic. A critic that answers like another one
wherever a run can ask it may take its place: each method does the same from the control points the
run passes, and so does the run.
-/

namespace CognitiveTree.Search

variable {K W : Type} [PyFloat K]

/-- The same controller with another critic. -/
def TreeSearchController.withCritic (ctl : TreeSearchController K W)
    (critic : Nat → Call K W (Option (Critique K))) : TreeSearchController K W :=
  { ctl with critic := some critic }

section Unaffected

variable (ctl : TreeSearchController K W) (rt : Runtime K W)
  (critic : Nat → Call K W (Option (Critique K)))

/-- The ranks of children do not depend on the critic. -/
theorem childKeys_withCritic (live : List Nat) :
    childKeys (ctl.withCritic critic) rt live = childKeys ctl rt live := by
  induction live with
  | nil => rfl
  | cons c live ih =>
    rw [childKeys, childKeys, ih]
    rfl

/-- The way down does not depend on the critic. -/
theorem descend_withCritic (fuel n : Nat) :
    descend (ctl.withCritic critic) rt fuel n = descend ctl rt fuel n := by
  induction fuel generalizing n with
  | zero => rfl
  | succ fuel ih =>
    rw [descend, descend]
    simp only [pickChild, childKeys_withCritic, ih]
    rfl

/-- The selection does not depend on the critic. -/
theorem selectFrom_withCritic (fuel : Nat) :
    selectFrom (ctl.withCritic critic) rt fuel = selectFrom ctl rt fuel := by
  induction fuel with
  | zero => rfl
  | succ fuel ih =>
    rw [selectFrom, selectFrom, ih]
    simp only [descend_withCritic]

/-- The selection does not ask the critic. -/
theorem select_withCritic : select (ctl.withCritic critic) rt = select ctl rt := by
  simp only [select, selectFrom_withCritic]

/-- The verdicts do not depend on the critic. -/
theorem evaluateAll_withCritic (batch : List Nat) :
    evaluateAll (ctl.withCritic critic) batch = evaluateAll ctl batch := by
  induction batch with
  | nil => rfl
  | cons c batch ih =>
    rw [evaluateAll, evaluateAll, ih]
    rfl

/-- The events of the pool do not depend on the critic. -/
theorem Pool.follow_withCritic (workers : Nat) (batch : List Nat) (events : List PoolEvent)
    (p : Pool K) : Pool.follow (ctl.withCritic critic) workers batch events p =
      Pool.follow ctl workers batch events p := by
  induction events generalizing p with
  | nil => rfl
  | cons event events ih =>
    rw [Pool.follow, Pool.follow, funext ih]
    rfl

/-- The end of the pool does not depend on the critic. -/
theorem Pool.shutdown_withCritic (left : List Nat) (p : Pool K) :
    Pool.shutdown (ctl.withCritic critic) left p = Pool.shutdown ctl left p := by
  induction left generalizing p with
  | nil => rfl
  | cons c left ih =>
    rw [Pool.shutdown, Pool.shutdown, funext ih]
    rfl

/-- Neither does the evaluation of a batch. -/
theorem collectVerdicts_withCritic (batch : List Nat) :
    collectVerdicts (ctl.withCritic critic) rt batch = collectVerdicts ctl rt batch := by
  unfold collectVerdicts poolMap
  simp only [evaluateAll_withCritic, Pool.follow_withCritic, Pool.shutdown_withCritic]
  rfl

end Unaffected

/-- The other critic does what that of the controller does, about every rejected child that a run
can offer it. -/
def Interchangeable (ctl : TreeSearchController K W) (rt : Runtime K W) (task : Str) (draws : Nat)
    (critic : Nat → Call K W (Option (Critique K))) : Prop :=
  ∃ original, ctl.critic = some original ∧ ∀ {n d : Nat} {v : Evaluation K}
    {todo : List (Nat × Evaluation K)} {solution : Option Nat} {valued : List (Nat × K)}
    {s : RunState K W}, Reach ctl rt task draws (.diagnosing n d v todo solution valued, s) →
      verdictStatus ctl.config v = .pruned →
        critic d s.tree.arena s.metadata s.world = original d s.tree.arena s.metadata s.world

/-- Selection finds a node to expand, or nothing. -/
theorem Follows.select {ctl : TreeSearchController K W} {rt : Runtime K W}
    {G : Stage K → RunState K W → Prop} (hG : Follows ctl rt G) :
    Triple (fun s => G .selecting { s with log := .selection s.tree.arena :: s.log })
      (select ctl rt) (Selected G) (Fault G) := by
  refine Triple.get_bind fun s₀ hs₀ => ?_
  refine Triple.bind (Q := fun _ s => G .selecting s ∧
    s.tree.arena.liveCount < s₀.tree.arena.size + 1) (Triple.modify _ ?_) fun _ => hG.selectFrom _
  rintro _ rfl
  exact ⟨hs₀, Nat.lt_succ_of_le (Arena.liveCount_le _)⟩

namespace Interchangeable

variable {ctl : TreeSearchController K W} {rt : Runtime K W} {task : Str} {draws : Nat}
  {critic : Nat → Call K W (Option (Critique K))} (h : Interchangeable ctl rt task draws critic)

include h

/-- The diagnosis of a child is the same. -/
theorem diagnose (n c : Nat) (v : Evaluation K) (todo : List (Nat × Evaluation K))
    (solution : Option Nat) (valued : List (Nat × K)) :
    Alike (fun s => Reach ctl rt task draws (.diagnosing n c v todo solution valued, s))
      (diagnose (ctl.withCritic critic) c (verdictStatus ctl.config v))
      (diagnose ctl c (verdictStatus ctl.config v)) := by
  obtain ⟨original, horiginal, hsame⟩ := h
  intro s hs
  unfold Search.diagnose TreeSearchController.withCritic
  rw [horiginal]
  dsimp only
  by_cases hpruned : verdictStatus ctl.config v = .pruned
  · rw [if_pos hpruned, if_pos hpruned]
    apply bind_run_congr
    change answered (critic c s.tree.arena s.metadata s.world).answer
      (s.consulted (critic c s.tree.arena s.metadata s.world)
        (.critique c (critic c s.tree.arena s.metadata s.world).answer)) = _
    rw [hsame hs hpruned]
    rfl
  · rw [if_neg hpruned, if_neg hpruned]

/-- So is the judgement of a batch. -/
theorem judge (n : Nat) (todo : List (Nat × Evaluation K)) (solution : Option Nat)
    (valued : List (Nat × K)) :
    Alike (fun s => Reach ctl rt task draws (.judging n todo solution valued, s))
      (judge (ctl.withCritic critic) (todo.map Prod.fst) (todo.map Prod.snd) solution valued)
      (judge ctl (todo.map Prod.fst) (todo.map Prod.snd) solution valued) := by
  have hG := Reach.follows_all ctl rt task draws
  induction todo generalizing solution valued with
  | nil => exact .refl _ _
  | cons cv rest ih =>
    obtain ⟨c, v⟩ := cv
    refine Alike.modify_bind (Q := fun s =>
      Reach ctl rt task draws (.diagnosing n c v rest solution valued, s))
      (fun s hs => hs.step .judge) ?_
    refine (h.diagnose n c v rest solution valued).bind
      (hG.diagnose n c v rest solution valued) fun critique => ?_
    exact Alike.bind_left (hG.shapeValue n c v critique rest solution valued) fun value => ih _ _

/-- And the work on the selected node. -/
theorem workOn (n : Nat) :
    Alike (fun s => Reach ctl rt task draws (.opened n false, s))
      (workOn (ctl.withCritic critic) rt n) (workOn ctl rt n) := by
  have hG := Reach.follows_all ctl rt task draws
  refine Alike.bind_left (hG.advance.pre fun s hs => ⟨hs, .expand n⟩) fun _ => ?_
  refine Alike.bind_left ((hG.expand n).pre fun s hs => hs.1) fun batch => ?_
  refine Alike.ite (fun _ => .refl _ _) fun hne => ?_
  have hevaluate : Alike (fun s => Reach ctl rt task draws (.collecting n batch [], s))
      (evaluate (ctl.withCritic critic) rt batch) (evaluate ctl rt batch) := by
    unfold evaluate
    rw [collectVerdicts_withCritic]
    refine Alike.bind_left (hG.collectVerdicts n batch) fun verdicts s hs => ?_
    obtain ⟨results, hs, hverdicts⟩ := hs
    have hjudge := h.judge n (batch.zip verdicts) none [] s
      (hs.step (.collected hverdicts.zip_fst hverdicts.mem_zip))
    rwa [hverdicts.zip_fst, hverdicts.zip_snd] at hjudge
  rintro s ⟨seen, hs⟩
  refine (Alike.bind_left (hG.advance.pre fun s hs => ⟨hs, .candidates n seen batch hne⟩)
    fun _ => ?_ : Alike (fun s => Reach ctl rt task draws (.attaching n [] seen batch, s)) _ _) s hs
  exact (hevaluate.pre fun s hs => hs.1).bind_right _

/-- One iteration is the same. -/
theorem iterate :
    Alike (fun s => Reach ctl rt task draws (.boundary, s) ∧ s.iteration < ctl.config.maxIterations)
      (iterate (ctl.withCritic critic) rt) (iterate ctl rt) := by
  have hG := Reach.follows_all ctl rt task draws
  unfold Search.iterate
  rw [select_withCritic]
  refine Alike.modify_bind (Q := fun s => Reach ctl rt task draws
    (.selecting, { s with log := .selection s.tree.arena :: s.log }))
    (fun s hs => hs.1.step (.begin hs.2)) ?_
  refine Alike.bind_left hG.select fun found => ?_
  cases found with
  | none => exact .refl _ _
  | some opened =>
    obtain ⟨n, revived⟩ := opened
    exact Alike.bind_left (hG.reopen n revived) fun _ => h.workOn n

/-- A lap of the main loop is the same. -/
theorem lap {deadline : Option K} (hseconds : deadline ≠ none → ctl.config.maxWallSeconds ≠ none)
    {k : Nat} (hk : k < ctl.config.maxIterations) :
    Alike (fun s => Reach ctl rt task draws (.boundary, s) ∧ s.iteration = k)
      (lap (ctl.withCritic critic) rt deadline) (lap ctl rt deadline) := by
  refine Alike.bind_left ((Reach.follows ctl rt task draws k).checkLimits deadline hseconds)
    fun limit => ?_
  cases limit with
  | none => exact h.iterate.pre fun s hs => ⟨hs.1, hs.2.trans_lt hk⟩
  | some limit => exact .refl _ _

/-- And so is the main loop. -/
theorem searchLoop {deadline : Option K}
    (hseconds : deadline ≠ none → ctl.config.maxWallSeconds ≠ none) (remaining k : Nat)
    (hbudget : k + remaining = ctl.config.maxIterations) :
    Alike (fun s => Reach ctl rt task draws (.boundary, s) ∧ s.iteration = k)
      (searchLoop (ctl.withCritic critic) rt deadline remaining)
      (searchLoop ctl rt deadline remaining) := by
  induction remaining generalizing k with
  | zero => exact .refl _ _
  | succ remaining ih =>
    rw [searchLoop_succ, searchLoop_succ]
    have hspec := @lap_spec K W _ ctl rt task draws deadline hseconds k
    refine (h.lap hseconds (by omega)).bind (hspec.pre fun s hs => ⟨hs.1, hs.2, by omega⟩)
      fun again => Alike.ite (fun hagain => ?_) fun _ => .refl _ _
    exact (ih (k + 1) (by omega)).pre fun s hs => hs.1 hagain

/-- A run with the other critic is the same run. -/
theorem run (world : W) :
    (ctl.withCritic critic).run rt task draws world = ctl.run rt task draws world := by
  rw [run_eq_parts, run_eq_parts]
  apply bind_run_congr
  refine Alike.bind_left (@openRun_spec K W _ ctl rt task draws) (fun deadline => ?_) _ ⟨world, rfl⟩
  rintro s ⟨hseconds, hs⟩
  have hloop := h.searchLoop hseconds ctl.config.maxIterations 0 (Nat.zero_add _)
  exact ((hloop.bind_right _).tryCatch (onFault ctl rt)).bind_right _ s hs

end Interchangeable

end CognitiveTree.Search
