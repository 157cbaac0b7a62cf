import CognitiveTree.Feedback.Reopening
import CognitiveTree.Search.Exchange

/-!
# Chained critics

A chain asks its critics in their order and keeps the first verdict. The critic of execution traces
has a verdict on every child that was not run to a clean exit, so the critics behind it only hear of
clean executions; where these are never rejected, a run never gets to ask them.
-/

namespace CognitiveTree.Feedback

open Search Sandbox

variable {K W : Type} [PyFloat K]

/-- An ordered sequence of critics, which is not empty. -/
structure ChainedCritic (K W : Type) [PyFloat K] where
  critics : List (Nat → Call K W (Option (Critique K)))
  nonempty : critics ≠ []

namespace ChainedCritic

/-- `ChainedCritic(critics)`. -/
def create (critics : List (Nat → Call K W (Option (Critique K)))) :
    Except Exc (ChainedCritic K W) :=
  if nonempty : critics ≠ [] then .ok ⟨critics, nonempty⟩
  else .error (valueError (lit "critics must contain at least one critic"))

/-- The loop of `critique` over the remaining critics. -/
def firstVerdict (node : Nat) :
    List (Nat → Call K W (Option (Critique K))) → Call K W (Option (Critique K))
  | [] => fun _ metadata world => ⟨.ok none, metadata, world⟩
  | critic :: critics => fun arena metadata world =>
    let reply := critic node arena metadata world
    match reply.answer with
    | .ok none => firstVerdict node critics arena reply.metadata reply.world
    | _ => reply

/-- `critique(node)`. -/
def critique (chain : ChainedCritic K W) (node : Nat) : Call K W (Option (Critique K)) :=
  firstVerdict node chain.critics

theorem create_cons (critic : Nat → Call K W (Option (Critique K)))
    (critics : List (Nat → Call K W (Option (Critique K)))) :
    ∃ chain, create (critic :: critics) = .ok chain ∧ chain.critics = critic :: critics :=
  ⟨_, dif_pos (List.cons_ne_nil _ _), rfl⟩

/-- The critics behind one that has a verdict, or raises, are not asked. -/
theorem firstVerdict_of_verdict {node : Nat} {critic : Nat → Call K W (Option (Critique K))}
    {critics : List (Nat → Call K W (Option (Critique K)))} {arena : Arena K}
    {metadata : Nat → Metadata K} {world : W}
    (h : (critic node arena metadata world).answer ≠ .ok none) :
    firstVerdict node (critic :: critics) arena metadata world =
      critic node arena metadata world := by
  rw [firstVerdict]
  dsimp only
  split
  · rename_i hnone
    exact absurd hnone h
  · rfl

/-- Critics that leave the metadata alone do so in a chain. -/
theorem firstVerdict_metadata {node : Nat}
    {critics : List (Nat → Call K W (Option (Critique K)))}
    (h : ∀ critic ∈ critics, ∀ arena metadata world,
      (critic node arena metadata world).metadata = metadata) (arena : Arena K)
    (metadata : Nat → Metadata K) (world : W) :
    (firstVerdict node critics arena metadata world).metadata = metadata := by
  induction critics generalizing metadata world with
  | nil => rfl
  | cons critic critics ih =>
    have hkept := h critic (List.mem_cons_self ..) arena metadata world
    rw [firstVerdict]
    dsimp only
    split
    · rw [ih fun other hother => h other (List.mem_cons_of_mem _ hother)]
      exact hkept
    · exact hkept

end ChainedCritic

section Spared

variable [UnitTenths K] {ctl : TreeSearchController K W} {rt : Runtime K W} {task : Str}
  {draws : Nat} {ev : CodeExecutionEvaluator K W} {text : PyVal K → Str}

/-- A clean execution is never rejected. -/
def Forgiving (ev : CodeExecutionEvaluator K W) (config : SearchConfig K) : Prop :=
  ∀ (result : ExecutionResult K) v, result.ok = true → ev.grade result = .ok v →
    verdictStatus config v ≠ .pruned

omit [UnitTenths K] in
/-- Success is accepted by a configuration that accepts the score for it. -/
theorem forgiving_of_accepted {config : SearchConfig K} (hterminal : ev.terminalOnSuccess = true)
    (hscore : PyFloat.le config.acceptThreshold ev.successScore = true) : Forgiving ev config := by
  intro result v hok hgrade
  have hcompleted : result.status = .completed := by
    rw [ExecutionResult.ok, Bool.and_eq_true, decide_eq_true_eq] at hok
    exact hok.1
  rw [CodeExecutionEvaluator.grade, if_neg (by simp [hcompleted]), if_neg (by simp [hcompleted]),
    if_pos hok, Evaluation.create] at hgrade
  split at hgrade
  · cases hgrade
    rw [verdictStatus, if_pos (by simp [hterminal, hscore])]
    exact NodeStatus.noConfusion
  · cases hgrade

/-- Behind the critic of execution traces no other critic is asked. -/
theorem interchangeable_chain (hev : ctl.evaluator = ev.evaluate)
    (hcritic : ctl.critic = some (executionTraceCritic text))
    (hsole : ctl.SoleWriter executionKey .evaluator) (hforgiving : Forgiving ev ctl.config)
    {chain : ChainedCritic K W} {critics : List (Nat → Call K W (Option (Critique K)))}
    (hchain : chain.critics = executionTraceCritic text :: critics) :
    Interchangeable ctl rt task draws chain.critique := by
  refine ⟨_, hcritic, fun {n d v todo solution valued s} hr hpruned => ?_⟩
  rw [ChainedCritic.critique, hchain]
  apply ChainedCritic.firstVerdict_of_verdict
  change diagnoseMetadata text (s.metadata d) ≠ .ok none
  rcases diagnosis_due hr hev hsole with ⟨critique, hcritique, -⟩ |
    ⟨-, result, -, hstatus, hcode, hgrade⟩
  · rw [hcritique]
    simp
  · exact absurd hpruned (hforgiving result v (by simp [ExecutionResult.ok, hstatus, hcode]) hgrade)

end Spared

end CognitiveTree.Feedback
