import CognitiveTree.Core.Number
import CognitiveTree.Search.PathPolicy
import CognitiveTree.Search.Statistics
import Mathlib.Algebra.Order.BigOperators.Group.List
import Mathlib.Algebra.Order.Field.Basic

/-!
# Shaped rewards

The shaped value is a weighted mean of three terms from the unit interval, so it lies there
itself. Along a run the value sum of a node is a sum of such values, one for each visit.
-/

namespace CognitiveTree.Feedback

open Search

variable {K W : Type} [PyFloat K] [PyNumber K]

/-- `REWARD_METADATA_KEY`. -/
def rewardMetadataKey : Str := lit "reward"

/-- The fields of `RewardWeights`. -/
structure WeightFields (K : Type) where
  evaluation : K
  critique : K
  depth : K
  depthHorizon : Int

namespace WeightFields

omit [PyNumber K] in
/-- `w.evaluation + w.critique + w.depth`. -/
def total (w : WeightFields K) : K := PyFloat.add (PyFloat.add w.evaluation w.critique) w.depth

omit [PyNumber K] in
/-- `RewardWeights.__post_init__`. -/
def postInit (w : WeightFields K) : Except Exc Unit :=
  if PyFloat.lt (PyFloat.least w.evaluation [w.critique, w.depth]) PyFloat.zero then
    .error (valueError (lit "reward weights must be non-negative"))
  else if PyFloat.le w.total PyFloat.zero then
    .error (valueError (lit "at least one reward weight must be positive"))
  else if w.depthHorizon < 1 then
    .error (valueError (lit "depth_horizon must be a positive integer"))
  else .ok ()

omit [PyNumber K] in
/-- The default weights. -/
def standard : WeightFields K := ⟨PyFloat.tenths 7, PyFloat.tenths 2, PyFloat.tenths 1, 16⟩

end WeightFields

/-- Relative weights of the shaped-reward components; they passed their own check. -/
structure RewardWeights (K : Type) [PyFloat K] extends WeightFields K where
  checked : toWeightFields.postInit = .ok ()

omit [PyNumber K] in
/-- Constructing weights runs their check. -/
def RewardWeights.create (w : WeightFields K) : Except Exc (RewardWeights K) :=
  match h : w.postInit with
  | .ok () => .ok ⟨w, h⟩
  | .error e => .error e

namespace RewardShaper

variable (w : RewardWeights K)

/-- `1.0 if critique is None else 1.0 - critique.severity`. -/
def critiqueTerm : Option (Critique K) → K
  | none => PyFloat.one
  | some critique => PyNumber.sub PyFloat.one critique.severity

/-- `max(0.0, 1.0 - node.depth / w.depth_horizon)`. -/
def depthTerm (depth : Nat) : K :=
  PyFloat.greatest PyFloat.zero [PyNumber.sub PyFloat.one
    (PyFloat.div (PyFloat.ofNat depth) (PyFloat.ofNat w.depthHorizon.toNat))]

/-- The value that `shape` returns for a node of this depth. -/
def value (depth : Nat) (baseScore : K) (critique : Option (Critique K)) : K :=
  PyFloat.div (PyFloat.add (PyFloat.add (PyFloat.mul w.evaluation baseScore)
    (PyFloat.mul w.critique (critiqueTerm critique))) (PyFloat.mul w.depth (depthTerm w depth)))
    w.total

/-- The components recorded beside it. -/
def breakdown (depth : Nat) (baseScore : K) (critique : Option (Critique K)) : PyVal K :=
  .dict [(lit "base_score", .float (PyFloat.round baseScore 6)),
    (lit "critique_term", .float (PyFloat.round (critiqueTerm critique) 6)),
    (lit "depth_term", .float (PyFloat.round (depthTerm w depth) 6)),
    (lit "shaped", .float (PyFloat.round (value w depth baseScore critique) 6))]

/-- `shape(node, base_score, critique)`. -/
def shape (node : Nat) (baseScore : K) (critique : Option (Critique K)) : Call K W K :=
  fun arena metadata world =>
    let depth := (arena.node node).depth
    ⟨.ok (value w depth baseScore critique), fun x =>
      if x = node then
        Dict.set (metadata x) rewardMetadataKey (breakdown w depth baseScore critique)
      else metadata x, world⟩

end RewardShaper

section Exact

variable [Field K] [LinearOrder K] [IsStrictOrderedRing K] [ExactField K]

/-- What the check of the weights guarantees. -/
theorem RewardWeights.bounds (w : RewardWeights K) : 0 ≤ w.evaluation ∧ 0 ≤ w.critique ∧
    0 ≤ w.depth ∧ 0 < w.evaluation + w.critique + w.depth ∧ 1 ≤ w.depthHorizon := by
  have h := w.checked
  unfold WeightFields.postInit at h
  split at h
  · cases h
  rename_i hnonneg
  split at h
  · cases h
  rename_i hpositive
  split at h
  · cases h
  rename_i hhorizon
  rw [ExactField.lt_iff, ExactField.zero_eq, not_lt] at hnonneg
  rw [ExactField.le_iff, ExactField.zero_eq, not_le, WeightFields.total, ExactField.add_eq,
    ExactField.add_eq] at hpositive
  simp only [PyFloat.least, List.foldl_cons, List.foldl_nil, ExactField.lt_iff] at hnonneg
  refine ⟨?_, ?_, ?_, hpositive, by omega⟩ <;> split_ifs at hnonneg <;> linarith

namespace RewardShaper

variable (w : RewardWeights K)

omit [IsStrictOrderedRing K] in
theorem inUnit_iff {x : K} :
    PyFloat.inUnit x = true ↔ 0 ≤ x ∧ x ≤ 1 := by
  rw [PyFloat.inUnit, Bool.and_eq_true, ExactField.le_iff, ExactField.le_iff, ExactField.zero_eq,
    ExactField.one_eq]

/-- A severity in the unit interval leaves a term in it. -/
theorem critiqueTerm_unit (critique : Option (Critique K)) :
    0 ≤ critiqueTerm critique ∧ critiqueTerm critique ≤ 1 := by
  cases critique with
  | none =>
    rw [critiqueTerm, ExactField.one_eq]
    exact ⟨zero_le_one, le_rfl⟩
  | some critique =>
    have hunit := inUnit_iff.mp critique.unit
    rw [critiqueTerm, ExactField.sub_eq, ExactField.one_eq]
    exact ⟨by linarith, by linarith⟩

omit [IsStrictOrderedRing K] in
theorem depthTerm_eq (depth : Nat) :
    depthTerm w depth = max 0 (1 - (depth : K) / (w.depthHorizon.toNat : K)) := by
  simp only [depthTerm, PyFloat.greatest, PyFloat.gt, List.foldl_cons, List.foldl_nil,
    ExactField.sub_eq, ExactField.div_eq, ExactField.ofNat_eq, ExactField.one_eq,
    ExactField.zero_eq, ExactField.lt_iff]
  split
  · rename_i hpositive
    exact (max_eq_right hpositive.le).symm
  · rename_i hnot
    exact (max_eq_left (not_lt.mp hnot)).symm

theorem depthTerm_unit (depth : Nat) : 0 ≤ depthTerm w depth ∧ depthTerm w depth ≤ 1 := by
  rw [depthTerm_eq]
  have hratio : 0 ≤ (depth : K) / (w.depthHorizon.toNat : K) := by positivity
  exact ⟨le_max_left .., max_le zero_le_one (by linarith)⟩

/-- Deeper nodes have a smaller term. -/
theorem depthTerm_antitone : Antitone (depthTerm w) := by
  intro depth depth' h
  rw [depthTerm_eq, depthTerm_eq]
  have hcast : (depth : K) ≤ depth' := by exact_mod_cast h
  have hratio : (depth : K) / (w.depthHorizon.toNat : K) ≤ depth' / (w.depthHorizon.toNat : K) :=
    div_le_div_of_nonneg_right hcast (by positivity)
  exact max_le_max le_rfl (by linarith)

omit [IsStrictOrderedRing K] in
theorem value_eq (depth : Nat) (baseScore : K) (critique : Option (Critique K)) :
    value w depth baseScore critique =
      (w.evaluation * baseScore + w.critique * critiqueTerm critique + w.depth * depthTerm w depth) /
        (w.evaluation + w.critique + w.depth) := by
  simp only [value, WeightFields.total, ExactField.div_eq, ExactField.add_eq, ExactField.mul_eq]

/-- A weighted mean grows with each of its terms. -/
theorem value_le_value {depth depth' : Nat} {baseScore baseScore' : K}
    {critique critique' : Option (Critique K)} (hbase : baseScore ≤ baseScore')
    (hcritique : critiqueTerm critique ≤ critiqueTerm critique')
    (hdepth : depthTerm w depth ≤ depthTerm w depth') :
    value w depth baseScore critique ≤ value w depth' baseScore' critique' := by
  obtain ⟨hevaluation, hweight, hshallow, hpositive, -⟩ := w.bounds
  rw [value_eq, value_eq]
  refine div_le_div_of_nonneg_right ?_ hpositive.le
  have h₁ := mul_le_mul_of_nonneg_left hbase hevaluation
  have h₂ := mul_le_mul_of_nonneg_left hcritique hweight
  have h₃ := mul_le_mul_of_nonneg_left hdepth hshallow
  linarith

/-- A weighted mean of terms from the unit interval lies in it. -/
theorem value_unit (depth : Nat) {baseScore : K} (hbase : 0 ≤ baseScore ∧ baseScore ≤ 1)
    (critique : Option (Critique K)) :
    0 ≤ value w depth baseScore critique ∧ value w depth baseScore critique ≤ 1 := by
  obtain ⟨hevaluation, hweight, hshallow, hpositive, -⟩ := w.bounds
  have hcritique := critiqueTerm_unit critique
  have hdepth := depthTerm_unit w depth
  rw [value_eq]
  constructor
  · have h₁ := mul_nonneg hevaluation hbase.1
    have h₂ := mul_nonneg hweight hcritique.1
    have h₃ := mul_nonneg hshallow hdepth.1
    exact div_nonneg (by linarith) hpositive.le
  · have h₁ := mul_le_mul_of_nonneg_left hbase.2 hevaluation
    have h₂ := mul_le_mul_of_nonneg_left hcritique.2 hweight
    have h₃ := mul_le_mul_of_nonneg_left hdepth.2 hshallow
    rw [div_le_one hpositive]
    linarith

end RewardShaper

omit [PyFloat K] [PyNumber K] [ExactField K] in
/-- A sum of numbers from the unit interval lies between zero and their number. -/
theorem sum_unit {values : List K} (h : ∀ x ∈ values, 0 ≤ x ∧ x ≤ 1) :
    0 ≤ values.sum ∧ values.sum ≤ values.length := by
  refine ⟨List.sum_nonneg fun x hx => (h x hx).1, ?_⟩
  have hle := List.sum_le_card_nsmul values 1 fun x hx => (h x hx).2
  rwa [nsmul_one] at hle

section Run

variable {ctl : TreeSearchController K W} {rt : Runtime K W} {task : Str} {draws : Nat}
  {c : Stage K × RunState K W} {w : RewardWeights K}

/-- Every backpropagated value was shaped from a score and lies in the unit interval. -/
theorem credit_unit (hmodel : ctl.rewardModel = some (RewardShaper.shape w))
    (h : Reach ctl rt task draws c) {p : Nat × K} (hp : p ∈ creditsIn c.2.log) :
    0 ≤ p.2 ∧ p.2 ≤ 1 := by
  obtain ⟨v, -, hshaped⟩ := h.valueLedger.known p (List.mem_append_right _ hp)
  rw [hmodel] at hshaped
  obtain ⟨critique, hentry⟩ := hshaped
  obtain ⟨model, arena, metadata, world, hmodel', hanswer⟩ := h.shapes_answered hentry
  rw [hmodel] at hmodel'
  cases hmodel'
  rw [show p.2 = RewardShaper.value w _ v.score critique from Except.ok.inj hanswer]
  exact RewardShaper.value_unit w _ (RewardShaper.inUnit_iff.mp v.unit) critique

/-- The statistics of a node are those of samples from the unit interval. -/
structure Moderate (node : ThoughtNode K) : Prop where
  nonneg : 0 ≤ node.valueSum
  le_visits : node.valueSum ≤ node.visits
  mean_nonneg : 0 ≤ node.meanValue
  mean_le_one : node.meanValue ≤ 1

/-- A sum within bounds has its mean in the unit interval, also before any visit. -/
theorem Moderate.of_sum {node : ThoughtNode K} (hnonneg : 0 ≤ node.valueSum)
    (hle : node.valueSum ≤ node.visits) : Moderate node := by
  refine ⟨hnonneg, hle, ?_, ?_⟩ <;> rw [ThoughtNode.meanValue]
  · split
    · rw [ExactField.zero_eq]
    · rw [ExactField.div_eq, ExactField.ofNat_eq]
      exact div_nonneg hnonneg (by positivity)
  · split
    · rw [ExactField.zero_eq]
      exact zero_le_one
    · rename_i hvisited
      have hpositive : (0 : K) < node.visits := by exact_mod_cast Nat.pos_of_ne_zero hvisited
      rw [ExactField.div_eq, ExactField.ofNat_eq, div_le_one hpositive]
      exact hle

theorem moderate_of_reach (hmodel : ctl.rewardModel = some (RewardShaper.shape w))
    (h : Reach ctl rt task draws c) {n : Nat} (hn : n < c.2.tree.arena.size) :
    Moderate (c.2.tree.arena.node n) := by
  have : ExactSum K := ExactField.exactSum K
  have hunit : ∀ x ∈ (valuesBelow c.2.tree.arena (creditsIn c.2.log) n).map Prod.snd,
      0 ≤ x ∧ x ≤ 1 := by
    intro x hx
    obtain ⟨p, hp, rfl⟩ := List.mem_map.mp hx
    exact credit_unit hmodel h (List.mem_filter.mp hp).1
  have hsum := sum_unit hunit
  rw [← h.summed hn, List.length_map, ← h.counted.visits n hn] at hsum
  exact .of_sum hsum.1 hsum.2

end Run

section ShapedRuns

/-- In exact arithmetic shaping stays in the unit interval and is monotone in each of its inputs,
and the statistics along every run that uses it stay within the bounds this gives. -/
theorem shape_bounds_statistics (w : RewardWeights K) :
    (∀ (node : Nat) (baseScore : K) (critique : Option (Critique K)) (arena : Arena K)
      (metadata : Nat → Metadata K) (world : W),
      (RewardShaper.shape w node baseScore critique arena metadata world).answer =
        .ok (RewardShaper.value w (arena.node node).depth baseScore critique)) ∧
    (∀ depth baseScore critique, 0 ≤ baseScore → baseScore ≤ 1 →
      0 ≤ RewardShaper.value w depth baseScore critique ∧
        RewardShaper.value w depth baseScore critique ≤ 1) ∧
    (∀ depth critique, Monotone fun baseScore => RewardShaper.value w depth baseScore critique) ∧
    (∀ depth baseScore (critique critique' : Critique K), critique.severity ≤ critique'.severity →
      RewardShaper.value w depth baseScore (some critique') ≤
        RewardShaper.value w depth baseScore (some critique)) ∧
    (∀ baseScore critique, Antitone fun depth => RewardShaper.value w depth baseScore critique) ∧
    (∀ depth baseScore critique, RewardShaper.value w depth baseScore (some critique) ≤
      RewardShaper.value w depth baseScore none) ∧
    ∀ (ctl : TreeSearchController K W) (rt : Runtime K W) (task : Str) (draws : Nat) (world : W),
      ctl.rewardModel = some (RewardShaper.shape w) →
        ∀ a ∈ (finalState (ctl.run rt task draws world)).arenas, ∀ n, n < a.size →
          Moderate (a.node n) := by
  have hterm : ∀ {critique critique' : Critique K}, critique.severity ≤ critique'.severity →
      RewardShaper.critiqueTerm (some critique') ≤ RewardShaper.critiqueTerm (some critique) := by
    intro critique critique' h
    rw [RewardShaper.critiqueTerm, RewardShaper.critiqueTerm, ExactField.sub_eq, ExactField.sub_eq]
    linarith
  refine ⟨fun _ _ _ _ _ _ => rfl, ?_, ?_, ?_, ?_, ?_, ?_⟩
  · intro depth baseScore critique hnonneg hle
    exact RewardShaper.value_unit w depth ⟨hnonneg, hle⟩ critique
  · intro depth critique baseScore baseScore' h
    exact RewardShaper.value_le_value w h le_rfl le_rfl
  · intro depth baseScore critique critique' h
    exact RewardShaper.value_le_value w le_rfl (hterm h) le_rfl
  · intro baseScore critique depth depth' h
    exact RewardShaper.value_le_value w le_rfl le_rfl (RewardShaper.depthTerm_antitone w h)
  · intro depth baseScore critique
    refine RewardShaper.value_le_value w le_rfl ?_ le_rfl
    have hunit := RewardShaper.critiqueTerm_unit (some critique)
    rw [RewardShaper.critiqueTerm, ExactField.one_eq]
    exact hunit.2
  · intro ctl rt task draws world hmodel a ha n hn
    obtain ⟨st, h⟩ := run_reach ctl rt task draws world
    obtain ⟨c₀, h₀, rfl⟩ := h.shown ha
    exact moderate_of_reach hmodel h₀ hn

end ShapedRuns

end Exact

/-- The default weights pass their own check. -/
theorem standard_checked : (WeightFields.standard : WeightFields ℚ).postInit = .ok () := by
  decide +kernel

/-- A controller that shapes with the default weights. -/
def shapingController : TreeSearchController ℚ Unit :=
  { pathController smallConfig (fun _ => [lit "go on"]) fun _ => halfway with
    rewardModel := some (RewardShaper.shape ⟨.standard, standard_checked⟩) }

/-- The same for the default weights and a small run. -/
theorem shape_bounds_statistics_standard :
    0 ≤ RewardShaper.value (⟨.standard, standard_checked⟩ : RewardWeights ℚ) 3 (1 / 2) none ∧
      Moderate ((finalState (shapingController.run (Runtime.still fun _ _ => 0) (lit "task") 0
        ())).tree.arena.node 0) := by
  obtain ⟨-, hunit, -, -, -, -, hrun⟩ := shape_bounds_statistics (W := Unit)
    (⟨.standard, standard_checked⟩ : RewardWeights ℚ)
  exact ⟨(hunit 3 (1 / 2) none (by norm_num) (by norm_num)).1,
    hrun shapingController _ _ 0 () rfl _ (List.mem_cons_self ..) 0 (Arena.linked _).nonempty⟩

end CognitiveTree.Feedback
