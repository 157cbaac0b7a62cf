import Mathlib.Tactic.Linarith
import Mathlib.Tactic.Positivity
import CognitiveTree.Core.Float

/-!
# Exact rational arithmetic

The rationals carry the float operations without rounding. They interpret the
arithmetic of concrete runs: the square root and the logarithm are only ever
multiplied by an exploration weight of zero there, and `inf` is not reached.
-/

namespace CognitiveTree

/-- Nearest integer, halves to even. -/
def roundHalfEven (q : ℚ) : Int :=
  let twice := 2 * q
  if twice.den = 1 ∧ twice.num % 2 = 1 then (if q.floor % 2 = 0 then q.floor else q.floor + 1)
  else (q + 1 / 2).floor

/-- A non-negative number with three decimals. -/
def showThousandths (q : ℚ) : Str :=
  let n := (roundHalfEven (q * 1000)).toNat
  let pad := Str.ofNat (1000 + n % 1000)
  Str.ofNat (n / 1000) ++ lit "." ++ pad.tail

instance : PyFloat ℚ where
  zero := 0
  one := 1
  inf := 10 ^ 308
  ofNat n := n
  add := (· + ·)
  mul := (· * ·)
  div := (· / ·)
  log _ := 0
  sqrt _ := 0
  lt a b := decide (a < b)
  le a b := decide (a ≤ b)
  eq a b := decide (a = b)
  round x digits := roundHalfEven (x * 10 ^ digits) / 10 ^ digits
  fixed3 := showThousandths
  general := showThousandths

theorem inUnit_zero : PyFloat.inUnit (0 : ℚ) = true := by decide +kernel

theorem inUnit_one : PyFloat.inUnit (1 : ℚ) = true := by decide +kernel

instance : UnitOrder ℚ where
  lt_asymm a b _ _ h := by
    simp only [PyFloat.lt, decide_eq_true_eq, decide_eq_false_iff_not, not_lt] at h ⊢
    exact h.le
  lt_negTrans a b c _ _ _ hab hbc := by
    simp only [PyFloat.lt, decide_eq_false_iff_not, not_lt] at hab hbc ⊢
    exact hbc.trans hab

instance : UnitTenths ℚ where
  inUnit_tenths n h := by
    have hle : (n : ℚ) / (10 : Nat) ≤ 1 := by
      rw [div_le_one (by norm_num)]
      exact_mod_cast h
    have hnonneg : (0 : ℚ) ≤ (n : ℚ) / (10 : Nat) := by positivity
    exact Bool.and_eq_true_iff.mpr ⟨decide_eq_true hnonneg, decide_eq_true hle⟩

instance : MonotoneRatio ℚ where
  zero_not_lt := by decide +kernel
  not_lt a b n h := by
    have hab : (a : ℚ) ≤ b := by exact_mod_cast h
    have hn : (0 : ℚ) ≤ n := by positivity
    simp only [PyFloat.lt, decide_eq_false_iff_not, not_lt]
    exact div_le_div_of_nonneg_right hab hn

instance : ExactSum ℚ where
  zero_eq := rfl
  add_eq _ _ := rfl

end CognitiveTree
