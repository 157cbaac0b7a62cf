import CognitiveTree.Core.Rational

/-!
# Numbers and texts

What a runtime decides about the conversion of single floats, integers and texts. Like the
arithmetic of `PyFloat` it comes without any law.
-/

namespace CognitiveTree

/-- What `int(x)` makes of a float. -/
inductive IntegerPart where
  | value (i : Int)
  | infinite
  | notANumber

/-- Subtraction, and the conversions between floats, integers and texts. -/
class PyNumber (K : Type) where
  sub : K → K → K
  /-- `int(x)` of a float -/
  truncate : K → IntegerPart
  /-- `float(i)` of an integer, `none` beyond the largest float -/
  ofInt : Int → Option K
  /-- `int(s)` and `float(s)` of a text that spells a number -/
  parseInt : Str → Option Int
  parseFloat : Str → Option K
  /-- `repr(s)` of a text -/
  quote : Str → Str

instance : PyNumber ℚ where
  sub := (· - ·)
  truncate q := .value (q.num.tdiv q.den)
  ofInt i := some i
  parseInt _ := none
  parseFloat _ := none
  quote s := lit "'" ++ s ++ lit "'"

/-- Equality of floats is symmetric and transitive, and reflexive on what can be compared. -/
class FloatEquality (K : Type) [PyFloat K] : Prop where
  refl_of_le : ∀ a b : K, PyFloat.le a b = true → PyFloat.eq a a = true
  symm : ∀ a b : K, PyFloat.eq a b = true → PyFloat.eq b a = true
  trans : ∀ a b c : K, PyFloat.eq a b = true → PyFloat.eq b c = true → PyFloat.eq a c = true

instance : FloatEquality ℚ where
  refl_of_le _ _ _ := decide_eq_true rfl
  symm _ _ h := decide_eq_true (of_decide_eq_true h).symm
  trans _ _ _ h h' := decide_eq_true ((of_decide_eq_true h).trans (of_decide_eq_true h'))

/-- Subtraction is exact. -/
class ExactDifference (K : Type) [PyNumber K] [AddGroup K] : Prop where
  sub_eq : ∀ a b : K, PyNumber.sub a b = a - b

instance : ExactDifference ℚ where
  sub_eq _ _ := rfl

/-- The operations are those of an ordered field: no rounding and no special values. -/
class ExactField (K : Type) [PyFloat K] [PyNumber K] [Field K] [LinearOrder K] : Prop where
  zero_eq : (PyFloat.zero : K) = 0
  one_eq : (PyFloat.one : K) = 1
  ofNat_eq : ∀ n : Nat, (PyFloat.ofNat n : K) = n
  add_eq : ∀ a b : K, PyFloat.add a b = a + b
  sub_eq : ∀ a b : K, PyNumber.sub a b = a - b
  mul_eq : ∀ a b : K, PyFloat.mul a b = a * b
  div_eq : ∀ a b : K, PyFloat.div a b = a / b
  lt_iff : ∀ a b : K, PyFloat.lt a b = true ↔ a < b
  le_iff : ∀ a b : K, PyFloat.le a b = true ↔ a ≤ b

instance : ExactField ℚ where
  zero_eq := rfl
  one_eq := rfl
  ofNat_eq _ := rfl
  add_eq _ _ := rfl
  sub_eq _ _ := rfl
  mul_eq _ _ := rfl
  div_eq _ _ := rfl
  lt_iff _ _ := decide_eq_true_iff
  le_iff _ _ := decide_eq_true_iff

/-- Field addition is exact. -/
theorem ExactField.exactSum (K : Type) [PyFloat K] [PyNumber K] [Field K] [LinearOrder K]
    [ExactField K] : ExactSum K where
  zero_eq := ExactField.zero_eq
  add_eq := ExactField.add_eq

/-- What is below a number is at most it, and `0.0` and `1.0` are in their order. -/
class OrderedLiterals (K : Type) [PyFloat K] : Prop where
  le_of_lt : ∀ a b : K, PyFloat.lt a b = true → PyFloat.le a b = true
  zero_le_zero : PyFloat.le (PyFloat.zero : K) PyFloat.zero = true
  zero_le_one : PyFloat.le (PyFloat.zero : K) PyFloat.one = true
  one_le_one : PyFloat.le (PyFloat.one : K) PyFloat.one = true

/-- The least magnitude that rounds beyond the largest float. -/
def floatLimit : Nat := 2 ^ 1024 - 2 ^ 970

theorem one_lt_pow_sub_pow {m n : Nat} (h : m + 2 ≤ n) : 1 < 2 ^ n - 2 ^ m := by
  have hle : 2 ^ (m + 2) ≤ 2 ^ n := Nat.pow_le_pow_right (by decide) h
  have hpos : 1 ≤ 2 ^ m := Nat.one_le_two_pow
  rw [pow_add] at hle
  omega

theorem one_lt_floatLimit : 1 < floatLimit := one_lt_pow_sub_pow (by decide)

/-- Beside a much smaller power, a power of two is only reached by a power as large. -/
theorem pow_sub_pow_le_pow_iff {m n k : Nat} (h : m + 2 ≤ n) : 2 ^ n - 2 ^ m ≤ 2 ^ k ↔ n ≤ k := by
  constructor
  · intro hle
    by_contra hlt
    have hk : 2 ^ (k + 1) ≤ 2 ^ n := Nat.pow_le_pow_right (by decide) (by omega)
    have hm : 2 ^ (m + 2) ≤ 2 ^ n := Nat.pow_le_pow_right (by decide) h
    have hpos : 1 ≤ 2 ^ m := Nat.one_le_two_pow
    rw [pow_add] at hk hm
    omega
  · intro hle
    exact (Nat.sub_le _ _).trans (Nat.pow_le_pow_right (by decide) hle)

theorem floatLimit_le_two_pow_iff (k : Nat) : floatLimit ≤ 2 ^ k ↔ 1024 ≤ k :=
  pow_sub_pow_le_pow_iff (by decide)

/-- Exactly the integers below the limit are converted. -/
class IntegerRange (K : Type) [PyNumber K] : Prop where
  ofInt_eq_none : ∀ i : Int, (PyNumber.ofInt i : Option K) = none ↔ floatLimit ≤ i.natAbs

/-- Exact numbers with the integer range of the floats. -/
def RangedRat : Type := ℚ

namespace RangedRat

instance : PyFloat RangedRat := inferInstanceAs (PyFloat ℚ)

instance : PyNumber RangedRat where
  sub := PyNumber.sub (K := ℚ)
  truncate := PyNumber.truncate (K := ℚ)
  ofInt i := if floatLimit ≤ i.natAbs then none else some (i : ℚ)
  parseInt := PyNumber.parseInt ℚ
  parseFloat := PyNumber.parseFloat (K := ℚ)
  quote := PyNumber.quote ℚ

instance : IntegerRange RangedRat where
  ofInt_eq_none i := by
    change (if floatLimit ≤ i.natAbs then none else some (i : ℚ)) = none ↔ _
    split <;> simp [*]

instance : OrderedLiterals ℚ where
  le_of_lt _ _ h := decide_eq_true (of_decide_eq_true h).le
  zero_le_zero := decide_eq_true le_rfl
  zero_le_one := decide_eq_true zero_le_one
  one_le_one := decide_eq_true le_rfl

instance : OrderedLiterals RangedRat := inferInstanceAs (OrderedLiterals ℚ)

end RangedRat

end CognitiveTree
