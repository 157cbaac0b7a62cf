import Mathlib.Algebra.Order.Field.Rat
import CognitiveTree.Core.Text

/-!
# Floating-point numbers

`PyFloat` lists the built-in operations on floats a program may use, without any
law: comparisons are Boolean, so a NaN is a value like any other, and formatting
and rounding are whatever the runtime prints. Results that need more ask for it by
name: `UnitOrder` is the order of the numbers that passed a range check, and
`ExactSum` is exact addition.
-/

namespace CognitiveTree

/-- The float operations of the object language. -/
class PyFloat (K : Type) where
  /-- The literals `0.0` and `1.0`. -/
  zero : K
  one : K
  /-- `math.inf`. -/
  inf : K
  /-- Conversion of a non-negative integer operand. -/
  ofNat : Nat → K
  add : K → K → K
  mul : K → K → K
  div : K → K → K
  /-- `math.log`. -/
  log : K → K
  /-- `math.sqrt`. -/
  sqrt : K → K
  /-- `a < b`. -/
  lt : K → K → Bool
  /-- `a <= b`. -/
  le : K → K → Bool
  /-- `a == b`. -/
  eq : K → K → Bool
  /-- `round(x, digits)`. -/
  round : K → Nat → K
  /-- `f"{x:.3f}"`. -/
  fixed3 : K → Str
  /-- `f"{x:g}"`. -/
  general : K → Str

namespace PyFloat

variable {K : Type} [PyFloat K]

/-- `a > b`. -/
def gt (a b : K) : Bool := lt b a

/-- The range check `0.0 <= x <= 1.0`. -/
def inUnit (x : K) : Bool := le zero x && le x one

/-- `min(a, *rest)`. -/
def least (a : K) (rest : List K) : K := rest.foldl (fun m x => if lt x m then x else m) a

/-- `max(a, *rest)`. -/
def greatest (a : K) (rest : List K) : K := rest.foldl (fun m x => if gt x m then x else m) a

/-- The literal with one decimal, `0.7` for seven: division rounds correctly. -/
def tenths (n : Nat) : K := div (ofNat n) (ofNat 10)

/-- `(a, b) > (a', b')` on pairs of floats: the first components that differ decide. -/
def pairGt (x y : K × K) : Bool :=
  if eq x.1 y.1 then gt x.2 y.2 else gt x.1 y.1

/-- `(a, b, n) > (a', b', n')` with an integer in the last place. -/
def tripleGt (x y : K × K × Nat) : Bool :=
  if eq x.1 y.1 then (if eq x.2.1 y.2.1 then decide (y.2.2 < x.2.2) else gt x.2.1 y.2.1)
  else gt x.1 y.1

end PyFloat

/-- Floats that passed `0.0 <= x <= 1.0` are numbers, and numbers are totally
ordered by their comparisons. -/
class UnitOrder (K : Type) [PyFloat K] : Prop where
  lt_asymm : ∀ a b : K, PyFloat.inUnit a = true → PyFloat.inUnit b = true →
    PyFloat.lt a b = true → PyFloat.lt b a = false
  lt_negTrans : ∀ a b c : K, PyFloat.inUnit a = true → PyFloat.inUnit b = true →
    PyFloat.inUnit c = true → PyFloat.lt a b = false → PyFloat.lt b c = false →
    PyFloat.lt a c = false

/-- The literals from `0.0` to `1.0` with one decimal lie in the unit interval. -/
class UnitTenths (K : Type) [PyFloat K] : Prop where
  inUnit_tenths : ∀ n ≤ 10, PyFloat.inUnit (PyFloat.tenths n : K) = true

/-- Addition is exact: no rounding, no special values. -/
class ExactSum (K : Type) [PyFloat K] [AddCommMonoid K] : Prop where
  zero_eq : (PyFloat.zero : K) = 0
  add_eq : ∀ a b : K, PyFloat.add a b = a + b

/-- Dividing counts by one total keeps their order, and zero is not below itself. -/
class MonotoneRatio (K : Type) [PyFloat K] : Prop where
  zero_not_lt : PyFloat.lt (PyFloat.zero : K) PyFloat.zero = false
  not_lt : ∀ a b n : Nat, a ≤ b → PyFloat.lt (PyFloat.div (PyFloat.ofNat b) (PyFloat.ofNat n) : K)
    (PyFloat.div (PyFloat.ofNat a) (PyFloat.ofNat n)) = false

end CognitiveTree
