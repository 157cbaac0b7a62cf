import CognitiveTree.Core.Number
import CognitiveTree.Json.Decoder
import CognitiveTree.Search.Policy

/-!
# The values of a JSON text

The hooks that `json.loads` uses by default: a key that occurs twice keeps its last value.
-/

namespace CognitiveTree.Search

open Json

/-- The floats of JSON texts. -/
class PyDecimal (K : Type) where
  /-- `float(text)` of a number -/
  decimal : Str → K
  nan : K
  negativeInfinity : K
  /-- the text `json.dumps` writes for a float -/
  repr : K → Str

/-- The number that a numeral spells. -/
def decimalValue (n : Numeral) : ℚ :=
  let digits := n.integer.filter isDigit ++ n.fraction.filter isDigit
  let magnitude : Nat := digits.foldl (fun v c => v * 10 + (c.val - 48)) 0
  let power : Nat := (n.exponent.filter isDigit).foldl (fun v c => v * 10 + (c.val - 48)) 0
  let scale : ℚ := if minus ∈ n.exponent then 1 / 10 ^ power else 10 ^ power
  (if minus ∈ n.integer then -1 else 1) * magnitude / 10 ^ (n.fraction.filter isDigit).length * scale

instance : PyDecimal ℚ where
  decimal text := ((scanNumber text).map fun p => decimalValue p.1).getD 0
  nan := 0
  negativeInfinity := 0
  repr := PyFloat.general

instance : PyDecimal RangedRat := inferInstanceAs (PyDecimal ℚ)

/-- The default hooks. -/
def pyHooks (K : Type) [PyFloat K] [PyDecimal K] : Hooks (PyVal K) where
  null := .none
  bool := .bool
  nan := .float PyDecimal.nan
  infinity := .float PyFloat.inf
  negativeInfinity := .float PyDecimal.negativeInfinity
  int := .int
  float text := .float (PyDecimal.decimal text)
  str := .str
  list := .list
  dict items := .dict (items.foldl (fun d item => Dict.set d item.1 item.2) [])

end CognitiveTree.Search
