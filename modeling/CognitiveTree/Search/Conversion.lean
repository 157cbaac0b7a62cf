import CognitiveTree.Core.Number
import CognitiveTree.Search.Policy

/-!
# Conversions between values

`int(x)` and `float(x)` accept values of several types and raise one of three exceptions for
the others.
-/

namespace CognitiveTree.Search

def typeError (message : Str) : Exc := ⟨lit "TypeError", message⟩

def overflowError (message : Str) : Exc := ⟨lit "OverflowError", message⟩

def attributeError (message : Str) : Exc := ⟨lit "AttributeError", message⟩

namespace PyVal

variable {K : Type}

/-- `type(x).__name__` of a value. -/
def typeName : PyVal K → Str
  | .none => lit "NoneType"
  | .bool _ => lit "bool"
  | .int _ => lit "int"
  | .float _ => lit "float"
  | .str _ => lit "str"
  | .list _ => lit "list"
  | .dict _ => lit "dict"
  | .object _ => lit "object"

variable [PyNumber K]

/-- `int(x)`. -/
def toInt : PyVal K → Except Exc Int
  | .int i => .ok i
  | .bool b => .ok (if b then 1 else 0)
  | .float x => match PyNumber.truncate x with
    | .value i => .ok i
    | .infinite => .error (overflowError (lit "cannot convert float infinity to integer"))
    | .notANumber => .error (valueError (lit "cannot convert float NaN to integer"))
  | .str s => match PyNumber.parseInt K s with
    | some i => .ok i
    | Option.none => .error (valueError (lit "invalid literal for int() with base 10: " ++
        PyNumber.quote K s))
  | v => .error (typeError (lit "int() argument must be a string, a bytes-like object or a real " ++
      lit "number, not '" ++ v.typeName ++ lit "'"))

/-- `float(x)`. -/
def toFloat : PyVal K → Except Exc K
  | .float x => .ok x
  | .int i => match PyNumber.ofInt i with
    | some x => .ok x
    | Option.none => .error (overflowError (lit "int too large to convert to float"))
  | .bool b => match PyNumber.ofInt (if b then 1 else 0) with
    | some x => .ok x
    | Option.none => .error (overflowError (lit "int too large to convert to float"))
  | .str s => match PyNumber.parseFloat s with
    | some x => .ok x
    | Option.none => .error (valueError (lit "could not convert string to float: " ++ PyNumber.quote K s))
  | v => .error (typeError (lit "float() argument must be a string or a real number, not '" ++
      v.typeName ++ lit "'"))

end PyVal

end CognitiveTree.Search
