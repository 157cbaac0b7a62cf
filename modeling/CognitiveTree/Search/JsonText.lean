import CognitiveTree.Core.Lines
import CognitiveTree.Search.Conversion
import CognitiveTree.Search.JsonValue

/-!
# The JSON text of a value

`json.dumps(value, indent=2)`, with and without `ensure_ascii`. A value without a JSON form, an
integer with too many digits and a nesting beyond the recursion limit raise.
-/

namespace CognitiveTree.Search

open Json

/-- The letters behind a backslash. -/
def letters : List (CodePoint × CodePoint) :=
  [(quote, quote), (backslash, backslash), (8, 98), (12, 102), (10, 110), (13, 114), (9, 116)]

/-- A lower-case hexadecimal digit. -/
def hexLetter (n : Nat) : CodePoint := Fin.ofNat 0x110000 (if n < 10 then 48 + n else 87 + n)

/-- `\uXXXX` of a code unit. -/
def unitText (n : Nat) : Str :=
  [backslash, unitEscape, hexLetter (n / 4096 % 16), hexLetter (n / 256 % 16),
    hexLetter (n / 16 % 16), hexLetter (n % 16)]

/-- A character inside a string. -/
def encodeChar (ascii : Bool) (c : CodePoint) : Str :=
  match letters.lookup c with
  | some letter => [backslash, letter]
  | none =>
    if c.val < 32 then unitText c.val
    else if ascii && 126 < c.val then
      if c.val < 0x10000 then unitText c.val
      else unitText (0xd800 + (c.val - 0x10000) / 1024) ++ unitText (0xdc00 + (c.val - 0x10000) % 1024)
    else [c]

def encodeString (ascii : Bool) (s : Str) : Str := quote :: (s.flatMap (encodeChar ascii) ++ [quote])

/-- A new line at this level of an indentation by two spaces. -/
def newline (level : Nat) : Str := 10 :: List.replicate (2 * level) 32

def recursionError : Exc :=
  ⟨lit "RecursionError", lit "maximum recursion depth exceeded while encoding a JSON object"⟩

section Encoder

variable {K : Type} [PyFloat K] [PyDecimal K] (limits : Limits) (ascii : Bool)

/-- `int.__repr__(i)`, which refuses integers with too many digits. -/
def encodeInt (i : Int) : Except Exc Str :=
  if limits.digits.any fun limit => limit < (Str.ofNat i.natAbs).length then
    .error (valueError (lit "Exceeds the limit for integer string conversion"))
  else .ok (Str.ofInt i)

/-- A container at this level is within the recursion limit. -/
def enterLevel (level : Nat) : Except Exc Unit :=
  if limits.depth.any fun limit => limit ≤ level then .error recursionError else .ok ()

mutual

/-- The text of a value at a level of the indentation. -/
def encode (level : Nat) : PyVal K → Except Exc Str
  | .none => .ok (lit "null")
  | .bool b => .ok (if b then lit "true" else lit "false")
  | .int i => encodeInt limits i
  | .float x => .ok (PyDecimal.repr x)
  | .str s => .ok (encodeString ascii s)
  | .list [] => do
    enterLevel limits level
    pure (lit "[]")
  | .list (v :: vs) => do
    enterLevel limits level
    let first ← encode (level + 1) v
    let more ← encodeElements (level + 1) vs
    pure (lit "[" ++ newline (level + 1) ++ first ++ more ++ newline level ++ lit "]")
  | .dict [] => do
    enterLevel limits level
    pure (lit "\x7b\x7d")
  | .dict ((key, v) :: items) => do
    enterLevel limits level
    let first ← encode (level + 1) v
    let more ← encodeItems (level + 1) items
    pure (lit "\x7b" ++ newline (level + 1) ++ encodeString ascii key ++ lit ": " ++ first ++ more ++
      newline level ++ lit "\x7d")
  | .object tag => .error (typeError (lit "Object of type " ++ (PyVal.object tag : PyVal K).typeName ++
      lit " is not JSON serializable"))

/-- The elements behind the first one. -/
def encodeElements (level : Nat) : List (PyVal K) → Except Exc Str
  | [] => .ok []
  | v :: vs => do
    let first ← encode level v
    let more ← encodeElements level vs
    pure (lit "," ++ newline level ++ first ++ more)

/-- The items behind the first one. -/
def encodeItems (level : Nat) : List (Str × PyVal K) → Except Exc Str
  | [] => .ok []
  | (key, v) :: items => do
    let first ← encode level v
    let more ← encodeItems level items
    pure (lit "," ++ newline level ++ encodeString ascii key ++ lit ": " ++ first ++ more)

end

/-- `json.dumps(value, ensure_ascii=ascii, indent=2)`. -/
def dumps (value : PyVal K) : Except Exc Str := encode limits ascii 0 value

end Encoder

end CognitiveTree.Search
