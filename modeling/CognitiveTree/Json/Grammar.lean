import CognitiveTree.Core.Text

/-!
# The grammar of JSON texts

The grammar is the one a decoder with its default options accepts: besides the standard it has the
words `NaN`, `Infinity` and `-Infinity`, and a text may contain any code point. What the values of
a text are is left to hooks. A derivation relates a text to what is left behind it.
-/

namespace CognitiveTree.Json

/-- The characters with a meaning in JSON. -/
def quote : CodePoint := 34
def backslash : CodePoint := 92
def openBrace : CodePoint := 123
def closeBrace : CodePoint := 125
def openBracket : CodePoint := 91
def closeBracket : CodePoint := 93
def comma : CodePoint := 44
def colon : CodePoint := 58
def minus : CodePoint := 45
def dot : CodePoint := 46

/-- What a decoder makes of the parts of a text. -/
structure Hooks (V : Type) where
  null : V
  bool : Bool → V
  nan : V
  infinity : V
  negativeInfinity : V
  /-- `parse_int` behind `int` -/
  int : Int → V
  /-- `parse_float` -/
  float : Str → V
  str : Str → V
  list : List V → V
  /-- `object_pairs_hook` -/
  dict : List (Str × V) → V

/-- Whitespace between tokens. -/
def isBlank (c : CodePoint) : Bool := c = 32 || c = 9 || c = 10 || c = 13

def isDigit (c : CodePoint) : Bool := 48 ≤ c.val && c.val ≤ 57

/-- The value of a hexadecimal digit. -/
def hexDigit (c : CodePoint) : Option Nat :=
  if 48 ≤ c.val && c.val ≤ 57 then some (c.val - 48)
  else if 65 ≤ c.val && c.val ≤ 70 then some (c.val - 55)
  else if 97 ≤ c.val && c.val ≤ 102 then some (c.val - 87)
  else none

/-- The code unit of four hexadecimal digits. -/
def hex4 (a b c d : CodePoint) : Option CodePoint := do
  let a ← hexDigit a
  let b ← hexDigit b
  let c ← hexDigit c
  let d ← hexDigit d
  pure (Fin.ofNat 0x110000 (((a * 16 + b) * 16 + c) * 16 + d))

/-- The letter of an escaped code unit. -/
def unitEscape : CodePoint := 117

/-- The other escapes, by their letters. -/
def escapes : List (CodePoint × CodePoint) :=
  [(quote, quote), (backslash, backslash), (47, 47), (98, 8), (102, 12), (110, 10), (114, 13),
    (116, 9)]

/-- A character that stands for itself inside a string. -/
def isPlain (c : CodePoint) : Bool := 32 ≤ c.val && c ≠ quote && c ≠ backslash

/-- One character of a string as it was written. -/
inductive Piece where
  | plain (c : CodePoint)
  /-- a code unit in hexadecimal -/
  | unit (c : CodePoint)

def isHigh (c : CodePoint) : Bool := 0xd800 ≤ c.val && c.val ≤ 0xdbff

def isLow (c : CodePoint) : Bool := 0xdc00 ≤ c.val && c.val ≤ 0xdfff

/-- The character of a surrogate pair. -/
def paired (high low : CodePoint) : CodePoint :=
  Fin.ofNat 0x110000 (0x10000 + (high.val - 0xd800) * 1024 + (low.val - 0xdc00))

/-- The string that was written; a surrogate pair of code units is one character. -/
def joined : List Piece → Str
  | .unit high :: .unit low :: pieces =>
    if isHigh high && isLow low then paired high low :: joined pieces
    else high :: joined (.unit low :: pieces)
  | .unit c :: pieces | .plain c :: pieces => c :: joined pieces
  | [] => []

/-- A string behind its opening quote. -/
inductive Body : Str → Str → List Piece → Prop
  | close {rest : Str} : Body (quote :: rest) rest []
  | plain {c : CodePoint} {s rest : Str} {pieces : List Piece} : isPlain c = true →
      Body s rest pieces → Body (c :: s) rest (.plain c :: pieces)
  | escape {e c : CodePoint} {s rest : Str} {pieces : List Piece} : escapes.lookup e = some c →
      Body s rest pieces → Body (backslash :: e :: s) rest (.plain c :: pieces)
  | unit {a b c d u : CodePoint} {s rest : Str} {pieces : List Piece} : hex4 a b c d = some u →
      Body s rest pieces →
      Body (backslash :: unitEscape :: a :: b :: c :: d :: s) rest (.unit u :: pieces)

/-- A number as it was written. -/
structure Numeral where
  integer : Str
  fraction : Str
  exponent : Str

namespace Numeral

def text (n : Numeral) : Str := n.integer ++ n.fraction ++ n.exponent

/-- An optional sign, and digits without a leading zero. -/
def IsInteger (t : Str) : Prop :=
  ∃ sign d ds, (sign = [] ∨ sign = [minus]) ∧ isDigit d = true ∧ (ds.all isDigit) = true ∧
    (d = 48 → ds = []) ∧ t = sign ++ d :: ds

def IsFraction (t : Str) : Prop :=
  t = [] ∨ ∃ ds, ds ≠ [] ∧ (ds.all isDigit) = true ∧ t = dot :: ds

/-- The letters of an exponent. -/
def isMark (c : CodePoint) : Bool := c = 101 || c = 69

def isSign (c : CodePoint) : Bool := c = 43 || c = minus

def IsExponent (t : Str) : Prop :=
  t = [] ∨ ∃ mark sign ds, isMark mark = true ∧ (sign = [] ∨ ∃ c, isSign c = true ∧ sign = [c]) ∧
    ds ≠ [] ∧ (ds.all isDigit) = true ∧ t = mark :: (sign ++ ds)

/-- The number is written as the grammar wants it. -/
structure Valid (n : Numeral) : Prop where
  integer : IsInteger n.integer
  fraction : IsFraction n.fraction
  exponent : IsExponent n.exponent

/-- A number without a fraction and an exponent is an integer. -/
def isInt (n : Numeral) : Bool := n.fraction.isEmpty && n.exponent.isEmpty

/-- The digits behind the sign. -/
def digits (n : Numeral) : Str := n.integer.filter isDigit

/-- `int(text)` of an integer. -/
def toInt (n : Numeral) : Int :=
  let magnitude := n.digits.foldl (fun (v : Nat) c => v * 10 + (c.val - 48)) 0
  if n.integer.head? = some minus then -(magnitude : Int) else magnitude

end Numeral

namespace Hooks

variable {V : Type} (H : Hooks V)

/-- The words and their values. -/
def words : List (Str × V) :=
  [(lit "null", H.null), (lit "true", H.bool true), (lit "false", H.bool false), (lit "NaN", H.nan),
    (lit "Infinity", H.infinity), (lit "-Infinity", H.negativeInfinity)]

def number (n : Numeral) : V := if n.isInt then H.int n.toInt else H.float n.text

end Hooks

/-- Any whitespace. -/
def Blank (s rest : Str) : Prop := ∃ w : Str, (w.all isBlank) = true ∧ s = w ++ rest

/-- What a derivation is about. -/
inductive Part (V : Type) where
  | value (v : V)
  /-- behind the opening bracket of an array that is not empty -/
  | elements (vs : List V)
  /-- behind the opening brace of an object that is not empty -/
  | members (items : List (Str × V))

/-- The text `s` begins with this part, and `rest` is behind it. -/
inductive Denotes {V : Type} (H : Hooks V) : Str → Str → Part V → Prop
  | word {w rest : Str} {v : V} : (w, v) ∈ H.words → Denotes H (w ++ rest) rest (.value v)
  | number {n : Numeral} {rest : Str} : n.Valid →
      Denotes H (n.text ++ rest) rest (.value (H.number n))
  | string {s rest : Str} {pieces : List Piece} : Body s rest pieces →
      Denotes H (quote :: s) rest (.value (H.str (joined pieces)))
  | emptyList {s rest : Str} : Blank s (closeBracket :: rest) →
      Denotes H (openBracket :: s) rest (.value (H.list []))
  | list {s s' rest : Str} {vs : List V} : Blank s s' →
      Denotes H s' (closeBracket :: rest) (.elements vs) →
      Denotes H (openBracket :: s) rest (.value (H.list vs))
  | element {s s' rest : Str} {v : V} : Denotes H s s' (.value v) → Blank s' rest →
      Denotes H s rest (.elements [v])
  | elements {s s₁ s₂ s₃ rest : Str} {v : V} {vs : List V} : Denotes H s s₁ (.value v) →
      Blank s₁ (comma :: s₂) → Blank s₂ s₃ → Denotes H s₃ rest (.elements vs) →
      Denotes H s rest (.elements (v :: vs))
  | emptyDict {s rest : Str} : Blank s (closeBrace :: rest) →
      Denotes H (openBrace :: s) rest (.value (H.dict []))
  | dict {s s' rest : Str} {items : List (Str × V)} : Blank s s' →
      Denotes H s' (closeBrace :: rest) (.members items) →
      Denotes H (openBrace :: s) rest (.value (H.dict items))
  | member {s s₁ s₂ s₃ s₄ rest : Str} {key : List Piece} {v : V} : Body s s₁ key →
      Blank s₁ (colon :: s₂) → Blank s₂ s₃ → Denotes H s₃ s₄ (.value v) → Blank s₄ rest →
      Denotes H (quote :: s) rest (.members [(joined key, v)])
  | members {s s₁ s₂ s₃ s₄ s₅ s₆ rest : Str} {key : List Piece} {v : V} {items : List (Str × V)} :
      Body s s₁ key → Blank s₁ (colon :: s₂) → Blank s₂ s₃ → Denotes H s₃ s₄ (.value v) →
      Blank s₄ (comma :: s₅) → Blank s₅ s₆ → Denotes H s₆ rest (.members items) →
      Denotes H (quote :: s) rest (.members ((joined key, v) :: items))

/-- The text is this value, with whitespace around it. -/
def IsText {V : Type} (H : Hooks V) (s : Str) (v : V) : Prop :=
  ∃ s' rest, Blank s s' ∧ Denotes H s' rest (.value v) ∧ Blank rest []

end CognitiveTree.Json
