import CognitiveTree.Core.Text
import Mathlib.Data.List.Infix

/-!
# Lines, digits and indentation

Line splitting, the decimal digits a regular expression accepts, printed integers and the
removal of common indentation.
-/

namespace CognitiveTree

namespace Str

/-- The characters at which `str.splitlines` ends a line. -/
def isLineBreak (c : CodePoint) : Bool :=
  (10 ≤ c.val && c.val ≤ 13) || (28 ≤ c.val && c.val ≤ 30) || c.val == 0x85 ||
    c.val == 0x2028 || c.val == 0x2029

/-- `str.splitlines()` behind the characters of an unfinished line, last first. -/
def linesFrom : Str → Str → List Str
  | [], line => if line = [] then [] else [line.reverse]
  | [c], line => if isLineBreak c then [line.reverse] else [(c :: line).reverse]
  | c :: d :: cs, line =>
    -- a carriage return and the line feed behind it end one line
    if c.val = 13 ∧ d.val = 10 then line.reverse :: linesFrom cs []
    else if isLineBreak c then line.reverse :: linesFrom (d :: cs) []
    else linesFrom (d :: cs) (c :: line)

/-- `str.splitlines()`. -/
def splitLines (s : Str) : List Str := linesFrom s []

/-- The zeros of the blocks of ten decimal digits in Unicode 14, the version of Python 3.11. -/
def digitZeros : List Nat :=
  [0x30, 0x660, 0x6f0, 0x7c0, 0x966, 0x9e6, 0xa66, 0xae6, 0xb66, 0xbe6, 0xc66, 0xce6, 0xd66, 0xde6,
    0xe50, 0xed0, 0xf20, 0x1040, 0x1090, 0x17e0, 0x1810, 0x1946, 0x19d0, 0x1a80, 0x1a90, 0x1b50,
    0x1bb0, 0x1c40, 0x1c50, 0xa620, 0xa8d0, 0xa900, 0xa9d0, 0xa9f0, 0xaa50, 0xabf0, 0xff10, 0x104a0,
    0x10d30, 0x11066, 0x110f0, 0x11136, 0x111d0, 0x112f0, 0x11450, 0x114d0, 0x11650, 0x116c0,
    0x11730, 0x118e0, 0x11950, 0x11c50, 0x11d50, 0x11da0, 0x16a60, 0x16ac0, 0x16b50, 0x1d7ce,
    0x1d7d8, 0x1d7e2, 0x1d7ec, 0x1d7f6, 0x1e140, 0x1e2f0, 0x1e950, 0x1fbf0]

/-- The value of a decimal digit, which is what `\d` matches. -/
def digitValue (c : CodePoint) : Option Nat :=
  (digitZeros.find? fun first => first ≤ c.val && c.val ≤ first + 9).map fun first => c.val - first

/-- `str` of an integer. -/
def ofInt (i : Int) : Str := if i < 0 then lit "-" ++ ofNat i.natAbs else ofNat i.natAbs

/-- A printed number consists of the digits `0` to `9`. -/
theorem digit_of_mem_ofNat {n : Nat} {c : CodePoint} (h : c ∈ ofNat n) :
    48 ≤ c.val ∧ c.val ≤ 57 := by
  obtain ⟨d, hd, rfl⟩ := List.mem_map.mp h
  have hdigit := Nat.isDigit_of_mem_toDigits (by decide) (by decide) hd
  rw [Char.isDigit, Bool.and_eq_true, decide_eq_true_eq, decide_eq_true_eq] at hdigit
  exact hdigit

/-- The lower case of a letter `A` to `Z`. -/
def lowerChar (c : CodePoint) : CodePoint :=
  if h : 65 ≤ c.val ∧ c.val ≤ 90 then ⟨c.val + 32, by omega⟩ else c

/-- The string with its letters `A` to `Z` in lower case. -/
def lower (s : Str) : Str := s.map lowerChar

/-- `part in s`. -/
def contains (s part : Str) : Bool := decide (part <:+: s)

/-- A space or a tab. -/
def isBlank (c : CodePoint) : Bool := c.val == 32 || c.val == 9

/-- The common beginning of two strings. -/
def commonPrefix : Str → Str → Str
  | c :: cs, d :: ds => if c = d then c :: commonPrefix cs ds else []
  | _, _ => []

/-- The indentation shared by all lines, `none` without a line to look at. -/
def sharedIndent : List Str → Option Str
  | [] => none
  | line :: lines => some (lines.foldl (fun margin l => commonPrefix margin (l.takeWhile isBlank))
      (line.takeWhile isBlank))

/-- `textwrap.dedent` on the lines of a text. -/
def dedentLines (lines : List Str) : List Str :=
  let texts := lines.map fun line => if line.all isBlank then [] else line
  let margin := (sharedIndent (texts.filter fun line => line ≠ [])).getD []
  texts.map fun line => line.drop (if line = [] then 0 else margin.length)

/-- The last line that is not blank, stripped; empty without such a line. -/
def lastMeaningfulLine (s : Str) : Str :=
  (((splitLines (strip s)).reverse.map strip).find? fun line => line ≠ []).getD []

example : splitLines (lit "a\r\nb\n\nc\n") = [lit "a", lit "b", [], lit "c"] := by decide

end Str

end CognitiveTree
