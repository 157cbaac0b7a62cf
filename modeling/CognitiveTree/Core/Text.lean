import Mathlib.Data.List.DropRight

/-!
# Code-point strings

A string is a list of code points, lone surrogates included, so every string
value of the object language is represented and no other. Stripping removes the
characters `str.isspace` accepts from both ends. An exception is what a handler
can print of it: the name of its class and its `str`.
-/

namespace CognitiveTree

/-- One element of a string: any value below `0x110000`. -/
abbrev CodePoint := Fin 0x110000

/-- Numerals are code points. -/
instance CodePoint.instNeZero : @NeZero Nat Zero.ofOfNat0 0x110000 :=
  @NeZero.mk Nat Zero.ofOfNat0 0x110000 (Nat.succ_ne_zero _)

/-- A string of the object language. -/
abbrev Str := List CodePoint

/-- Comparison of characters and of strings is equality. -/
instance CodePoint.instLawfulBEq : LawfulBEq CodePoint := inferInstance

instance Str.instLawfulBEq : LawfulBEq Str := inferInstance

/-- Every scalar value is a code point. -/
def CodePoint.ofChar (c : Char) : CodePoint :=
  ⟨c.toNat, by
    have hv := c.valid
    have hn : c.toNat = c.val.toNat := rfl
    unfold UInt32.isValidChar Nat.isValidChar at hv
    omega⟩

/-- A literal of the source as a string of code points. -/
def lit (s : String) : Str := s.toList.map CodePoint.ofChar

namespace Str

/-- Decimal digits of a number, as `str` of a non-negative integer prints them. -/
def ofNat (n : Nat) : Str := (Nat.toDigits 10 n).map CodePoint.ofChar

/-- The characters `str.isspace` accepts and `str.strip` removes. -/
def isSpace (c : CodePoint) : Bool :=
  (9 ≤ c.val && c.val ≤ 13) || (28 ≤ c.val && c.val ≤ 32) || c.val == 0x85 || c.val == 0xa0 ||
    c.val == 0x1680 || (0x2000 ≤ c.val && c.val ≤ 0x200a) || c.val == 0x2028 ||
    c.val == 0x2029 || c.val == 0x202f || c.val == 0x205f || c.val == 0x3000

/-- `str.lstrip`: drop leading whitespace. -/
def lstrip (s : Str) : Str := s.dropWhile isSpace

/-- `str.rstrip`: drop trailing whitespace. -/
def rstrip (s : Str) : Str := s.rdropWhile isSpace

/-- `str.strip`: drop whitespace at both ends. -/
def strip (s : Str) : Str := rstrip (lstrip s)

/-- `str.split()` behind the characters of an unfinished word, last first. -/
def splitFrom : Str → Str → List Str
  | [], word => if word = [] then [] else [word.reverse]
  | c :: cs, word =>
    if isSpace c then (if word = [] then splitFrom cs [] else word.reverse :: splitFrom cs [])
    else splitFrom cs (c :: word)

/-- `str.split()`: the words between runs of whitespace. -/
def split (s : Str) : List Str := splitFrom s []

/-- `separator.join(parts)`. -/
def join (separator : Str) : List Str → Str
  | [] => []
  | [part] => part
  | part :: parts => part ++ separator ++ join separator parts

/-- Stripping keeps a prefix of the left-stripped string. -/
theorem strip_prefix_lstrip (s : Str) : strip s <+: lstrip s :=
  List.rdropWhile_prefix isSpace (lstrip s)

/-- A stripped string has no leading whitespace left. -/
theorem lstrip_strip (s : Str) : lstrip (strip s) = strip s := by
  rw [lstrip, List.dropWhile_eq_self_iff]
  intro hl
  obtain ⟨rest, he⟩ := strip_prefix_lstrip s
  have hlong : 0 < (lstrip s).length := by
    rw [← he, List.length_append]
    omega
  have hhead : (strip s)[0] = (lstrip s)[0] := by
    simp only [← he, List.getElem_append_left hl]
  rw [hhead]
  exact List.dropWhile_get_zero_not isSpace s hlong

/-- Stripping twice is stripping once. -/
@[simp] theorem strip_strip (s : Str) : strip (strip s) = strip s := by
  conv_lhs => rw [strip, lstrip_strip]
  exact List.rdropWhile_idempotent isSpace (lstrip s)

/-- Stripping leaves nothing exactly when there is nothing but whitespace. -/
theorem strip_eq_nil_iff {s : Str} : strip s = [] ↔ ∀ c ∈ s, isSpace c = true := by
  rw [strip, rstrip, List.rdropWhile_eq_nil_iff, lstrip]
  refine ⟨fun h c hc => ?_, fun h c hc => h c ((List.dropWhile_sublist _).subset hc)⟩
  rw [← List.takeWhile_append_dropWhile (p := isSpace) (l := s)] at hc
  rcases List.mem_append.mp hc with hc | hc
  · exact List.mem_takeWhile_imp hc
  · exact h c hc

/-- A text that begins with a visible character is not blank. -/
theorem strip_ne_nil {s : Str} (h : (s.head?.any fun c => !isSpace c) = true) : strip s ≠ [] := by
  intro hblank
  rcases s with _ | ⟨c, s⟩
  · cases h
  · have hspace := strip_eq_nil_iff.mp hblank c (List.mem_cons_self ..)
    simp [hspace] at h

end Str

/-- A raised exception, as its type name and its `str`. -/
structure Exc where
  typeName : Str
  text : Str
  deriving DecidableEq, Repr

/-- `f"{type(exc).__name__}: {exc}"`. -/
def Exc.describe (e : Exc) : Str := e.typeName ++ lit ": " ++ e.text

/-- A described exception is never the empty string. -/
theorem Exc.describe_ne_nil (e : Exc) : e.describe ≠ [] := by
  have hne : lit ": " ≠ [] := by decide
  simp [Exc.describe, hne]

end CognitiveTree
