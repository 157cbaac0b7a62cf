import Mathlib.Data.List.DropRight
import CognitiveTree.Core.Utf8

/-!
# Payloads behind standard input

The code of a payload precedes its input: a decimal length in bytes, a newline, the code and then
the input. The bootstrap reads the code back and leaves the input.
-/

namespace CognitiveTree.Sandbox

/-- `b"%d" % n`. -/
def decimal (n : Nat) : Bytes := (Nat.toDigits 10 n).map fun c => UInt8.ofNat c.toNat

/-- `frame_payload(code, stdin)`, `none` when a text is not encoded. -/
def framePayload (code stdin : Str) : Option Bytes := do
  let body ← Utf8.encode code
  let input ← Utf8.encode stdin
  pure (decimal body.length ++ [10] ++ body ++ input)

/-- `stream.readline()`: the line with its newline, and what follows it. -/
def readLine (stream : Bytes) : Bytes × Bytes :=
  let line := stream.takeWhile (· ≠ 10)
  match stream.dropWhile (· ≠ 10) with
  | newline :: rest => (line ++ [newline], rest)
  | [] => (line, [])

/-- A blank byte around the digits of an integer. -/
def isBlankByte (b : UInt8) : Bool := b = 32 || 9 ≤ b && b ≤ 13

/-- A digit. -/
def isDigitByte (b : UInt8) : Bool := 48 ≤ b && b ≤ 57

/-- The digits of an integer behind a value; an underscore stands alone between two digits. -/
def digitsFrom (value : Nat) (underscore : Bool) : Bytes → Option Nat
  | [] => if underscore then none else some value
  | b :: rest =>
    if isDigitByte b then digitsFrom (value * 10 + (b.toNat - 48)) false rest
    else if b = 95 ∧ underscore = false then digitsFrom value true rest
    else none

/-- The digits of an integer, at least one of them. -/
def digitsOf : Bytes → Option Nat
  | b :: rest => if isDigitByte b then digitsFrom (b.toNat - 48) false rest else none
  | [] => none

/-- `int(line)`, `none` when it raises. -/
def intOf (line : Bytes) : Option Int :=
  match (line.dropWhile isBlankByte).rdropWhile isBlankByte with
  | [] => none
  | sign :: digits =>
    if sign = 45 then (digitsOf digits).map fun n : Nat => -(n : Int)
    else if sign = 43 then (digitsOf digits).map fun n : Nat => (n : Int)
    else (digitsOf (sign :: digits)).map fun n : Nat => (n : Int)

/-- `stream.read(size)`: so many bytes, or all for `-1`, and what is left; `none` when it
raises. -/
def readBytes (size : Int) (stream : Bytes) : Option (Bytes × Bytes) :=
  if 0 ≤ size then some (stream.take size.toNat, stream.drop size.toNat)
  else if size = -1 then some (stream, [])
  else none

/-- The source that `_load()` of the bootstrap compiles, and the input that it leaves. -/
def loadSource (stream : Bytes) : Option (Str × Bytes) := do
  let (line, rest) := readLine stream
  let size ← intOf line
  let (data, left) ← readBytes size rest
  let source ← Utf8.decode data
  pure (source, left)

theorem toNat_digit {c : Char} (h : c.isDigit = true) :
    (UInt8.ofNat c.toNat).toNat = c.toNat ∧ 48 ≤ c.toNat ∧ c.toNat ≤ 57 := by
  have hrange : 48 ≤ c.toNat ∧ c.toNat ≤ 57 := by
    simpa [Char.isDigit, UInt32.le_iff_toNat_le] using h
  exact ⟨Utf8.toNat_byte (by omega), hrange⟩

theorem isDigitByte_digit {c : Char} (h : c.isDigit = true) :
    isDigitByte (UInt8.ofNat c.toNat) = true := by
  obtain ⟨hbyte, hlow, hhigh⟩ := toNat_digit h
  simp only [isDigitByte, UInt8.le_iff_toNat_le, hbyte, Bool.and_eq_true, decide_eq_true_eq]
  exact ⟨hlow, hhigh⟩

/-- A digit is neither blank nor a sign. -/
theorem isDigitByte_ne {b : UInt8} (h : isDigitByte b = true) :
    isBlankByte b = false ∧ b ≠ 45 ∧ b ≠ 43 ∧ b ≠ 10 := by
  simp only [isDigitByte, UInt8.le_iff_toNat_le, Bool.and_eq_true, decide_eq_true_eq] at h
  have hlow : 48 ≤ b.toNat := h.1
  have hhigh : b.toNat ≤ 57 := h.2
  have hne : ∀ k : UInt8, k.toNat < 48 → b ≠ k := by
    rintro k hk rfl
    omega
  refine ⟨?_, hne 45 (by decide), hne 43 (by decide), hne 10 (by decide)⟩
  have h32 := hne 32 (by decide)
  have h13 : ¬ b ≤ 13 := by
    rw [UInt8.le_iff_toNat_le]
    change ¬ b.toNat ≤ 13
    omega
  simp [isBlankByte, h32, h13]

theorem digitsFrom_map {digits : List Char} (h : ∀ c ∈ digits, c.isDigit = true) (value : Nat) :
    digitsFrom value false (digits.map fun c => UInt8.ofNat c.toNat) =
      some (Nat.ofDigitChars 10 digits value) := by
  induction digits generalizing value with
  | nil => rfl
  | cons c digits ih =>
    rw [List.forall_mem_cons] at h
    rw [List.map_cons, digitsFrom, if_pos (isDigitByte_digit h.1), (toNat_digit h.1).1, ih h.2,
      Nat.ofDigitChars_cons, Nat.mul_comm]
    rfl

/-- A printed length is read back. -/
theorem intOf_decimal (n : Nat) : intOf (decimal n ++ [10]) = some (n : Int) := by
  have hdigits : ∀ c ∈ Nat.toDigits 10 n, c.isDigit = true := fun c hc =>
    Nat.isDigit_of_mem_toDigits (by decide) (by decide) hc
  have hvalue : Nat.ofDigitChars 10 (Nat.toDigits 10 n) 0 = n := Nat.ofDigitChars_ten_toDigits
  unfold decimal
  generalize hd : Nat.toDigits 10 n = digits at hdigits hvalue
  rcases digits with _ | ⟨c, digits⟩
  · exact absurd hd Nat.toDigits_ne_nil
  · have hfirst := isDigitByte_digit (hdigits c (List.mem_cons_self ..))
    obtain ⟨hblank, hminus, hplus, -⟩ := isDigitByte_ne hfirst
    have hstripped : ((c :: digits).map fun c => UInt8.ofNat c.toNat).rdropWhile isBlankByte =
        (c :: digits).map fun c => UInt8.ofNat c.toNat := by
      rw [List.rdropWhile_eq_self_iff]
      intro hne
      obtain ⟨d, hd, hbyte⟩ := List.mem_map.mp (List.getLast_mem hne)
      rw [← hbyte, (isDigitByte_ne (isDigitByte_digit (hdigits d hd))).1]
      simp
    have hread := digitsFrom_map (fun d hd => hdigits d (List.mem_cons_of_mem _ hd)) (c.toNat - 48)
    have hleading :
        ((c :: digits).map (fun c : Char => UInt8.ofNat c.toNat) ++ [10]).dropWhile isBlankByte =
          (c :: digits).map (fun c : Char => UInt8.ofNat c.toNat) ++ [10] := by
      rw [List.map_cons, List.cons_append, List.dropWhile_cons_of_neg (by simp [hblank])]
    unfold intOf
    rw [hleading, List.rdropWhile_concat_pos _ _ _ (by decide), hstripped, List.map_cons]
    dsimp only
    rw [if_neg hminus, if_neg hplus, digitsOf, if_pos hfirst,
      (toNat_digit (hdigits c (List.mem_cons_self ..))).1, hread, ← hvalue, Nat.ofDigitChars_cons]
    simp

/-- The first line of a frame is its length. -/
theorem readLine_decimal (n : Nat) (rest : Bytes) :
    readLine (decimal n ++ [10] ++ rest) = (decimal n ++ [10], rest) := by
  have hline : ∀ b ∈ decimal n, decide (b ≠ 10) = true := by
    intro b hb
    obtain ⟨c, hc, rfl⟩ := List.mem_map.mp hb
    have hdigit := Nat.isDigit_of_mem_toDigits (by decide) (by decide) hc
    exact decide_eq_true (isDigitByte_ne (isDigitByte_digit hdigit)).2.2.2
  unfold readLine
  rw [List.append_assoc, List.takeWhile_append_of_pos hline, List.dropWhile_append_of_pos hline]
  simp

/-- The bootstrap recovers the code of a frame and leaves the bytes of the input. -/
theorem frame_round_trip (code stdin : Str) (hcode : (Utf8.encode code).isSome = true)
    (hstdin : (Utf8.encode stdin).isSome = true) :
    ∃ frame input, framePayload code stdin = some frame ∧ Utf8.encode stdin = some input ∧
      loadSource frame = some (code, input) := by
  obtain ⟨body, hbody⟩ := Option.isSome_iff_exists.mp hcode
  obtain ⟨input, hinput⟩ := Option.isSome_iff_exists.mp hstdin
  refine ⟨decimal body.length ++ [10] ++ (body ++ input), input, ?_, hinput, ?_⟩
  · simp [framePayload, hbody, hinput]
  · have hread : readBytes (body.length : Int) (body ++ input) = some (body, input) := by
      rw [readBytes, if_pos (Int.natCast_nonneg _)]
      simp
    unfold loadSource
    rw [readLine_decimal]
    simp [intOf_decimal, hread, Utf8.decode_encode hbody]

/-- Code that begins with a digit, with two bytes for one of its characters. -/
theorem frame_round_trip_small : ∃ frame input,
    framePayload (lit "1\né") (lit "2\n") = some frame ∧ Utf8.encode (lit "2\n") = some input ∧
      loadSource frame = some (lit "1\né", input) :=
  frame_round_trip (lit "1\né") (lit "2\n") (by decide) (by decide)

end CognitiveTree.Sandbox
