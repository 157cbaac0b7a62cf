import Mathlib.Data.List.Forall2
import CognitiveTree.Core.Text

/-!
# UTF-8

A character takes one to four bytes. Where the bytes begin no character, the longest run of bytes
that could have begun one counts as a single error.
-/

namespace CognitiveTree

/-- A byte string. -/
abbrev Bytes := List UInt8

namespace Utf8

/-- The ranges of the bytes behind a lead byte; none for a byte that begins no character. -/
def tails (lead : UInt8) : Option (List (UInt8 × UInt8)) :=
  let tail := (0x80, 0xbf)
  if lead ≤ 0x7f then some []
  else if 0xc2 ≤ lead && lead ≤ 0xdf then some [tail]
  else if lead = 0xe0 then some [(0xa0, 0xbf), tail]
  -- the code points of surrogates are not encoded
  else if lead = 0xed then some [(0x80, 0x9f), tail]
  else if 0xe1 ≤ lead && lead ≤ 0xef then some [tail, tail]
  else if lead = 0xf0 then some [(0x90, 0xbf), tail, tail]
  else if 0xf1 ≤ lead && lead ≤ 0xf3 then some [tail, tail, tail]
  else if lead = 0xf4 then some [(0x80, 0x8f), tail, tail]
  else none

/-- How many bytes lie in their ranges. -/
def matching : List (UInt8 × UInt8) → Bytes → Nat
  | (low, high) :: ranges, b :: bytes =>
    if low ≤ b && b ≤ high then matching ranges bytes + 1 else 0
  | _, _ => 0

/-- The payload of a lead byte. -/
def payload (lead : UInt8) : Nat :=
  if lead ≤ 0x7f then lead.toNat
  else if lead ≤ 0xdf then lead.toNat % 32
  else if lead ≤ 0xef then lead.toNat % 16
  else lead.toNat % 8

/-- The number spelled by a lead byte and the bytes behind it. -/
def scalar (lead : UInt8) (tail : Bytes) : Nat :=
  tail.foldl (fun v b => v * 64 + b.toNat % 64) (payload lead)

/-- The character that begins here, `none` for an error, and how many of the bytes behind the lead
byte belong to it. -/
def decodeOne (lead : UInt8) (rest : Bytes) : Option CodePoint × Nat :=
  match tails lead with
  | none => (none, 0)
  | some ranges =>
    let n := matching ranges rest
    (if n = ranges.length then some (Fin.ofNat 0x110000 (scalar lead (rest.take n))) else none, n)

/-- The characters and errors of at most this many bytes. -/
def unitsTo : Nat → Bytes → List (Option CodePoint)
  | 0, _ => []
  | _ + 1, [] => []
  | fuel + 1, lead :: rest =>
    (decodeOne lead rest).1 :: unitsTo fuel (rest.drop (decodeOne lead rest).2)

/-- The characters and errors of a byte string. -/
def units (data : Bytes) : List (Option CodePoint) := unitsTo data.length data

/-- `data.decode("utf-8", errors="replace")`. -/
def decodeReplace (data : Bytes) : Str := (units data).map fun unit => unit.getD 0xfffd

/-- `data.decode("utf-8")`, `none` when it raises. -/
def decode (data : Bytes) : Option Str := (units data).mapM id

/-- A character has at most three bytes behind its lead byte. -/
theorem length_tails {lead : UInt8} {ranges : List (UInt8 × UInt8)} (h : tails lead = some ranges) :
    ranges.length ≤ 3 := by
  unfold tails at h
  dsimp only at h
  split_ifs at h <;> cases h <;> decide

/-- No more tail bytes match than are asked for. -/
theorem matching_le (ranges : List (UInt8 × UInt8)) (bytes : Bytes) :
    matching ranges bytes ≤ ranges.length := by
  induction ranges generalizing bytes with
  | nil => cases bytes <;> exact Nat.le_refl 0
  | cons range ranges ih =>
    cases bytes with
    | nil => exact Nat.zero_le _
    | cons b bytes =>
      rw [matching, List.length_cons]
      have := ih bytes
      split <;> omega

/-- Only as many bytes are read as there are ranges. -/
theorem matching_take {ranges : List (UInt8 × UInt8)} {m : Nat} (h : ranges.length ≤ m)
    (bytes : Bytes) : matching ranges (bytes.take m) = matching ranges bytes := by
  induction ranges generalizing bytes m with
  | nil => cases bytes <;> cases m <;> rfl
  | cons range ranges ih =>
    rw [List.length_cons] at h
    obtain ⟨m, rfl⟩ : ∃ k, m = k + 1 := ⟨m - 1, by omega⟩
    cases bytes with
    | nil => rfl
    | cons b bytes => rw [List.take_succ_cons, matching, matching, ih (by omega)]

/-- A character has three tail bytes at most. -/
theorem decodeOne_le (lead : UInt8) (rest : Bytes) : (decodeOne lead rest).2 ≤ 3 := by
  unfold decodeOne
  cases h : tails lead with
  | none => exact Nat.zero_le 3
  | some ranges => exact (matching_le ranges rest).trans (length_tails h)

/-- Three bytes behind the lead byte decide about the character. -/
theorem decodeOne_take (lead : UInt8) (rest : Bytes) {m : Nat} (h : 3 ≤ m) :
    decodeOne lead (rest.take m) = decodeOne lead rest := by
  unfold decodeOne
  cases hl : tails lead with
  | none => rfl
  | some ranges =>
    have hm := (length_tails hl).trans h
    have hn := (matching_le ranges rest).trans hm
    simp only [matching_take hm, List.take_take, Nat.min_eq_left hn]

/-- More fuel than bytes changes nothing. -/
theorem unitsTo_eq {data : Bytes} {fuel : Nat} (h : data.length ≤ fuel) :
    unitsTo fuel data = units data := by
  have hstable : ∀ {fuel fuel' : Nat} {data : Bytes}, data.length ≤ fuel → data.length ≤ fuel' →
      unitsTo fuel data = unitsTo fuel' data := by
    intro fuel
    induction fuel with
    | zero =>
      intro fuel' data hd _
      rw [List.length_eq_zero_iff.mp (Nat.le_zero.mp hd)]
      cases fuel' <;> rfl
    | succ fuel ih =>
      intro fuel' data hd hd'
      cases data with
      | nil => cases fuel' <;> rfl
      | cons lead rest =>
        rw [List.length_cons] at hd hd'
        obtain ⟨fuel', rfl⟩ : ∃ k, fuel' = k + 1 := ⟨fuel' - 1, by omega⟩
        rw [unitsTo, unitsTo, @ih fuel']
        all_goals
          rw [List.length_drop]
          omega
  exact hstable h le_rfl

/-- No bytes, no characters. -/
@[simp] theorem units_nil : units [] = [] := rfl

/-- Decoding takes one character off and goes on behind it. -/
theorem units_cons (lead : UInt8) (rest : Bytes) : units (lead :: rest) =
    (decodeOne lead rest).1 :: units (rest.drop (decodeOne lead rest).2) := by
  rw [units, List.length_cons, unitsTo, unitsTo_eq]
  rw [List.length_drop]
  omega

/-- The first characters are decided by four bytes for each of them. -/
theorem units_take (data : Bytes) {count m : Nat} (h : 4 * count ≤ m) :
    (units (data.take m)).take count = (units data).take count := by
  induction count generalizing data m with
  | zero => simp
  | succ count ih =>
    obtain ⟨m, rfl⟩ : ∃ k, m = k + 1 := ⟨m - 1, by omega⟩
    cases data with
    | nil => rfl
    | cons lead rest =>
      have hle := decodeOne_le lead rest
      rw [List.take_succ_cons, units_cons, units_cons, decodeOne_take lead rest (by omega),
        List.take_succ_cons, List.take_succ_cons, List.drop_take, ih _ (by omega)]

/-- Four bytes for each character are enough. -/
theorem length_le (data : Bytes) : data.length ≤ 4 * (units data).length := by
  induction hn : data.length using Nat.strong_induction_on generalizing data with
  | _ n ih =>
    cases data with
    | nil => simp at hn ⊢; omega
    | cons lead rest =>
      subst hn
      have hle := decodeOne_le lead rest
      have hrest := ih _ (by rw [List.length_drop, List.length_cons]; omega)
        (rest.drop (decodeOne lead rest).2) rfl
      rw [List.length_drop] at hrest
      rw [units_cons, List.length_cons, List.length_cons]
      omega

/-- Each unit becomes one character. -/
@[simp] theorem length_decodeReplace (data : Bytes) :
    (decodeReplace data).length = (units data).length := List.length_map _

/-- The last byte of a character's number, shifted by six bits for each step. -/
def tailByte (n : Nat) : UInt8 := UInt8.ofNat (0x80 + n % 64)

/-- The bytes of a character; a surrogate has none. -/
def encodeOne (c : CodePoint) : Option Bytes :=
  let n := c.val
  if n < 0x80 then some [UInt8.ofNat n]
  else if n < 0x800 then some [UInt8.ofNat (0xc0 + n / 64), tailByte n]
  else if n < 0x10000 then
    if 0xd800 ≤ n ∧ n < 0xe000 then none
    else some [UInt8.ofNat (0xe0 + n / 4096), tailByte (n / 64), tailByte n]
  else some [UInt8.ofNat (0xf0 + n / 262144), tailByte (n / 4096), tailByte (n / 64), tailByte n]

/-- `s.encode("utf-8")`, `none` when it raises. -/
def encode : Str → Option Bytes
  | [] => some []
  | c :: s => do
    let first ← encodeOne c
    let rest ← encode s
    pure (first ++ rest)

/-- A code point of UTF-16 that is no character of its own. -/
def isSurrogate (c : CodePoint) : Bool := 0xd800 ≤ c.val && c.val < 0xe000

/-- Only a surrogate has no bytes. -/
theorem encodeOne_eq_none_iff {c : CodePoint} : encodeOne c = none ↔ isSurrogate c = true := by
  unfold encodeOne isSurrogate
  dsimp only
  split_ifs <;> simp <;> omega

/-- The text has no surrogates. -/
def Clean (s : Str) : Prop := ∀ c ∈ s, isSurrogate c = false

/-- The empty text has no surrogates. -/
@[simp] theorem clean_nil : Clean [] := fun _ h => by cases h

/-- A text has no surrogates when its first character is none and the others are not. -/
@[simp] theorem clean_cons {c : CodePoint} {s : Str} :
    Clean (c :: s) ↔ isSurrogate c = false ∧ Clean s := List.forall_mem_cons

/-- Two texts have no surrogates when neither has. -/
@[simp] theorem clean_append {s t : Str} : Clean (s ++ t) ↔ Clean s ∧ Clean t :=
  List.forall_mem_append

/-- Characters are no surrogates. -/
theorem clean_map_ofChar (cs : List Char) : Clean (cs.map CodePoint.ofChar) := by
  intro c hc
  obtain ⟨x, -, rfl⟩ := List.mem_map.mp hc
  have hv := x.valid
  have hn : (CodePoint.ofChar x).val = x.val.toNat := rfl
  unfold UInt32.isValidChar Nat.isValidChar at hv
  simp only [isSurrogate, hn, Bool.and_eq_false_iff, decide_eq_false_iff_not]
  omega

/-- A literal has no surrogates. -/
@[simp] theorem clean_lit (s : String) : Clean (lit s) := clean_map_ofChar _

/-- A number has no surrogates. -/
@[simp] theorem clean_ofNat (n : Nat) : Clean (Str.ofNat n) := clean_map_ofChar _

/-- Exactly the texts without surrogates are encoded. -/
theorem encode_isSome_iff {s : Str} :
    (encode s).isSome = true ↔ ∀ c ∈ s, isSurrogate c = false := by
  induction s with
  | nil => simp [encode]
  | cons c s ih =>
    rw [List.forall_mem_cons, ← ih, encode]
    have hc := encodeOne_eq_none_iff (c := c)
    cases hone : encodeOne c with
    | none => simp [hc.mp hone]
    | some first =>
      rw [hone] at hc
      have hno : isSurrogate c = false := by simpa using hc
      cases encode s <;> simp [hno]

/-- A small number is kept as a byte. -/
theorem toNat_byte {n : Nat} (h : n < 256) : (UInt8.ofNat n).toNat = n := by
  rw [UInt8.toNat_ofNat', Nat.mod_eq_of_lt h]

/-- A tail byte has the mark of tail bytes and six bits. -/
theorem toNat_tailByte (n : Nat) : (tailByte n).toNat = 0x80 + n % 64 :=
  toNat_byte (by omega)

/-- The ranges of the bytes behind a lead byte, by its number. -/
theorem tails_eq (lead : UInt8) : tails lead =
    if lead.toNat ≤ 0x7f then some []
    else if 0xc2 ≤ lead.toNat ∧ lead.toNat ≤ 0xdf then some [(0x80, 0xbf)]
    else if lead.toNat = 0xe0 then some [(0xa0, 0xbf), (0x80, 0xbf)]
    else if lead.toNat = 0xed then some [(0x80, 0x9f), (0x80, 0xbf)]
    else if 0xe1 ≤ lead.toNat ∧ lead.toNat ≤ 0xef then some [(0x80, 0xbf), (0x80, 0xbf)]
    else if lead.toNat = 0xf0 then some [(0x90, 0xbf), (0x80, 0xbf), (0x80, 0xbf)]
    else if 0xf1 ≤ lead.toNat ∧ lead.toNat ≤ 0xf3 then
      some [(0x80, 0xbf), (0x80, 0xbf), (0x80, 0xbf)]
    else if lead.toNat = 0xf4 then some [(0x80, 0x8f), (0x80, 0xbf), (0x80, 0xbf)]
    else none := by
  unfold tails
  simp only [UInt8.le_iff_toNat_le, ← UInt8.toNat_inj, Bool.and_eq_true, decide_eq_true_eq]
  rfl

/-- Bytes within their ranges are all read, whatever follows them. -/
theorem matching_append {ranges : List (UInt8 × UInt8)} {tail : Bytes}
    (h : List.Forall₂ (fun r b => r.1 ≤ b ∧ b ≤ r.2) ranges tail) (rest : Bytes) :
    matching ranges (tail ++ rest) = ranges.length := by
  induction h with
  | nil => cases rest <;> rfl
  | cons hrange _ ih => simp [matching, hrange.1, hrange.2, ih]

/-- A lead byte with bytes in its ranges spells one character. -/
theorem decodeOne_append {lead : UInt8} {ranges : List (UInt8 × UInt8)} {tail : Bytes}
    (htails : tails lead = some ranges)
    (h : List.Forall₂ (fun r b => r.1 ≤ b ∧ b ≤ r.2) ranges tail) (rest : Bytes) :
    decodeOne lead (tail ++ rest) = (some (Fin.ofNat 0x110000 (scalar lead tail)), tail.length) := by
  unfold decodeOne
  rw [htails]
  dsimp only
  rw [matching_append h, if_pos rfl, h.length_eq, List.take_left]

/-- The bits of a lead byte that belong to the character. -/
theorem payload_eq (lead : UInt8) : payload lead =
    if lead.toNat ≤ 0x7f then lead.toNat
    else if lead.toNat ≤ 0xdf then lead.toNat % 32
    else if lead.toNat ≤ 0xef then lead.toNat % 16
    else lead.toNat % 8 := by
  unfold payload
  simp only [UInt8.le_iff_toNat_le]
  rfl

/-- The bytes that spell a number below the limit are decoded to its character. -/
theorem units_scalar {c : CodePoint} {lead : UInt8} (ranges : List (UInt8 × UInt8)) {tail : Bytes}
    (htails : tails lead = some ranges)
    (h : List.Forall₂ (fun r b => r.1 ≤ b ∧ b ≤ r.2) ranges tail) (hscalar : scalar lead tail = c.val)
    (rest : Bytes) : units (lead :: tail ++ rest) = some c :: units rest := by
  have hchar : Fin.ofNat 0x110000 c.val = c := Fin.ext (Nat.mod_eq_of_lt c.isLt)
  rw [List.cons_append, units_cons, decodeOne_append htails h, List.drop_left, hscalar, hchar]

/-- A last byte lies in the range that the first one allows. -/
theorem tailByte_mem {low high : UInt8} {n : Nat} (hlow : low.toNat ≤ 0x80 + n % 64)
    (hhigh : 0x80 + n % 64 ≤ high.toNat) : low ≤ tailByte n ∧ tailByte n ≤ high := by
  rw [UInt8.le_iff_toNat_le, UInt8.le_iff_toNat_le, toNat_tailByte]
  exact ⟨hlow, hhigh⟩

/-- A tail byte is in the range of tail bytes. -/
theorem tailByte_tail (n : Nat) : 0x80 ≤ tailByte n ∧ tailByte n ≤ 0xbf :=
  tailByte_mem (by simp) (by simp; omega)

/-- The bytes of a character are decoded to it. -/
theorem units_encodeOne {c : CodePoint} {bytes : Bytes} (h : encodeOne c = some bytes)
    (rest : Bytes) : units (bytes ++ rest) = some c :: units rest := by
  have hc := c.isLt
  unfold encodeOne at h
  dsimp only at h
  split_ifs at h with h1 h2 h3 hsurrogate <;> cases h
  · have hlead := toNat_byte (n := c.val) (by omega)
    refine units_scalar [] ?_ .nil ?_ rest
    · rw [tails_eq, hlead, if_pos (by omega)]
    · rw [scalar, payload_eq, hlead, if_pos (by omega), List.foldl_nil]
  · have hlead := toNat_byte (n := 0xc0 + c.val / 64) (by omega)
    refine units_scalar [(0x80, 0xbf)] ?_ (.cons (tailByte_tail _) .nil) ?_ rest
    · rw [tails_eq, hlead, if_neg (by omega), if_pos (by omega)]
    · simp only [scalar, payload_eq, hlead, List.foldl_cons, List.foldl_nil, toNat_tailByte]
      rw [if_neg (by omega), if_pos (by omega)]
      omega
  · have hlead := toNat_byte (n := 0xe0 + c.val / 4096) (by omega)
    have hscalar : scalar (UInt8.ofNat (0xe0 + c.val / 4096)) [tailByte (c.val / 64), tailByte c.val] =
        c.val := by
      simp only [scalar, payload_eq, hlead, List.foldl_cons, List.foldl_nil, toNat_tailByte]
      rw [if_neg (by omega), if_neg (by omega), if_pos (by omega)]
      omega
    -- the first and the last block before the surrogates are cut short
    rcases (show c.val < 0x1000 ∨ (0xd000 ≤ c.val ∧ c.val < 0xe000) ∨
      0x1000 ≤ c.val ∧ (c.val < 0xd000 ∨ 0xe000 ≤ c.val) by omega) with hlow | hhigh | hmid
    · refine units_scalar [(0xa0, 0xbf), (0x80, 0xbf)] ?_
        (.cons (tailByte_mem (by simp; omega) (by simp; omega)) (.cons (tailByte_tail _) .nil))
        hscalar rest
      rw [tails_eq, hlead, if_neg (by omega), if_neg (by omega), if_pos (by omega)]
    · refine units_scalar [(0x80, 0x9f), (0x80, 0xbf)] ?_
        (.cons (tailByte_mem (by simp) (by simp; omega)) (.cons (tailByte_tail _) .nil))
        hscalar rest
      rw [tails_eq, hlead, if_neg (by omega), if_neg (by omega), if_neg (by omega),
        if_pos (by omega)]
    · refine units_scalar [(0x80, 0xbf), (0x80, 0xbf)] ?_
        (.cons (tailByte_tail _) (.cons (tailByte_tail _) .nil)) hscalar rest
      rw [tails_eq, hlead, if_neg (by omega), if_neg (by omega), if_neg (by omega),
        if_neg (by omega), if_pos (by omega)]
  · have hlead := toNat_byte (n := 0xf0 + c.val / 262144) (by omega)
    have hscalar : scalar (UInt8.ofNat (0xf0 + c.val / 262144))
        [tailByte (c.val / 4096), tailByte (c.val / 64), tailByte c.val] = c.val := by
      simp only [scalar, payload_eq, hlead, List.foldl_cons, List.foldl_nil, toNat_tailByte]
      rw [if_neg (by omega), if_neg (by omega), if_neg (by omega)]
      omega
    rcases (show c.val < 0x40000 ∨ 0x100000 ≤ c.val ∨ 0x40000 ≤ c.val ∧ c.val < 0x100000 by omega)
      with hlow | hhigh | hmid
    · refine units_scalar [(0x90, 0xbf), (0x80, 0xbf), (0x80, 0xbf)] ?_
        (.cons (tailByte_mem (by simp; omega) (by simp; omega))
          (.cons (tailByte_tail _) (.cons (tailByte_tail _) .nil))) hscalar rest
      rw [tails_eq, hlead, if_neg (by omega), if_neg (by omega), if_neg (by omega),
        if_neg (by omega), if_neg (by omega), if_pos (by omega)]
    · refine units_scalar [(0x80, 0x8f), (0x80, 0xbf), (0x80, 0xbf)] ?_
        (.cons (tailByte_mem (by simp) (by simp; omega))
          (.cons (tailByte_tail _) (.cons (tailByte_tail _) .nil))) hscalar rest
      rw [tails_eq, hlead, if_neg (by omega), if_neg (by omega), if_neg (by omega),
        if_neg (by omega), if_neg (by omega), if_neg (by omega), if_neg (by omega),
        if_pos (by omega)]
    · refine units_scalar [(0x80, 0xbf), (0x80, 0xbf), (0x80, 0xbf)] ?_
        (.cons (tailByte_tail _) (.cons (tailByte_tail _) (.cons (tailByte_tail _) .nil)))
        hscalar rest
      rw [tails_eq, hlead, if_neg (by omega), if_neg (by omega), if_neg (by omega),
        if_neg (by omega), if_neg (by omega), if_neg (by omega), if_pos (by omega)]

/-- Encoding goes character by character. -/
theorem encode_append {s t : Str} {bytes bytes' : Bytes} (h : encode s = some bytes)
    (h' : encode t = some bytes') : encode (s ++ t) = some (bytes ++ bytes') := by
  induction s generalizing bytes with
  | nil =>
    cases h
    exact h'
  | cons c s ih =>
    rw [encode] at h
    obtain ⟨first, hfirst, h⟩ := Option.bind_eq_some_iff.mp h
    obtain ⟨others, hothers, h⟩ := Option.bind_eq_some_iff.mp h
    cases h
    rw [List.cons_append, encode, hfirst, ih hothers, List.append_assoc]
    rfl

/-- The bytes of a text are decoded to its characters, whatever follows. -/
theorem units_encode {s : Str} {bytes : Bytes} (h : encode s = some bytes) (rest : Bytes) :
    units (bytes ++ rest) = s.map some ++ units rest := by
  induction s generalizing bytes with
  | nil =>
    cases h
    rfl
  | cons c s ih =>
    rw [encode] at h
    obtain ⟨first, hfirst, h⟩ := Option.bind_eq_some_iff.mp h
    obtain ⟨others, hothers, h⟩ := Option.bind_eq_some_iff.mp h
    cases h
    rw [List.append_assoc, units_encodeOne hfirst, ih hothers]
    rfl

/-- The bytes of a text are decoded to the text. -/
theorem decodeReplace_encode {s : Str} {bytes : Bytes} (h : encode s = some bytes) :
    decodeReplace bytes = s := by
  have hunits := units_encode h []
  rw [List.append_nil, units_nil, List.append_nil] at hunits
  rw [decodeReplace, hunits, List.map_map]
  exact List.map_id s

/-- Decoding takes back the encoding of a text. -/
theorem decode_encode {s : Str} {bytes : Bytes} (h : encode s = some bytes) :
    decode bytes = some s := by
  have hunits := units_encode h []
  rw [List.append_nil, units_nil, List.append_nil] at hunits
  have hpure : (s.map some).mapM id = (pure (s.map id) : Option Str) := by
    rw [List.mapM_map]
    exact List.mapM_pure
  rw [decode, hunits, hpure, List.map_id]
  rfl

end Utf8

end CognitiveTree
