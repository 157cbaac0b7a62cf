import CognitiveTree.Core.Splitting
import CognitiveTree.Json.Correctness
import CognitiveTree.Search.JsonShape

/-!
# The compact JSON text of a value

`json.dumps(value, ensure_ascii=False, separators=(",", ":"))`. The text is one of the grammar, and
what it says is the value; none of its characters is a control character.
-/

namespace CognitiveTree.Search

open Json

section Encoder

variable {K : Type} [PyDecimal K] (limits : Limits)

mutual

/-- The text of a value at a level of nesting, on one line. -/
def compact (level : Nat) : PyVal K → Except Exc Str
  | .none => .ok (lit "null")
  | .bool b => .ok (if b then lit "true" else lit "false")
  | .int i => encodeInt limits i
  | .float x => .ok (PyDecimal.repr x)
  | .str s => .ok (encodeString false s)
  | .list vs => do
    enterLevel limits level
    let texts ← compactElements (level + 1) vs
    pure (openBracket :: (Str.join [comma] texts ++ [closeBracket]))
  | .dict items => do
    enterLevel limits level
    let texts ← compactItems (level + 1) items
    pure (openBrace :: (Str.join [comma] texts ++ [closeBrace]))
  | .object tag => .error (typeError (lit "Object of type " ++ (PyVal.object tag : PyVal K).typeName ++
      lit " is not JSON serializable"))

def compactElements (level : Nat) : List (PyVal K) → Except Exc (List Str)
  | [] => .ok []
  | v :: vs => do
    let first ← compact level v
    let more ← compactElements level vs
    pure (first :: more)

def compactItems (level : Nat) : List (Str × PyVal K) → Except Exc (List Str)
  | [] => .ok []
  | (key, v) :: items => do
    let first ← compact level v
    let more ← compactItems level items
    pure ((encodeString false key ++ colon :: first) :: more)

end

/-- `json.dumps(value, ensure_ascii=False, separators=(",", ":"))`. -/
def dumpsCompact (value : PyVal K) : Except Exc Str := compact limits 0 value

end Encoder

/-- The float is a number. -/
def isFinite {K : Type} [PyFloat K] [PyDecimal K] (x : K) : Bool :=
  PyFloat.lt PyDecimal.negativeInfinity x && PyFloat.lt x PyFloat.inf

/-- A finite float is printed as a number that is read back as this float. -/
class FloatText (K : Type) [PyFloat K] [PyDecimal K] : Prop where
  repr_finite : ∀ x : K, isFinite x = true → ∃ n : Numeral, n.Valid ∧ n.isInt = false ∧
    PyDecimal.repr x = n.text ∧ PyDecimal.decimal n.text = x

namespace PyVal

variable {K : Type} [PyFloat K] [PyDecimal K]

mutual

/-- The value is one of JSON: its numbers are finite, and no dictionary has a key twice. -/
def Portable : PyVal K → Prop
  | .float x => isFinite x = true
  | .list vs => PortableElements vs
  | .dict items => (items.map Prod.fst).Nodup ∧ PortableItems items
  | .object _ => False
  | _ => True

def PortableElements : List (PyVal K) → Prop
  | [] => True
  | v :: vs => Portable v ∧ PortableElements vs

def PortableItems : List (Str × PyVal K) → Prop
  | [] => True
  | (_, v) :: items => Portable v ∧ PortableItems items

end

end PyVal

section Numbers

/-- The digits of a positive number do not begin with a zero. -/
theorem head_toDigits {n : Nat} (hn : 0 < n) : (Nat.toDigits 10 n).head? ≠ some '0' := by
  have hdigit : ∀ m < 10, 0 < m → Nat.digitChar m ≠ '0' := by decide
  induction n using Nat.strong_induction_on with
  | _ n ih =>
    by_cases hlt : n < 10
    · rw [Nat.toDigits_of_lt_base hlt]
      exact fun he => hdigit n hlt hn (Option.some.inj he)
    · have hsmaller := ih (n / 10) (by omega) (by omega)
      rw [Nat.toDigits_of_base_le (by decide) (by omega), List.head?_append]
      cases hhead : (Nat.toDigits 10 (n / 10)).head? with
      | none => exact absurd (List.head?_eq_none_iff.mp hhead) Nat.toDigits_ne_nil
      | some c =>
        rw [hhead] at hsmaller
        exact hsmaller

/-- A natural number is written in digits. -/
theorem all_isDigit_ofNat (n : Nat) : (Str.ofNat n).all isDigit = true := by
  rw [List.all_eq_true]
  intro c hc
  obtain ⟨hlow, hhigh⟩ := Str.digit_of_mem_ofNat hc
  simp [isDigit, hlow, hhigh]

/-- The first digit of a printed number is a zero only for zero. -/
theorem ofNat_eq_cons (n : Nat) : ∃ d ds, Str.ofNat n = d :: ds ∧ (d = 48 → ds = []) := by
  rcases Nat.eq_zero_or_pos n with rfl | hn
  · exact ⟨48, [], by decide, fun _ => rfl⟩
  · have hhead := head_toDigits hn
    unfold Str.ofNat
    rcases hdigits : Nat.toDigits 10 n with _ | ⟨c, cs⟩
    · exact absurd hdigits Nat.toDigits_ne_nil
    · rw [hdigits] at hhead
      refine ⟨CodePoint.ofChar c, cs.map CodePoint.ofChar, rfl, fun h48 => absurd ?_ hhead⟩
      have hval : c.toNat = 48 := congrArg Fin.val h48
      rw [List.head?_cons, Char.ext (UInt32.toNat_inj.mp (show c.val.toNat = ('0' : Char).val.toNat from hval))]

/-- The digits of a printed number are read back. -/
theorem foldl_ofNat (n : Nat) :
    (Str.ofNat n).foldl (fun (v : Nat) c => v * 10 + (c.val - 48)) 0 = n := by
  have hread : ∀ (cs : List Char) (v : Nat),
      (cs.map CodePoint.ofChar).foldl (fun (v : Nat) c => v * 10 + (c.val - 48)) v =
        Nat.ofDigitChars 10 cs v := by
    intro cs
    induction cs with
    | nil => intro v; simp
    | cons c cs ih =>
      intro v
      rw [List.map_cons, List.foldl_cons, ih, Nat.ofDigitChars_cons, Nat.mul_comm]
      rfl
  rw [Str.ofNat, hread, Nat.ofDigitChars_ten_toDigits]

/-- A printed integer as a number of the grammar. -/
def intNumeral (i : Int) : Numeral := ⟨Str.ofInt i, [], []⟩

/-- An integer is written as its sign and its magnitude. -/
theorem ofInt_eq (i : Int) :
    Str.ofInt i = (if i < 0 then [minus] else []) ++ Str.ofNat i.natAbs := by
  unfold Str.ofInt
  split
  · rfl
  · rfl

/-- An integer is written as a valid number. -/
theorem valid_intNumeral (i : Int) : (intNumeral i).Valid := by
  obtain ⟨d, ds, hds, hzero⟩ := ofNat_eq_cons i.natAbs
  have hdigits := all_isDigit_ofNat i.natAbs
  rw [hds, List.all_cons, Bool.and_eq_true] at hdigits
  refine ⟨⟨if i < 0 then [minus] else [], d, ds, ?_, hdigits.1, hdigits.2, hzero, ?_⟩, .inl rfl, .inl rfl⟩
  · split
    · exact .inr rfl
    · exact .inl rfl
  · rw [← hds]
    exact ofInt_eq i

/-- The digits of an integer are those of its magnitude. -/
theorem digits_intNumeral (i : Int) : (intNumeral i).digits = Str.ofNat i.natAbs := by
  have hfilter := List.filter_eq_self.mpr (List.all_eq_true.mp (all_isDigit_ofNat i.natAbs))
  rw [Numeral.digits, intNumeral, ofInt_eq, List.filter_append, hfilter]
  split <;> rfl

/-- The number written for an integer has its value. -/
theorem toInt_intNumeral (i : Int) : (intNumeral i).toInt = i := by
  have hminus : (intNumeral i).integer.head? = some minus ↔ i < 0 := by
    change (Str.ofInt i).head? = some minus ↔ i < 0
    rw [ofInt_eq]
    split
    · simpa using ‹i < 0›
    · obtain ⟨d, ds, hds, -⟩ := ofNat_eq_cons i.natAbs
      have hd : d ∈ Str.ofNat i.natAbs := by
        rw [hds]
        exact List.mem_cons_self ..
      have hlow := (Str.digit_of_mem_ofNat hd).1
      have hne : d ≠ minus := by
        rintro rfl
        exact absurd hlow (by decide)
      rw [List.nil_append, hds, List.head?_cons, Option.some.injEq]
      exact iff_of_false hne ‹¬ i < 0›
  rw [Numeral.toInt, digits_intNumeral, foldl_ofNat]
  by_cases hneg : i < 0
  · rw [if_pos (hminus.mpr hneg)]
    omega
  · rw [if_neg (fun h => hneg (hminus.mp h))]
    omega

end Numbers

section Strings

/-- How a character is written. -/
def pieceOf (c : CodePoint) : Piece :=
  match letters.lookup c with
  | some _ => .plain c
  | none => if c.val < 32 then .unit c else .plain c

/-- The letter of a character is the one it is read back by. -/
theorem escapes_of_letters {c letter : CodePoint} (h : letters.lookup c = some letter) :
    escapes.lookup letter = some c ∧ 32 ≤ letter.val ∧ letter.val < 128 := by
  obtain ⟨before, after, hsplit, -⟩ := List.lookup_eq_some_iff.mp h
  have hmem : (c, letter) ∈ letters := by
    rw [hsplit]
    exact List.mem_append_right _ (List.mem_cons_self ..)
  have hall : letters.all fun p => escapes.lookup p.2 = some p.1 && 32 ≤ p.2.val && p.2.val < 128 := by
    decide
  have hpair := List.all_eq_true.mp hall _ hmem
  simp only [Bool.and_eq_true, decide_eq_true_eq] at hpair
  exact ⟨hpair.1.1, hpair.1.2, hpair.2⟩

/-- The digits of a control character are read back. -/
theorem hex4_of_control {c : CodePoint} (h : c.val < 32) :
    hex4 (hexLetter (c.val / 4096 % 16)) (hexLetter (c.val / 256 % 16)) (hexLetter (c.val / 16 % 16))
      (hexLetter (c.val % 16)) = some c := by
  have hall : ∀ n < 32, hex4 (hexLetter (n / 4096 % 16)) (hexLetter (n / 256 % 16))
      (hexLetter (n / 16 % 16)) (hexLetter (n % 16)) = some (Fin.ofNat 0x110000 n) := by decide +kernel
  rw [hall c.val h]
  congr 1
  exact Fin.ext (Nat.mod_eq_of_lt c.isLt)

/-- A character that is not escaped is plain. -/
theorem isPlain_of_lookup {c : CodePoint} (h : letters.lookup c = none) (hc : ¬ c.val < 32) :
    isPlain c = true := by
  have hne : c ≠ quote ∧ c ≠ backslash := by
    constructor
    · rintro rfl
      cases h
    · rintro rfl
      cases h
  simp only [isPlain, Bool.and_eq_true, decide_eq_true_eq]
  exact ⟨⟨by omega, hne.1⟩, hne.2⟩

/-- A character is read back as one piece of its string. -/
theorem body_encodeChar (c : CodePoint) {s rest : Str} {pieces : List Piece}
    (h : Body s rest pieces) : Body (encodeChar false c ++ s) rest (pieceOf c :: pieces) := by
  unfold encodeChar pieceOf
  cases hlookup : letters.lookup c with
  | some letter => exact .escape (escapes_of_letters hlookup).1 h
  | none =>
    by_cases hc : c.val < 32
    · simp only [hc, if_true]
      exact .unit (hex4_of_control hc) h
    · simp only [hc, if_false, Bool.false_and, Bool.false_eq_true]
      exact .plain (isPlain_of_lookup hlookup hc) h

/-- A written string is read back. -/
theorem body_encodeString (s rest : Str) :
    Body (s.flatMap (encodeChar false) ++ quote :: rest) rest (s.map pieceOf) := by
  induction s with
  | nil => exact .close
  | cons c s ih =>
    rw [List.flatMap_cons, List.append_assoc, List.map_cons]
    exact body_encodeChar c ih

/-- An escape that begins no surrogate pair stands for its own code unit. -/
theorem joined_unit {c : CodePoint} (h : isHigh c = false) (pieces : List Piece) :
    joined (.unit c :: pieces) = c :: joined pieces := by
  rcases pieces with _ | ⟨d | d, pieces⟩ <;> simp [joined, h]

/-- No control character is half of a pair. -/
theorem joined_pieceOf (s : Str) : joined (s.map pieceOf) = s := by
  have hpiece : ∀ c, pieceOf c = .plain c ∨ isHigh c = false ∧ pieceOf c = .unit c := by
    intro c
    unfold pieceOf
    cases letters.lookup c with
    | some letter => exact Or.inl rfl
    | none =>
      by_cases hc : c.val < 32
      · have hlow : isHigh c = false := by
          simp only [isHigh, Bool.and_eq_false_iff, decide_eq_false_iff_not]
          omega
        exact Or.inr ⟨hlow, if_pos hc⟩
      · exact Or.inl (if_neg hc)
  induction s with
  | nil => rfl
  | cons c s ih =>
    rw [List.map_cons]
    rcases hpiece c with h | ⟨hlow, h⟩
    · rw [h, joined, ih]
    · rw [h, joined_unit hlow, ih]

end Strings

section Grammar

variable {K : Type}

/-- With distinct keys the hook keeps the items. -/
theorem foldl_set_of_nodup {items acc : List (Str × PyVal K)}
    (h : ((acc ++ items).map Prod.fst).Nodup) :
    items.foldl (fun d item => Dict.set d item.1 item.2) acc = acc ++ items := by
  induction items generalizing acc with
  | nil => simp
  | cons item items ih =>
    have hnew : item.1 ∉ acc.map Prod.fst := by
      rw [List.map_append, List.map_cons, List.nodup_append] at h
      exact fun hmem => h.2.2 _ hmem _ (List.mem_cons_self ..) rfl
    rw [List.foldl_cons, Dict.set_eq_append _ (Dict.get?_eq_none hnew), ih (by simpa using h)]
    simp

variable [PyFloat K] [PyDecimal K] {limits : Limits}

/-- Distinct keys are all kept, in their order. -/
theorem dict_of_nodup {items : List (Str × PyVal K)} (h : (items.map Prod.fst).Nodup) :
    (pyHooks K).dict items = .dict items := by
  change PyVal.dict (items.foldl (fun d item => Dict.set d item.1 item.2) []) = _
  rw [foldl_set_of_nodup (by simpa using h)]
  rfl

/-- The number written for an integer is read as an integer. -/
theorem number_intNumeral (i : Int) : (pyHooks K).number (intNumeral i) = .int i := by
  have hint : (intNumeral i).isInt = true := rfl
  rw [Hooks.number, if_pos hint, toInt_intNumeral]
  rfl

/-- A printed integer is one of the grammar. -/
theorem denotes_int {i : Int} {text : Str} (h : encodeInt limits i = .ok text) (rest : Str) :
    Denotes (pyHooks K) (text ++ rest) rest (.value (.int i)) := by
  unfold encodeInt at h
  split at h
  · cases h
  · cases h
    have hnumber := @Denotes.number _ (pyHooks K) (intNumeral i) rest (valid_intNumeral i)
    have htext : (intNumeral i).text = Str.ofInt i := by simp [Numeral.text, intNumeral]
    rwa [number_intNumeral, htext] at hnumber

/-- A finite float is read back. -/
theorem denotes_float [FloatText K] {x : K} (h : isFinite x = true) (rest : Str) :
    Denotes (pyHooks K) (PyDecimal.repr x ++ rest) rest (.value (.float x)) := by
  obtain ⟨n, hvalid, hint, hrepr, hdecimal⟩ := FloatText.repr_finite x h
  have hnumber := @Denotes.number _ (pyHooks K) n rest hvalid
  have hvalue : (pyHooks K).number n = .float x := by
    rw [Hooks.number, if_neg (by simp [hint]), ← hdecimal]
    rfl
  rwa [hvalue, ← hrepr] at hnumber

/-- A string is read back. -/
theorem denotes_str (s rest : Str) :
    Denotes (pyHooks K) (encodeString false s ++ rest) rest (.value (.str s)) := by
  have hstring := @Denotes.string _ (pyHooks K) _ _ _ (body_encodeString s rest)
  rw [joined_pieceOf] at hstring
  rw [encodeString, List.cons_append, List.append_assoc]
  exact hstring

mutual

/-- The text of a value begins with this value, whatever is behind it. -/
theorem denotes_compact [FloatText K] (level : Nat) : ∀ (v : PyVal K) {text : Str},
    compact limits level v = .ok text → v.Portable → ∀ rest,
      Denotes (pyHooks K) (text ++ rest) rest (.value v)
  | .none, _, h, _, rest => by
    cases h
    exact .word (by simp [Hooks.words, pyHooks])
  | .bool b, _, h, _, rest => by
    cases h
    cases b
    · exact .word (by simp [Hooks.words, pyHooks])
    · exact .word (by simp [Hooks.words, pyHooks])
  | .int i, _, h, _, rest => denotes_int h rest
  | .float x, _, h, hv, rest => by
    cases h
    exact denotes_float hv rest
  | .str s, _, h, _, rest => by
    cases h
    exact denotes_str s rest
  | .list [], _, h, _, rest => by
    obtain ⟨-, -, h⟩ := exists_of_bind_eq_ok h
    cases h
    exact .emptyList (Blank.refl _)
  | .list (v :: vs), _, h, hv, rest => by
    obtain ⟨-, -, h⟩ := exists_of_bind_eq_ok h
    obtain ⟨texts, htexts, h⟩ := exists_of_bind_eq_ok h
    cases h
    have helements := denotes_compactElements (level + 1) (v :: vs) htexts hv
      (List.cons_ne_nil _ _) (closeBracket :: rest)
    rw [List.cons_append, List.append_assoc]
    exact .list (Blank.refl _) helements
  | .dict [], _, h, _, rest => by
    obtain ⟨-, -, h⟩ := exists_of_bind_eq_ok h
    cases h
    exact .emptyDict (Blank.refl _)
  | .dict (item :: items), _, h, hv, rest => by
    obtain ⟨-, -, h⟩ := exists_of_bind_eq_ok h
    obtain ⟨texts, htexts, h⟩ := exists_of_bind_eq_ok h
    cases h
    have hmembers := denotes_compactItems (level + 1) (item :: items) htexts hv.2
      (List.cons_ne_nil _ _) (closeBrace :: rest)
    rw [List.cons_append, List.append_assoc]
    have hdict := Denotes.dict (Blank.refl _) hmembers
    rwa [dict_of_nodup hv.1] at hdict
  | .object _, _, h, _, _ => by cases h

/-- The elements of a list are read back. -/
theorem denotes_compactElements [FloatText K] (level : Nat) : ∀ (vs : List (PyVal K))
    {texts : List Str}, compactElements limits level vs = .ok texts →
      PyVal.PortableElements vs → vs ≠ [] → ∀ rest,
        Denotes (pyHooks K) (Str.join [comma] texts ++ rest) rest (.elements vs)
  | [], _, _, _, hne, _ => absurd rfl hne
  | [v], _, h, hv, _, rest => by
    obtain ⟨first, hfirst, h⟩ := exists_of_bind_eq_ok h
    cases h
    exact .element (denotes_compact level v hfirst hv.1 rest) (Blank.refl _)
  | v :: w :: ws, _, h, hv, _, rest => by
    obtain ⟨first, hfirst, h⟩ := exists_of_bind_eq_ok h
    obtain ⟨more, hmore, h⟩ := exists_of_bind_eq_ok h
    cases h
    have helements := denotes_compactElements level (w :: ws) hmore hv.2 (List.cons_ne_nil _ _) rest
    obtain ⟨second, -, hmore⟩ := exists_of_bind_eq_ok hmore
    obtain ⟨others, -, hmore⟩ := exists_of_bind_eq_ok hmore
    cases hmore
    rw [Str.join_cons_cons, List.append_assoc, List.append_assoc]
    exact .elements (denotes_compact level v hfirst hv.1 _) (Blank.refl _) (Blank.refl _) helements

/-- The items of a dictionary are read back. -/
theorem denotes_compactItems [FloatText K] (level : Nat) : ∀ (items : List (Str × PyVal K))
    {texts : List Str}, compactItems limits level items = .ok texts →
      PyVal.PortableItems items → items ≠ [] → ∀ rest,
        Denotes (pyHooks K) (Str.join [comma] texts ++ rest) rest (.members items)
  | [], _, _, _, hne, _ => absurd rfl hne
  | [(key, v)], _, h, hv, _, rest => by
    obtain ⟨first, hfirst, h⟩ := exists_of_bind_eq_ok h
    cases h
    have hmember := Denotes.member (body_encodeString key (colon :: (first ++ rest))) (Blank.refl _)
      (Blank.refl _) (denotes_compact level v hfirst hv.1 rest) (Blank.refl _)
    rw [joined_pieceOf] at hmember
    simpa [Str.join, encodeString] using hmember
  | (key, v) :: item :: items, _, h, hv, _, rest => by
    obtain ⟨first, hfirst, h⟩ := exists_of_bind_eq_ok h
    obtain ⟨more, hmore, h⟩ := exists_of_bind_eq_ok h
    cases h
    have hmembers := denotes_compactItems level (item :: items) hmore hv.2 (List.cons_ne_nil _ _) rest
    obtain ⟨second, -, hmore⟩ := exists_of_bind_eq_ok hmore
    obtain ⟨others, -, hmore⟩ := exists_of_bind_eq_ok hmore
    cases hmore
    have hall := Denotes.members (body_encodeString key _) (Blank.refl _) (Blank.refl _)
      (denotes_compact level v hfirst hv.1 _) (Blank.refl _) (Blank.refl _) hmembers
    rw [joined_pieceOf] at hall
    rw [Str.join_cons_cons]
    simpa [encodeString] using hall

end

/-- What is printed is decoded to the value. -/
theorem loads_compact [FloatText K] {v : PyVal K} {text : Str} (h : dumpsCompact limits v = .ok text)
    (hv : v.Portable) : loads (pyHooks K) .unlimited text = .ok v := by
  have hdenotes := denotes_compact 0 v h hv []
  rw [List.append_nil] at hdenotes
  exact loads_unlimited_iff.mpr ⟨text, [], Blank.refl _, hdenotes, Blank.refl _⟩

end Grammar

section Characters

/-- No control characters and no surrogates. -/
def Printable (s : Str) : Prop := ∀ c ∈ s, 32 ≤ c.val ∧ Utf8.isSurrogate c = false

/-- The empty text is printable. -/
theorem printable_nil : Printable [] := fun _ h => by cases h

/-- A text is printable when its first character and the others are. -/
@[simp] theorem printable_cons {c : CodePoint} {s : Str} :
    Printable (c :: s) ↔ (32 ≤ c.val ∧ Utf8.isSurrogate c = false) ∧ Printable s :=
  List.forall_mem_cons

/-- Two texts are printable together when both are. -/
@[simp] theorem printable_append {s t : Str} : Printable (s ++ t) ↔ Printable s ∧ Printable t :=
  List.forall_mem_append

/-- A literal without control characters is printable. -/
theorem printable_lit {s : String} (h : ((lit s).all fun c => 32 ≤ c.val) = true) :
    Printable (lit s) :=
  fun c hc => ⟨of_decide_eq_true (List.all_eq_true.mp h c hc), Utf8.clean_lit s c hc⟩

/-- Visible ASCII characters. -/
theorem printable_of_ascii {s : Str} (h : ∀ c ∈ s, 32 ≤ c.val ∧ c.val < 128) : Printable s :=
  fun c hc => ⟨(h c hc).1, isSurrogate_of_ascii (h c hc).2⟩

/-- Digits are printable. -/
theorem printable_digits {s : Str} (h : s.all isDigit = true) : Printable s := by
  refine printable_of_ascii fun c hc => ?_
  have hdigit := List.all_eq_true.mp h c hc
  simp only [isDigit, Bool.and_eq_true, decide_eq_true_eq] at hdigit
  omega

/-- An integer is printable. -/
theorem printable_ofInt (i : Int) : Printable (Str.ofInt i) := by
  rw [ofInt_eq, printable_append]
  refine ⟨?_, printable_digits (all_isDigit_ofNat _)⟩
  split
  · exact printable_lit (s := "-") (by decide)
  · exact printable_nil

/-- The numbers of the grammar are written in visible ASCII characters. -/
theorem printable_numeral {n : Numeral} (h : n.Valid) : Printable n.text := by
  obtain ⟨⟨sign, d, ds, hsign, hd, hds, -, hinteger⟩, hfraction, hexponent⟩ := h
  have hdigits : ∀ {ds : Str}, ds.all isDigit = true → Printable ds := printable_digits
  rw [Numeral.text, hinteger, printable_append, printable_append, printable_append]
  refine ⟨⟨⟨?_, hdigits (by simp [hd, hds])⟩, ?_⟩, ?_⟩
  · rcases hsign with rfl | rfl
    · exact printable_nil
    · exact printable_lit (s := "-") (by decide)
  · rcases hfraction with he | ⟨ds, -, hds, he⟩
    · rw [he]
      exact printable_nil
    · rw [he, printable_cons]
      exact ⟨by decide, hdigits hds⟩
  · rcases hexponent with he | ⟨mark, sign, ds, hmark, hsign, -, hds, he⟩
    · rw [he]
      exact printable_nil
    · rw [he, printable_cons, printable_append]
      refine ⟨?_, ?_, hdigits hds⟩
      · simp only [Numeral.isMark, Bool.or_eq_true, decide_eq_true_eq] at hmark
        rcases hmark with rfl | rfl <;> decide
      · rcases hsign with rfl | ⟨c, hc, rfl⟩
        · exact printable_nil
        · simp only [Numeral.isSign, Bool.or_eq_true, decide_eq_true_eq] at hc
          rcases hc with rfl | rfl
          · exact printable_lit (s := "+") (by decide)
          · exact printable_lit (s := "-") (by decide)

/-- An escaped code unit is printable. -/
theorem printable_unitText (n : Nat) : Printable (unitText n) := by
  have hletter : ∀ m, 32 ≤ (hexLetter (m % 16)).val ∧ (hexLetter (m % 16)).val < 128 := by
    intro m
    have hlt := Nat.mod_lt m (show 0 < 16 by decide)
    change 32 ≤ (if m % 16 < 10 then 48 + m % 16 else 87 + m % 16) % 0x110000 ∧
      (if m % 16 < 10 then 48 + m % 16 else 87 + m % 16) % 0x110000 < 128
    split <;> omega
  refine printable_of_ascii fun c hc => ?_
  simp only [unitText, List.mem_cons, List.not_mem_nil, or_false] at hc
  rcases hc with rfl | rfl | rfl | rfl | rfl | rfl
  · decide
  · decide
  · exact hletter _
  · exact hletter _
  · exact hletter _
  · exact hletter _

/-- A character that is no surrogate is written in printable ones. -/
theorem printable_encodeChar {c : CodePoint} (h : Utf8.isSurrogate c = false) :
    Printable (encodeChar false c) := by
  unfold encodeChar
  cases hlookup : letters.lookup c with
  | some letter =>
    obtain ⟨-, hlow, hhigh⟩ := escapes_of_letters hlookup
    rw [printable_cons, printable_cons]
    exact ⟨by decide, ⟨hlow, isSurrogate_of_ascii hhigh⟩, printable_nil⟩
  | none =>
    by_cases hc : c.val < 32
    · simp only [hc, if_true]
      exact printable_unitText _
    · simp only [hc, if_false, Bool.false_and, Bool.false_eq_true, printable_cons]
      exact ⟨⟨by omega, h⟩, printable_nil⟩

/-- A string without surrogates is written in printable characters. -/
theorem printable_encodeString {s : Str} (h : Utf8.Clean s) : Printable (encodeString false s) := by
  rw [encodeString, printable_cons, printable_append]
  refine ⟨by decide, fun c hc => ?_, printable_lit (s := "\"") (by decide)⟩
  obtain ⟨d, hd, hc⟩ := List.mem_flatMap.mp hc
  exact printable_encodeChar (h d hd) c hc

/-- Printable texts with commas between them are printable. -/
theorem printable_join {texts : List Str} (h : ∀ t ∈ texts, Printable t) :
    Printable (Str.join [comma] texts) := by
  induction texts with
  | nil => exact printable_nil
  | cons t texts ih =>
    rw [List.forall_mem_cons] at h
    cases texts with
    | nil => exact h.1
    | cons t' texts =>
      rw [Str.join_cons_cons, printable_append, printable_append]
      exact ⟨⟨h.1, printable_lit (s := ",") (by decide)⟩, ih h.2⟩

variable {K : Type} [PyFloat K] [PyDecimal K] {limits : Limits}

mutual

/-- The text of a value is printable when its strings have no surrogates. -/
theorem printable_compact [FloatText K] (level : Nat) : ∀ (v : PyVal K) {text : Str},
    compact limits level v = .ok text → v.Portable → v.Clean → Printable text
  | .none, _, h, _, _ => by
    cases h
    exact printable_lit (by decide)
  | .bool b, _, h, _, _ => by
    cases h
    cases b
    · exact printable_lit (s := "false") (by decide)
    · exact printable_lit (s := "true") (by decide)
  | .int i, _, h, _, _ => by
    rw [compact, encodeInt] at h
    split at h <;> cases h
    exact printable_ofInt i
  | .float x, _, h, hv, _ => by
    cases h
    obtain ⟨n, hvalid, -, hrepr, -⟩ := FloatText.repr_finite x hv
    rw [hrepr]
    exact printable_numeral hvalid
  | .str s, _, h, _, hc => by
    cases h
    exact printable_encodeString hc
  | .list vs, _, h, hv, hc => by
    obtain ⟨-, -, h⟩ := exists_of_bind_eq_ok h
    obtain ⟨texts, htexts, h⟩ := exists_of_bind_eq_ok h
    cases h
    rw [printable_cons, printable_append]
    exact ⟨by decide, printable_join (printable_compactElements (level + 1) vs htexts hv hc),
      printable_lit (s := "]") (by decide)⟩
  | .dict items, _, h, hv, hc => by
    obtain ⟨-, -, h⟩ := exists_of_bind_eq_ok h
    obtain ⟨texts, htexts, h⟩ := exists_of_bind_eq_ok h
    cases h
    rw [printable_cons, printable_append]
    exact ⟨by decide, printable_join (printable_compactItems (level + 1) items htexts hv.2 hc),
      printable_lit (s := "\x7d") (by decide)⟩
  | .object _, _, h, _, _ => by cases h

/-- The elements of a list without surrogates are printable. -/
theorem printable_compactElements [FloatText K] (level : Nat) : ∀ (vs : List (PyVal K)) {texts : List Str},
    compactElements limits level vs = .ok texts → PyVal.PortableElements vs →
      PyVal.CleanElements vs → ∀ t ∈ texts, Printable t
  | [], _, h, _, _ => by
    cases h
    exact fun _ ht => by cases ht
  | v :: vs, _, h, hv, hc => by
    obtain ⟨first, hfirst, h⟩ := exists_of_bind_eq_ok h
    obtain ⟨more, hmore, h⟩ := exists_of_bind_eq_ok h
    cases h
    rw [List.forall_mem_cons]
    exact ⟨printable_compact level v hfirst hv.1 hc.1,
      printable_compactElements level vs hmore hv.2 hc.2⟩

/-- The items of a dictionary without surrogates are printable. -/
theorem printable_compactItems [FloatText K] (level : Nat) : ∀ (items : List (Str × PyVal K)) {texts : List Str},
    compactItems limits level items = .ok texts → PyVal.PortableItems items →
      PyVal.CleanItems items → ∀ t ∈ texts, Printable t
  | [], _, h, _, _ => by
    cases h
    exact fun _ ht => by cases ht
  | (key, v) :: items, _, h, hv, hc => by
    obtain ⟨first, hfirst, h⟩ := exists_of_bind_eq_ok h
    obtain ⟨more, hmore, h⟩ := exists_of_bind_eq_ok h
    cases h
    rw [List.forall_mem_cons, printable_append, printable_cons]
    exact ⟨⟨printable_encodeString hc.1, by decide, printable_compact level v hfirst hv.1 hc.2.1⟩,
      printable_compactItems level items hmore hv.2 hc.2.2⟩

end

end Characters

section Returns

variable {K : Type} [PyDecimal K] {limits : Limits}

mutual

/-- Exactly the shaped values have a compact text. -/
theorem compact_ok_iff (level : Nat) : ∀ v : PyVal K,
    (∃ text, compact limits level v = .ok text) ↔ v.Shaped limits level
  | .none => by simp [compact, PyVal.Shaped]
  | .bool b => by simp [compact, PyVal.Shaped]
  | .int i => by rw [compact, encodeInt_ok_iff, PyVal.Shaped]
  | .float x => by simp [compact, PyVal.Shaped]
  | .str s => by simp [compact, PyVal.Shaped]
  | .list vs => by
    rw [compact, enter_bind_ok_iff, bind_pure_ok_iff, compactElements_ok_iff, PyVal.Shaped]
  | .dict items => by
    rw [compact, enter_bind_ok_iff, bind_pure_ok_iff, compactItems_ok_iff, PyVal.Shaped]
  | .object tag => by simp [compact, PyVal.Shaped]

/-- The elements of a list are written when they are in shape. -/
theorem compactElements_ok_iff (level : Nat) : ∀ vs : List (PyVal K),
    (∃ texts, compactElements limits level vs = .ok texts) ↔ PyVal.ShapedElements limits level vs
  | [] => by simp [compactElements, PyVal.ShapedElements]
  | v :: vs => by
    rw [compactElements, bind_and_ok_iff, compact_ok_iff, compactElements_ok_iff]
    rfl

/-- The items of a dictionary are written when they are in shape. -/
theorem compactItems_ok_iff (level : Nat) : ∀ items : List (Str × PyVal K),
    (∃ texts, compactItems limits level items = .ok texts) ↔ PyVal.ShapedItems limits level items
  | [] => by simp [compactItems, PyVal.ShapedItems]
  | (key, v) :: items => by
    rw [compactItems, bind_and_ok_iff, compact_ok_iff, compactItems_ok_iff]
    rfl

end

/-- Without a limit every level may be entered. -/
theorem admits_unlimited (level : Nat) : Admits .unlimited level := fun _ h => by cases h

mutual

/-- Without limits every value of JSON has a text. -/
theorem shaped_unlimited [PyFloat K] (level : Nat) : ∀ v : PyVal K, v.Portable →
    v.Shaped .unlimited level
  | .none, _ => trivial
  | .bool _, _ => trivial
  | .int _, _ => fun _ h => by cases h
  | .float _, _ => trivial
  | .str _, _ => trivial
  | .list vs, h => ⟨admits_unlimited level, shapedElements_unlimited (level + 1) vs h⟩
  | .dict items, h => ⟨admits_unlimited level, shapedItems_unlimited (level + 1) items h.2⟩
  | .object _, h => h.elim

/-- Without limits portable elements are in shape. -/
theorem shapedElements_unlimited [PyFloat K] (level : Nat) : ∀ vs : List (PyVal K),
    PyVal.PortableElements vs → PyVal.ShapedElements .unlimited level vs
  | [], _ => trivial
  | v :: vs, h => ⟨shaped_unlimited level v h.1, shapedElements_unlimited level vs h.2⟩

/-- Without limits portable items are in shape. -/
theorem shapedItems_unlimited [PyFloat K] (level : Nat) : ∀ items : List (Str × PyVal K),
    PyVal.PortableItems items → PyVal.ShapedItems .unlimited level items
  | [], _ => trivial
  | (_, v) :: items, h => ⟨shaped_unlimited level v h.1, shapedItems_unlimited level items h.2⟩

end

end Returns

end CognitiveTree.Search
