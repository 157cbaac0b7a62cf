import CognitiveTree.Core.Program
import CognitiveTree.Core.Utf8
import CognitiveTree.Search.JsonText

/-!
# Values with a JSON text

`Shaped` says which values have a text, within the limits of the interpreter; `Clean` says which
of these texts have bytes in UTF-8. Both follow the structure of the value.
-/

namespace CognitiveTree.Search

open Json

/-- The integer is short enough to be printed. -/
def Prints (limits : Limits) (i : Int) : Prop :=
  ∀ limit ∈ limits.digits, (Str.ofNat i.natAbs).length ≤ limit

/-- A container at this level is within the recursion limit. -/
def Admits (limits : Limits) (level : Nat) : Prop := ∀ limit ∈ limits.depth, level < limit

namespace PyVal

variable {K : Type}

mutual

/-- The value has a JSON text at this level. -/
def Shaped (limits : Limits) (level : Nat) : PyVal K → Prop
  | .int i => Prints limits i
  | .list vs => Admits limits level ∧ ShapedElements limits (level + 1) vs
  | .dict items => Admits limits level ∧ ShapedItems limits (level + 1) items
  | .object _ => False
  | _ => True

def ShapedElements (limits : Limits) (level : Nat) : List (PyVal K) → Prop
  | [] => True
  | v :: vs => Shaped limits level v ∧ ShapedElements limits level vs

def ShapedItems (limits : Limits) (level : Nat) : List (Str × PyVal K) → Prop
  | [] => True
  | (_, v) :: items => Shaped limits level v ∧ ShapedItems limits level items

end

mutual

/-- No string of the value has a surrogate. -/
def Clean : PyVal K → Prop
  | .str s => Utf8.Clean s
  | .list vs => CleanElements vs
  | .dict items => CleanItems items
  | _ => True

def CleanElements : List (PyVal K) → Prop
  | [] => True
  | v :: vs => Clean v ∧ CleanElements vs

def CleanItems : List (Str × PyVal K) → Prop
  | [] => True
  | (key, v) :: items => Utf8.Clean key ∧ Clean v ∧ CleanItems items

end

/-- The elements of a list are in shape when each of them is. -/
theorem shapedElements_iff {limits : Limits} {level : Nat} {vs : List (PyVal K)} :
    ShapedElements limits level vs ↔ ∀ v ∈ vs, Shaped limits level v := by
  induction vs with
  | nil => simp [ShapedElements]
  | cons v vs ih => rw [ShapedElements, List.forall_mem_cons, ih]

/-- The elements of a list have no surrogates when none of them has. -/
theorem cleanElements_iff {vs : List (PyVal K)} : CleanElements vs ↔ ∀ v ∈ vs, Clean v := by
  induction vs with
  | nil => simp [CleanElements]
  | cons v vs ih => rw [CleanElements, List.forall_mem_cons, ih]

end PyVal

/-- Floats are printed in ASCII. -/
class PrintedFloats (K : Type) [PyDecimal K] : Prop where
  ascii : ∀ x : K, ∀ c ∈ PyDecimal.repr x, c.val < 128

section Encoder

variable {K : Type} [PyDecimal K] {limits : Limits} {ascii : Bool}

omit [PyDecimal K] in
/-- Two steps succeed when the first does, and the second from its value. -/
theorem bind_ok_iff {ε α β : Type} {x : Except ε α} {f : α → Except ε β} :
    (∃ b, x >>= f = .ok b) ↔ ∃ a, x = .ok a ∧ ∃ b, f a = .ok b := by
  constructor
  · rintro ⟨b, h⟩
    obtain ⟨a, ha, hb⟩ := exists_of_bind_eq_ok h
    exact ⟨a, ha, b, hb⟩
  · rintro ⟨a, rfl, h⟩
    exact h

/-- An integer is printed when its digits are within the limit. -/
theorem encodeInt_ok_iff (i : Int) : (∃ text, encodeInt limits i = .ok text) ↔ Prints limits i := by
  unfold encodeInt Prints
  cases limits.digits with
  | none => simp
  | some limit =>
    simp only [Option.any_some, Option.mem_some_iff, forall_eq', decide_eq_true_eq]
    split <;> simp <;> omega

/-- A container is entered when its level is within the recursion limit. -/
theorem enterLevel_ok_iff (level : Nat) : enterLevel limits level = .ok () ↔ Admits limits level := by
  unfold enterLevel Admits
  cases limits.depth with
  | none => simp
  | some limit =>
    simp only [Option.any_some, Option.mem_some_iff, forall_eq', decide_eq_true_eq]
    split <;> simp <;> omega

/-- What stands inside a container succeeds when the container may be entered. -/
theorem enter_bind_ok_iff {α : Type} {level : Nat} {x : Except Exc α} :
    (∃ b, (enterLevel limits level >>= fun _ => x) = .ok b) ↔
      Admits limits level ∧ ∃ b, x = .ok b := by
  rw [bind_ok_iff, ← enterLevel_ok_iff]
  constructor
  · rintro ⟨⟨⟩, h⟩
    exact h
  · rintro ⟨h, hb⟩
    exact ⟨(), h, hb⟩

/-- A pure step behind another one never fails. -/
theorem bind_pure_ok_iff {α β : Type} {x : Except Exc α} {f : α → β} :
    (∃ b, (x >>= fun a => pure (f a)) = .ok b) ↔ ∃ a, x = .ok a :=
  bind_ok_iff.trans ⟨fun ⟨a, ha, _⟩ => ⟨a, ha⟩, fun ⟨a, ha⟩ => ⟨a, ha, _, rfl⟩⟩

/-- Two independent steps succeed when both do. -/
theorem bind_and_ok_iff {α β γ : Type} {x : Except Exc α} {y : Except Exc β} {f : α → β → γ} :
    (∃ b, (x >>= fun a => y >>= fun b => pure (f a b)) = .ok b) ↔
      (∃ a, x = .ok a) ∧ ∃ b, y = .ok b := by
  rw [bind_ok_iff]
  constructor
  · rintro ⟨a, ha, h⟩
    exact ⟨⟨a, ha⟩, bind_pure_ok_iff.mp h⟩
  · rintro ⟨⟨a, ha⟩, h⟩
    exact ⟨a, ha, bind_pure_ok_iff.mpr h⟩

mutual

/-- Exactly the shaped values have a text. -/
theorem encode_ok_iff (level : Nat) : ∀ v : PyVal K,
    (∃ text, encode limits ascii level v = .ok text) ↔ v.Shaped limits level
  | .none => by simp [encode, PyVal.Shaped]
  | .bool b => by simp [encode, PyVal.Shaped]
  | .int i => by rw [encode, encodeInt_ok_iff, PyVal.Shaped]
  | .float x => by simp [encode, PyVal.Shaped]
  | .str s => by simp [encode, PyVal.Shaped]
  | .list [] => by
    rw [encode, enter_bind_ok_iff, PyVal.Shaped, PyVal.ShapedElements]
    exact and_congr_right fun _ => ⟨fun _ => trivial, fun _ => ⟨_, rfl⟩⟩
  | .list (v :: vs) => by
    rw [encode, enter_bind_ok_iff, bind_and_ok_iff, encode_ok_iff, encodeElements_ok_iff]
    rfl
  | .dict [] => by
    rw [encode, enter_bind_ok_iff, PyVal.Shaped, PyVal.ShapedItems]
    exact and_congr_right fun _ => ⟨fun _ => trivial, fun _ => ⟨_, rfl⟩⟩
  | .dict ((key, v) :: items) => by
    rw [encode, enter_bind_ok_iff, bind_and_ok_iff, encode_ok_iff, encodeItems_ok_iff]
    rfl
  | .object tag => by simp [encode, PyVal.Shaped]

/-- The elements of a list are written when they are in shape. -/
theorem encodeElements_ok_iff (level : Nat) : ∀ vs : List (PyVal K),
    (∃ text, encodeElements limits ascii level vs = .ok text) ↔
      PyVal.ShapedElements limits level vs
  | [] => by simp [encodeElements, PyVal.ShapedElements]
  | v :: vs => by
    rw [encodeElements, bind_and_ok_iff, encode_ok_iff, encodeElements_ok_iff]
    rfl

/-- The items of a dictionary are written when they are in shape. -/
theorem encodeItems_ok_iff (level : Nat) : ∀ items : List (Str × PyVal K),
    (∃ text, encodeItems limits ascii level items = .ok text) ↔
      PyVal.ShapedItems limits level items
  | [] => by simp [encodeItems, PyVal.ShapedItems]
  | (key, v) :: items => by
    rw [encodeItems, bind_and_ok_iff, encode_ok_iff, encodeItems_ok_iff]
    rfl

end

/-- The exceptions of the encoder. -/
def encoderErrors : List Str := [lit "ValueError", lit "RecursionError", lit "TypeError"]

omit [PyDecimal K] in
/-- A pure sequence that raised has raised in one of its parts. -/
theorem error_of_bind {ε α β : Type} {x : Except ε α} {f : α → Except ε β} {e : ε}
    (h : x >>= f = .error e) : x = .error e ∨ ∃ a, x = .ok a ∧ f a = .error e := by
  cases x with
  | ok a => exact .inr ⟨a, rfl, h⟩
  | error e' =>
    cases h
    exact .inl rfl

/-- An integer with too many digits raises one of the encoder's errors. -/
theorem encodeInt_error {i : Int} {e : Exc} (h : encodeInt limits i = .error e) :
    e.typeName ∈ encoderErrors := by
  unfold encodeInt at h
  split at h <;> cases h
  exact List.mem_cons_self ..

/-- A level that is too deep raises one of the encoder's errors. -/
theorem enterLevel_error {level : Nat} {e : Exc} (h : enterLevel limits level = .error e) :
    e.typeName ∈ encoderErrors := by
  unfold enterLevel at h
  split at h <;> cases h
  exact List.mem_cons_of_mem _ (List.mem_cons_self ..)

mutual

/-- The encoder raises no other errors than its own. -/
theorem encode_error (level : Nat) : ∀ (v : PyVal K) {e : Exc},
    encode limits ascii level v = .error e → e.typeName ∈ encoderErrors
  | .none, _, h => by cases h
  | .bool _, _, h => by cases h
  | .int _, _, h => encodeInt_error h
  | .float _, _, h => by cases h
  | .str _, _, h => by cases h
  | .list [], _, h => by
    rcases error_of_bind h with h | ⟨_, _, h⟩
    · exact enterLevel_error h
    · cases h
  | .list (v :: vs), _, h => by
    rcases error_of_bind h with h | ⟨_, _, h⟩
    · exact enterLevel_error h
    rcases error_of_bind h with h | ⟨_, _, h⟩
    · exact encode_error (level + 1) v h
    rcases error_of_bind h with h | ⟨_, _, h⟩
    · exact encodeElements_error (level + 1) vs h
    · cases h
  | .dict [], _, h => by
    rcases error_of_bind h with h | ⟨_, _, h⟩
    · exact enterLevel_error h
    · cases h
  | .dict ((_, v) :: items), _, h => by
    rcases error_of_bind h with h | ⟨_, _, h⟩
    · exact enterLevel_error h
    rcases error_of_bind h with h | ⟨_, _, h⟩
    · exact encode_error (level + 1) v h
    rcases error_of_bind h with h | ⟨_, _, h⟩
    · exact encodeItems_error (level + 1) items h
    · cases h
  | .object _, _, h => by
    cases h
    exact List.mem_cons_of_mem _ (List.mem_cons_of_mem _ (List.mem_cons_self ..))

/-- The elements of a list raise no other errors than the encoder's. -/
theorem encodeElements_error (level : Nat) : ∀ (vs : List (PyVal K)) {e : Exc},
    encodeElements limits ascii level vs = .error e → e.typeName ∈ encoderErrors
  | [], _, h => by cases h
  | v :: vs, _, h => by
    rcases error_of_bind h with h | ⟨_, _, h⟩
    · exact encode_error level v h
    rcases error_of_bind h with h | ⟨_, _, h⟩
    · exact encodeElements_error level vs h
    · cases h

/-- The items of a dictionary raise no other errors than the encoder's. -/
theorem encodeItems_error (level : Nat) : ∀ (items : List (Str × PyVal K)) {e : Exc},
    encodeItems limits ascii level items = .error e → e.typeName ∈ encoderErrors
  | [], _, h => by cases h
  | (_, v) :: items, _, h => by
    rcases error_of_bind h with h | ⟨_, _, h⟩
    · exact encode_error level v h
    rcases error_of_bind h with h | ⟨_, _, h⟩
    · exact encodeItems_error level items h
    · cases h

end

/-- An ASCII character is no surrogate. -/
theorem isSurrogate_of_ascii {c : CodePoint} (h : c.val < 128) : Utf8.isSurrogate c = false := by
  simp only [Utf8.isSurrogate, Bool.and_eq_false_iff, decide_eq_false_iff_not]
  omega

/-- A code unit is escaped in ASCII. -/
theorem clean_unitText (n : Nat) : Utf8.Clean (unitText n) := by
  have hletter : ∀ m, Utf8.isSurrogate (hexLetter (m % 16)) = false := by
    intro m
    have hlt := Nat.mod_lt m (show 0 < 16 by decide)
    refine isSurrogate_of_ascii ?_
    change (if m % 16 < 10 then 48 + m % 16 else 87 + m % 16) % 0x110000 < 128
    split <;> omega
  simp only [unitText, Utf8.clean_cons, Utf8.clean_nil, hletter, and_true]
  decide

/-- Without `ensure_ascii` a character is written as itself, or escaped when it is in ASCII. -/
theorem clean_encodeChar (c : CodePoint) :
    Utf8.Clean (encodeChar false c) ↔ Utf8.isSurrogate c = false := by
  unfold encodeChar
  split
  · rename_i letter h
    obtain ⟨before, after, hsplit, -⟩ := List.lookup_eq_some_iff.mp h
    have hmem : (c, letter) ∈ letters := by
      rw [hsplit]
      exact List.mem_append_right _ (List.mem_cons_self ..)
    have hall : letters.all fun p => !Utf8.isSurrogate p.1 && !Utf8.isSurrogate p.2 := by decide
    have hpair := List.all_eq_true.mp hall _ hmem
    simp only [Bool.and_eq_true, Bool.not_eq_true'] at hpair
    simp only [Utf8.clean_cons, Utf8.clean_nil, hpair.1, hpair.2, and_true, iff_true]
    decide
  · split
    · rename_i hsmall
      exact iff_of_true (clean_unitText _) (isSurrogate_of_ascii (by omega))
    · simp

/-- A string is written with a surrogate when it has one. -/
theorem clean_encodeString (s : Str) : Utf8.Clean (encodeString false s) ↔ Utf8.Clean s := by
  have hbody : Utf8.Clean (s.flatMap (encodeChar false)) ↔ Utf8.Clean s := by
    induction s with
    | nil => simp
    | cons c s ih => rw [List.flatMap_cons, Utf8.clean_append, Utf8.clean_cons, clean_encodeChar, ih]
  have hquote : Utf8.isSurrogate quote = false := by decide
  simp [encodeString, hbody, hquote]

/-- Line ends and indents have no surrogates. -/
theorem clean_newline (level : Nat) : Utf8.Clean (newline level) := by
  intro c hc
  rcases List.mem_cons.mp hc with rfl | hc
  · decide
  · rw [List.eq_of_mem_replicate hc]
    decide

/-- An integer has no surrogates. -/
theorem clean_ofInt (i : Int) : Utf8.Clean (Str.ofInt i) := by
  unfold Str.ofInt
  split <;> simp

mutual

/-- Exactly the texts of clean values are clean. -/
theorem clean_encode [PrintedFloats K] (level : Nat) : ∀ (v : PyVal K) {text : Str},
    encode limits false level v = .ok text → (Utf8.Clean text ↔ v.Clean)
  | .none, _, h => by
    cases h
    exact iff_of_true (Utf8.clean_lit _) trivial
  | .bool b, _, h => by
    cases h
    cases b <;> exact iff_of_true (Utf8.clean_lit _) trivial
  | .int i, _, h => by
    rw [encode, encodeInt] at h
    split at h <;> cases h
    exact iff_of_true (clean_ofInt i) trivial
  | .float x, _, h => by
    cases h
    exact iff_of_true (fun c hc => isSurrogate_of_ascii (PrintedFloats.ascii x c hc)) trivial
  | .str s, _, h => by
    cases h
    exact clean_encodeString s
  | .list [], _, h => by
    obtain ⟨-, -, h⟩ := exists_of_bind_eq_ok h
    cases h
    exact iff_of_true (Utf8.clean_lit _) trivial
  | .list (v :: vs), _, h => by
    obtain ⟨-, -, h⟩ := exists_of_bind_eq_ok h
    obtain ⟨first, hfirst, h⟩ := exists_of_bind_eq_ok h
    obtain ⟨more, hmore, h⟩ := exists_of_bind_eq_ok h
    cases h
    have hv := clean_encode (level + 1) v hfirst
    have hvs := clean_encodeElements (level + 1) vs hmore
    simp [hv, hvs, clean_newline, PyVal.Clean, PyVal.CleanElements]
  | .dict [], _, h => by
    obtain ⟨-, -, h⟩ := exists_of_bind_eq_ok h
    cases h
    exact iff_of_true (Utf8.clean_lit _) trivial
  | .dict ((key, v) :: items), _, h => by
    obtain ⟨-, -, h⟩ := exists_of_bind_eq_ok h
    obtain ⟨first, hfirst, h⟩ := exists_of_bind_eq_ok h
    obtain ⟨more, hmore, h⟩ := exists_of_bind_eq_ok h
    cases h
    have hv := clean_encode (level + 1) v hfirst
    have hitems := clean_encodeItems (level + 1) items hmore
    simp [hv, hitems, clean_newline, clean_encodeString, PyVal.Clean, PyVal.CleanItems]
  | .object _, _, h => by cases h

/-- The elements of a list are written with a surrogate when one of them has one. -/
theorem clean_encodeElements [PrintedFloats K] (level : Nat) : ∀ (vs : List (PyVal K)) {text : Str},
    encodeElements limits false level vs = .ok text → (Utf8.Clean text ↔ PyVal.CleanElements vs)
  | [], _, h => by
    cases h
    exact iff_of_true Utf8.clean_nil trivial
  | v :: vs, _, h => by
    obtain ⟨first, hfirst, h⟩ := exists_of_bind_eq_ok h
    obtain ⟨more, hmore, h⟩ := exists_of_bind_eq_ok h
    cases h
    have hv := clean_encode level v hfirst
    have hvs := clean_encodeElements level vs hmore
    simp [hv, hvs, clean_newline, PyVal.CleanElements]

/-- The items of a dictionary are written with a surrogate when one of them has one. -/
theorem clean_encodeItems [PrintedFloats K] (level : Nat) : ∀ (items : List (Str × PyVal K)) {text : Str},
    encodeItems limits false level items = .ok text → (Utf8.Clean text ↔ PyVal.CleanItems items)
  | [], _, h => by
    cases h
    exact iff_of_true Utf8.clean_nil trivial
  | (key, v) :: items, _, h => by
    obtain ⟨first, hfirst, h⟩ := exists_of_bind_eq_ok h
    obtain ⟨more, hmore, h⟩ := exists_of_bind_eq_ok h
    cases h
    have hv := clean_encode level v hfirst
    have hitems := clean_encodeItems level items hmore
    simp [hv, hitems, clean_newline, clean_encodeString, PyVal.CleanItems]

end

end Encoder

end CognitiveTree.Search
