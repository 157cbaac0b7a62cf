import CognitiveTree.Json.Decoder

/-!
# Tokens

The scanners of whitespace, strings and numbers read what the grammar describes, and as much of it
as there is.
-/

namespace CognitiveTree.Json

/-! ## Whitespace -/

/-- Nothing was skipped. -/
theorem Blank.refl (s : Str) : Blank s s := ⟨[], rfl, rfl⟩

/-- The blanks are skipped. -/
theorem blank_skip (s : Str) : Blank s (skip s) :=
  ⟨s.takeWhile isBlank, List.all_takeWhile, (List.takeWhile_append_dropWhile ..).symm⟩

/-- The text does not begin with whitespace. -/
def Visible (s : Str) : Prop := s.head?.all (fun c => !isBlank c) = true

/-- The end is not blank. -/
theorem visible_nil : Visible [] := rfl

/-- A text that begins with no blank is visible. -/
theorem visible_cons {c : CodePoint} {s : Str} (h : isBlank c = false) : Visible (c :: s) := by
  simp [Visible, h]

/-- All of the whitespace is skipped. -/
theorem Blank.skip_eq {s rest : Str} (h : Blank s rest) (hrest : Visible rest) :
    skip s = rest := by
  obtain ⟨w, hw, rfl⟩ := h
  have htake : w.dropWhile isBlank = [] := List.dropWhile_eq_nil_iff.mpr (List.all_eq_true.mp hw)
  rw [skip, List.dropWhile_append, htake]
  cases rest with
  | nil => rfl
  | cons c rest =>
    have hc : isBlank c = false := by simpa [Visible] using hrest
    simp [hc]

/-- Skipping adds nothing. -/
theorem length_skip_le (s : Str) : (skip s).length ≤ s.length :=
  (List.dropWhile_sublist _).length_le

/-! ## Strings -/

/-- A plain character is no delimiter. -/
theorem isPlain_ne {c : CodePoint} (h : isPlain c = true) : c ≠ quote ∧ c ≠ backslash := by
  simp only [isPlain, Bool.and_eq_true, decide_eq_true_eq] at h
  exact ⟨h.1.2, h.2⟩

/-- The letter of a code unit is no other escape. -/
theorem ne_unitEscape {e c : CodePoint} (h : escapes.lookup e = some c) : e ≠ unitEscape := by
  rintro rfl
  cases h

/-- A backslash is no quote. -/
theorem backslash_ne_quote : backslash ≠ quote := by decide

/-- A string is scanned to its closing quote. -/
theorem scanString_of_body {s rest : Str} {pieces : List Piece} (h : Body s rest pieces) :
    scanString s = some (pieces, rest) := by
  induction h with
  | close =>
    unfold scanString
    rw [if_pos rfl]
  | plain hc _ ih =>
    unfold scanString
    rw [if_neg (isPlain_ne hc).1, if_neg (isPlain_ne hc).2, if_pos hc, ih]
    rfl
  | escape he _ ih =>
    unfold scanString
    dsimp only
    rw [if_neg backslash_ne_quote, if_pos rfl, if_neg (ne_unitEscape he), he, ih]
    rfl
  | unit hu _ ih =>
    unfold scanString
    dsimp only
    rw [if_neg backslash_ne_quote, if_pos rfl, if_pos rfl, hu, ih]
    rfl

/-- What is scanned is a string. -/
theorem body_of_scanString {s rest : Str} {pieces : List Piece}
    (h : scanString s = some (pieces, rest)) : Body s rest pieces := by
  induction s using scanString.induct generalizing pieces rest with
  | case1 => cases h
  | case2 s =>
    unfold scanString at h
    rw [if_pos rfl] at h
    cases h
    exact .close
  | case3 =>
    unfold scanString at h
    rw [if_neg backslash_ne_quote, if_pos rfl] at h
    cases h
  | case4 a b c d s _ ih =>
    unfold scanString at h
    dsimp only at h
    rw [if_neg backslash_ne_quote, if_pos rfl, if_pos rfl] at h
    obtain ⟨u, hu, h⟩ := Option.bind_eq_some_iff.mp h
    obtain ⟨⟨pieces', rest'⟩, hs, h⟩ := Option.bind_eq_some_iff.mp h
    cases h
    exact .unit hu (ih hs)
  | case5 s hshort _ =>
    unfold scanString at h
    dsimp only at h
    rw [if_neg backslash_ne_quote, if_pos rfl, if_pos rfl] at h
    split at h
    · exact absurd rfl (hshort _ _ _ _ _)
    · cases h
  | case6 e s hu _ ih =>
    unfold scanString at h
    dsimp only at h
    rw [if_neg backslash_ne_quote, if_pos rfl, if_neg hu] at h
    obtain ⟨c, hc, h⟩ := Option.bind_eq_some_iff.mp h
    obtain ⟨⟨pieces', rest'⟩, hs, h⟩ := Option.bind_eq_some_iff.mp h
    cases h
    exact .escape hc (ih hs)
  | case7 c s hquote hbackslash hplain ih =>
    unfold scanString at h
    rw [if_neg hquote, if_neg hbackslash, if_pos hplain] at h
    obtain ⟨⟨pieces', rest'⟩, hs, h⟩ := Option.bind_eq_some_iff.mp h
    cases h
    exact .plain hplain (ih hs)
  | case8 c s hquote hbackslash hplain =>
    unfold scanString at h
    rw [if_neg hquote, if_neg hbackslash, if_neg hplain] at h
    cases h

/-- A string ends behind its beginning. -/
theorem Body.length_lt {s rest : Str} {pieces : List Piece} (h : Body s rest pieces) :
    rest.length < s.length := by
  induction h with
  | close => exact Nat.lt_succ_self _
  | _ => simp only [List.length_cons] at *; omega

/-! ## Numbers -/

/-- A character that can continue a number. -/
def continues (c : CodePoint) : Bool := isDigit c || c = dot || Numeral.isMark c

/-- The text does not continue a number. -/
def Stops (s : Str) : Prop := s.head?.all (fun c => !continues c) = true

/-- A number stops at a character that cannot continue it. -/
theorem stops_cons {c : CodePoint} {s : Str} (h : continues c = false) : Stops (c :: s) := by
  simp [Stops, h]

/-- A text that does not begin with a digit. -/
def NoDigit (s : Str) : Prop := s.head?.all (fun c => !isDigit c) = true

/-- Where a number stops, no digit stands. -/
theorem Stops.noDigit {s : Str} (h : Stops s) : NoDigit s := by
  cases s with
  | nil => rfl
  | cons c s =>
    simp only [Stops, NoDigit, continues, List.head?_cons, Option.all_some, Bool.not_eq_true',
      Bool.or_eq_false_iff] at h ⊢
    exact h.1.1

/-- Digits are read as far as they go. -/
theorem takeWhile_digits {ds rest : Str} (hds : ds.all isDigit = true) (hrest : NoDigit rest) :
    (ds ++ rest).takeWhile isDigit = ds ∧ (ds ++ rest).dropWhile isDigit = rest := by
  have hstop : rest.takeWhile isDigit = [] ∧ rest.dropWhile isDigit = rest := by
    cases rest with
    | nil => exact ⟨rfl, rfl⟩
    | cons c rest =>
      have hc : isDigit c = false := by simpa [NoDigit] using hrest
      simp [hc]
  rw [List.takeWhile_append_of_pos (List.all_eq_true.mp hds),
    List.dropWhile_append_of_pos (List.all_eq_true.mp hds), hstop.1, hstop.2, List.append_nil]
  exact ⟨rfl, rfl⟩

/-- An integer part is scanned up to where its digits end. -/
theorem scanInteger_eq {t rest : Str} (h : Numeral.IsInteger t) (hrest : NoDigit rest) :
    scanInteger (t ++ rest) = some (t, rest) := by
  obtain ⟨sign, d, ds, hsign, hd, hds, hzero, rfl⟩ := h
  have hhead : (if (sign ++ d :: ds ++ rest).head? = some minus then [minus] else []) = sign := by
    rcases hsign with rfl | rfl
    · have hne : d ≠ minus := by
        rintro rfl
        cases hd
      simp [hne]
    · rfl
  obtain ⟨htake, hdrop⟩ := takeWhile_digits hds hrest
  rw [scanInteger, hhead, List.append_assoc, List.drop_left, List.cons_append]
  dsimp only
  split
  · rename_i he
    rw [hzero he]
    rfl
  · rw [htake, hdrop]

/-- What is scanned as an integer part is one. -/
theorem scanInteger_sound {s t rest : Str} (h : scanInteger s = some (t, rest)) :
    Numeral.IsInteger t ∧ s = t ++ rest := by
  unfold scanInteger at h
  have hsign : ∃ sign tail, (sign = [] ∨ sign = [minus]) ∧ s = sign ++ tail ∧
      (if s.head? = some minus then [minus] else []) = sign := by
    by_cases hhead : s.head? = some minus
    · obtain ⟨tail, rfl⟩ := List.head?_eq_some_iff.mp hhead
      exact ⟨[minus], tail, Or.inr rfl, rfl, by simp⟩
    · exact ⟨[], s, Or.inl rfl, rfl, if_neg hhead⟩
  obtain ⟨sign, tail, hform, rfl, hif⟩ := hsign
  rw [hif] at h
  dsimp only at h
  rw [List.drop_left] at h
  cases tail with
  | nil => cases h
  | cons d tail =>
    dsimp only at h
    split at h
    · rename_i hd
      cases h
      exact ⟨⟨sign, d, [], hform, by rw [hd]; decide, rfl, fun _ => rfl, rfl⟩, by simp⟩
    · split at h
      · rename_i hne hd
        cases h
        refine ⟨⟨sign, d, _, hform, hd, List.all_takeWhile, fun he => absurd he hne, rfl⟩, ?_⟩
        rw [List.append_assoc, List.cons_append, List.takeWhile_append_dropWhile]
      · cases h

/-- A fraction is scanned up to where its digits end. -/
theorem scanFraction_eq {t rest : Str} (h : Numeral.IsFraction t) (hrest : NoDigit rest)
    (hdot : rest.head? ≠ some dot) : scanFraction (t ++ rest) = (t, rest) := by
  rcases h with rfl | ⟨ds, hne, hds, rfl⟩
  · simp [scanFraction, hdot]
  · obtain ⟨htake, hdrop⟩ := takeWhile_digits hds hrest
    simp [scanFraction, htake, hdrop, hne]

/-- What is scanned as a fraction is one. -/
theorem scanFraction_sound (s : Str) :
    Numeral.IsFraction (scanFraction s).1 ∧ s = (scanFraction s).1 ++ (scanFraction s).2 := by
  unfold scanFraction
  dsimp only
  split
  · rename_i h
    obtain ⟨tail, rfl⟩ := List.head?_eq_some_iff.mp h.1
    exact ⟨Or.inr ⟨_, h.2, List.all_takeWhile, rfl⟩, by simp⟩
  · exact ⟨Or.inl rfl, rfl⟩

/-- An exponent is scanned up to where the number stops. -/
theorem scanExponent_eq {t rest : Str} (h : Numeral.IsExponent t) (hrest : Stops rest) :
    scanExponent (t ++ rest) = (t, rest) := by
  rcases h with rfl | ⟨mark, sign, ds, hmark, hsign, hne, hds, rfl⟩
  · cases rest with
    | nil => rfl
    | cons c rest =>
      have hc : Numeral.isMark c = false := by
        simp only [Stops, continues, List.head?_cons, Option.all_some, Bool.not_eq_true',
          Bool.or_eq_false_iff] at hrest
        exact hrest.2
      simp [scanExponent, hc]
  · have hhead : ((sign ++ (ds ++ rest)).takeWhile Numeral.isSign |>.take 1) = sign := by
      rcases hsign with rfl | ⟨c, hc, rfl⟩
      · cases ds with
        | nil => exact absurd rfl hne
        | cons d ds =>
          have hd : Numeral.isSign d = false := by
            rw [List.all_cons, Bool.and_eq_true] at hds
            simp only [Numeral.isSign, Bool.or_eq_false_iff, decide_eq_false_iff_not]
            refine ⟨?_, ?_⟩ <;>
            · rintro rfl
              exact absurd hds.1 (by decide)
          simp [hd]
      · simp [hc]
    obtain ⟨htake, hdrop⟩ := takeWhile_digits hds hrest.noDigit
    rw [List.cons_append, List.append_assoc, scanExponent, hhead, List.drop_left, htake, hdrop, if_pos ⟨hmark, hne⟩]

/-- What is scanned as an exponent is one. -/
theorem scanExponent_sound (s : Str) :
    Numeral.IsExponent (scanExponent s).1 ∧ s = (scanExponent s).1 ++ (scanExponent s).2 := by
  cases s with
  | nil => exact ⟨Or.inl rfl, rfl⟩
  | cons mark rest =>
    rw [scanExponent]
    have hsign : ∃ sign tail, (sign = [] ∨ ∃ c, Numeral.isSign c = true ∧ sign = [c]) ∧
        rest = sign ++ tail ∧ (rest.takeWhile Numeral.isSign |>.take 1) = sign := by
      cases rest with
      | nil => exact ⟨[], [], Or.inl rfl, rfl, rfl⟩
      | cons c rest =>
        cases hc : Numeral.isSign c with
        | true => exact ⟨[c], rest, Or.inr ⟨c, hc, rfl⟩, rfl, by simp [hc]⟩
        | false => exact ⟨[], c :: rest, Or.inl rfl, rfl, by simp [hc]⟩
    obtain ⟨sign, tail, hform, rfl, htake⟩ := hsign
    rw [htake, List.drop_left]
    split
    · rename_i h
      exact ⟨Or.inr ⟨mark, sign, _, h.1, hform, h.2, List.all_takeWhile, rfl⟩, by simp⟩
    · exact ⟨Or.inl rfl, rfl⟩

/-- A number is scanned to its end. -/
theorem scanNumber_of_valid {n : Numeral} {rest : Str} (h : n.Valid) (hrest : Stops rest) :
    scanNumber (n.text ++ rest) = some (n, rest) := by
  obtain ⟨integer, fraction, exponent⟩ := n
  obtain ⟨hinteger, hfraction, hexponent⟩ := h
  have hmark : NoDigit (exponent ++ rest) ∧ (exponent ++ rest).head? ≠ some dot := by
    rcases hexponent with rfl | ⟨mark, sign, ds, hmark, -, -, -, rfl⟩
    · refine ⟨hrest.noDigit, fun hdot => ?_⟩
      obtain ⟨tail, rfl⟩ := List.head?_eq_some_iff.mp hdot
      cases hrest
    · have hcases : mark = 101 ∨ mark = 69 := by simpa [Numeral.isMark] using hmark
      rcases hcases with rfl | rfl <;> exact ⟨rfl, by simp [dot]⟩
  have hpoint : NoDigit (fraction ++ (exponent ++ rest)) := by
    rcases hfraction with rfl | ⟨ds, -, -, rfl⟩
    · exact hmark.1
    · rfl
  rw [scanNumber, Numeral.text, List.append_assoc, List.append_assoc,
    scanInteger_eq hinteger hpoint, Option.map_some]
  dsimp only
  rw [scanFraction_eq hfraction hmark.1 hmark.2, scanExponent_eq hexponent hrest]

/-- What is scanned is a number. -/
theorem valid_of_scanNumber {s rest : Str} {n : Numeral} (h : scanNumber s = some (n, rest)) :
    n.Valid ∧ s = n.text ++ rest := by
  obtain ⟨⟨integer, s₁⟩, hinteger, heq⟩ := Option.map_eq_some_iff.mp h
  obtain ⟨hvalid, rfl⟩ := scanInteger_sound hinteger
  obtain ⟨hfraction, hs₁⟩ := scanFraction_sound s₁
  obtain ⟨hexponent, hs₂⟩ := scanExponent_sound (scanFraction s₁).2
  obtain ⟨rfl, rfl⟩ := Prod.mk.inj heq
  refine ⟨⟨hvalid, hfraction, hexponent⟩, ?_⟩
  rw [Numeral.text, List.append_assoc, List.append_assoc, ← hs₂, ← hs₁]

end CognitiveTree.Json
