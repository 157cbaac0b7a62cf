import CognitiveTree.Search.JsonCompact

/-!
# The indented JSON text of a value

`json.dumps(value, ensure_ascii=False, indent=2)` is read back by `json.loads`, within the limits of
the interpreter that reads: a value that this interpreter could print is loaded from the text that
another one has printed.
-/

namespace CognitiveTree.Search

open Json

/-- What is left of the recursion limit inside this many containers. -/
def left (limits : Limits) (level : Nat) : Option Nat := limits.depth.map fun depth => depth - level

/-- The decoder enters what the encoder may enter. -/
theorem enter_left {limits : Limits} {level : Nat} (h : Admits limits level) :
    enter (left limits level) = .ok (left limits (level + 1)) := by
  unfold left
  cases hdepth : limits.depth with
  | none => rfl
  | some depth =>
    have hlt := h depth hdepth
    obtain ⟨rest, rfl⟩ := Nat.exists_eq_add_of_lt hlt
    simp only [Option.map_some]
    rw [show level + rest + 1 - level = rest + 1 by omega,
      show level + rest + 1 - (level + 1) = rest by omega]
    rfl

/-- Outside of all containers the whole limit is left. -/
theorem left_zero (limits : Limits) : left limits 0 = limits.depth := by
  simp [left]

/-- A line end and its indent are blank. -/
theorem all_isBlank_newline (level : Nat) : (newline level).all isBlank = true := by
  rw [newline, List.all_cons, List.all_replicate]
  simp [isBlank]

/-- The decoder skips a line end and its indent. -/
theorem blank_newline (level : Nat) (rest : Str) : Blank (newline level ++ rest) rest :=
  ⟨newline level, all_isBlank_newline level, rfl⟩

/-- A text that may be a value: it begins with no blank and no mark, and closes nothing. -/
def Opens (text : Str) : Prop :=
  ∃ c tail, text = c :: tail ∧ isBlank c = false ∧ c ≠ closeBracket ∧ c ≠ closeBrace ∧ c ≠ 0xfeff

section Opens

variable {text : Str} (h : Opens text) (rest : Str)

include h

/-- The value still opens with more behind it. -/
theorem Opens.append : Opens (text ++ rest) := by
  obtain ⟨c, tail, rfl, hc⟩ := h
  exact ⟨c, tail ++ rest, rfl, hc⟩

/-- A value begins with something visible. -/
theorem Opens.visible : Visible (text ++ rest) := by
  obtain ⟨c, tail, rfl, hblank, -⟩ := h
  exact visible_cons hblank

/-- A value does not begin by closing a list. -/
theorem Opens.head_ne_bracket : (text ++ rest).head? ≠ some closeBracket := by
  obtain ⟨c, tail, rfl, -, hbracket, -⟩ := h
  simpa using hbracket

/-- A value does not begin by closing a dictionary. -/
theorem Opens.head_ne_brace : (text ++ rest).head? ≠ some closeBrace := by
  obtain ⟨c, tail, rfl, -, -, hbrace, -⟩ := h
  simpa using hbrace

/-- A value does not begin with a byte order mark. -/
theorem Opens.head_ne_mark : (text ++ rest).head? ≠ some 0xfeff := by
  obtain ⟨c, tail, rfl, -, -, -, hmark⟩ := h
  simpa using hmark

end Opens

/-- A number opens with its sign or a digit. -/
theorem opens_numeral {n : Numeral} (h : n.Valid) : Opens n.text := by
  obtain ⟨d, tail, hd, htext | htext⟩ := h.head
  · refine ⟨d, tail, htext, ?_, ?_, ?_, ?_⟩
    · simp only [isBlank, Bool.or_eq_false_iff, decide_eq_false_iff_not]
      refine ⟨⟨⟨?_, ?_⟩, ?_⟩, ?_⟩ <;>
      · rintro rfl
        exact absurd hd (by decide)
    all_goals
      rintro rfl
      exact absurd hd (by decide)
  · exact ⟨minus, d :: tail, htext, by decide, by decide, by decide, by decide⟩

/-- A string opens with its quote. -/
theorem opens_encodeString (s : Str) : Opens (encodeString false s) :=
  ⟨quote, _, rfl, by decide, by decide, by decide, by decide⟩

section Encoder

variable {K : Type} [PyFloat K] [PyDecimal K] {limits reading : Limits}

/-- An integer is written as its numeral. -/
theorem encodeInt_eq_ok {i : Int} {text : Str} (h : encodeInt limits i = .ok text) :
    text = (intNumeral i).text := by
  unfold encodeInt at h
  split at h
  · cases h
  · cases h
    simp [Numeral.text, intNumeral]

/-- The text of a value begins with a visible character. -/
theorem opens_encode [FloatText K] {level : Nat} {v : PyVal K} {text : Str}
    (h : encode limits false level v = .ok text) (hv : v.Portable) : Opens text := by
  cases v with
  | none =>
    cases h
    exact ⟨110, _, rfl, by decide, by decide, by decide, by decide⟩
  | bool b =>
    cases h
    cases b
    · exact ⟨102, _, rfl, by decide, by decide, by decide, by decide⟩
    · exact ⟨116, _, rfl, by decide, by decide, by decide, by decide⟩
  | int i =>
    rw [encodeInt_eq_ok h]
    exact opens_numeral (valid_intNumeral i)
  | float x =>
    cases h
    obtain ⟨n, hvalid, -, hrepr, -⟩ := FloatText.repr_finite x hv
    rw [hrepr]
    exact opens_numeral hvalid
  | str s =>
    cases h
    exact opens_encodeString s
  | list vs =>
    rcases vs with _ | ⟨v, vs⟩
    · obtain ⟨-, -, h⟩ := exists_of_bind_eq_ok h
      cases h
      exact ⟨openBracket, _, rfl, by decide, by decide, by decide, by decide⟩
    · obtain ⟨-, -, h⟩ := exists_of_bind_eq_ok h
      obtain ⟨first, -, h⟩ := exists_of_bind_eq_ok h
      obtain ⟨more, -, h⟩ := exists_of_bind_eq_ok h
      cases h
      exact ⟨openBracket, _, rfl, by decide, by decide, by decide, by decide⟩
  | dict items =>
    rcases items with _ | ⟨⟨key, v⟩, items⟩
    · obtain ⟨-, -, h⟩ := exists_of_bind_eq_ok h
      cases h
      exact ⟨openBrace, _, rfl, by decide, by decide, by decide, by decide⟩
    · obtain ⟨-, -, h⟩ := exists_of_bind_eq_ok h
      obtain ⟨first, -, h⟩ := exists_of_bind_eq_ok h
      obtain ⟨more, -, h⟩ := exists_of_bind_eq_ok h
      cases h
      exact ⟨openBrace, _, rfl, by decide, by decide, by decide, by decide⟩
  | object tag => cases h

omit [PyFloat K] in
/-- The first of some elements and the others are written one after the other. -/
theorem encodeElements_cons {level : Nat} {v : PyVal K} {vs : List (PyVal K)} {text : Str}
    (h : encodeElements limits false level (v :: vs) = .ok (lit "," ++ newline level ++ text)) :
    ∃ first more, encode limits false level v = .ok first ∧
      encodeElements limits false level vs = .ok more ∧ text = first ++ more := by
  obtain ⟨first, hfirst, h⟩ := exists_of_bind_eq_ok h
  obtain ⟨more, hmore, h⟩ := exists_of_bind_eq_ok h
  refine ⟨first, more, hfirst, hmore, ?_⟩
  have htext := Except.ok.inj h
  simp only [List.append_assoc, List.append_cancel_left_eq] at htext
  exact htext.symm

omit [PyFloat K] in
/-- The first of some items and the others are written one after the other. -/
theorem encodeItems_cons {level : Nat} {key : Str} {v : PyVal K} {items : List (Str × PyVal K)}
    {text : Str}
    (h : encodeItems limits false level ((key, v) :: items) =
      .ok (lit "," ++ newline level ++ text)) :
    ∃ first more, encode limits false level v = .ok first ∧
      encodeItems limits false level items = .ok more ∧
      text = encodeString false key ++ (lit ": " ++ (first ++ more)) := by
  obtain ⟨first, hfirst, h⟩ := exists_of_bind_eq_ok h
  obtain ⟨more, hmore, h⟩ := exists_of_bind_eq_ok h
  refine ⟨first, more, hfirst, hmore, ?_⟩
  have htext := Except.ok.inj h
  simp only [List.append_assoc, List.append_cancel_left_eq] at htext
  exact htext.symm

/-- The text of further elements is a text behind a comma and a new line. -/
theorem encodeElements_text [FloatText K] {level : Nat} {v : PyVal K} {vs : List (PyVal K)}
    {more : Str} (h : encodeElements limits false level (v :: vs) = .ok more) (hv : v.Portable) :
    ∃ text, more = lit "," ++ newline level ++ text ∧ Opens text := by
  obtain ⟨first, hfirst, h⟩ := exists_of_bind_eq_ok h
  obtain ⟨others, -, h⟩ := exists_of_bind_eq_ok h
  cases h
  exact ⟨first ++ others, by simp only [List.append_assoc], (opens_encode hfirst hv).append others⟩

omit [PyFloat K] in
/-- The items of a dictionary begin with the first key. -/
theorem encodeItems_text {level : Nat} {item : Str × PyVal K} {items : List (Str × PyVal K)}
    {more : Str} (h : encodeItems limits false level (item :: items) = .ok more) :
    ∃ text, more = lit "," ++ newline level ++ text ∧ Opens text := by
  obtain ⟨first, -, h⟩ := exists_of_bind_eq_ok h
  obtain ⟨others, -, h⟩ := exists_of_bind_eq_ok h
  cases h
  refine ⟨encodeString false item.1 ++ (lit ": " ++ (first ++ others)), ?_, ?_⟩
  · simp only [List.append_assoc]
  · exact (opens_encodeString item.1).append _

/-- The decoder skips a space. -/
theorem blank_space (rest : Str) : Blank (32 :: rest) rest := ⟨[32], by decide, rfl⟩

/-- An item is a quoted key, a colon, a space and the value. -/
theorem keyed_text (key : Str) (text rest : Str) :
    encodeString false key ++ (lit ": " ++ text) ++ rest =
      quote :: (key.flatMap (encodeChar false) ++ quote :: colon :: 32 :: (text ++ rest)) := by
  simp only [encodeString, List.append_assoc, List.cons_append, List.nil_append]
  rfl

mutual

/-- The text of a value is decoded to it, within the limits that would let it be printed. -/
theorem scan_encode [FloatText K] (level : Nat) : ∀ (v : PyVal K) {text : Str},
    encode limits false level v = .ok text → v.Shaped reading level → v.Portable →
      ∀ rest, Stops rest → ∀ fuel, 2 * (text ++ rest).length + 1 ≤ fuel →
        scanValue (pyHooks K) reading.digits fuel (left reading level) (text ++ rest) = .ok (v, rest)
  | .none, _, h, _, _, rest, _, fuel, hfuel => by
    cases h
    obtain ⟨fuel, rfl⟩ : ∃ k, fuel = k + 1 := ⟨fuel - 1, by omega⟩
    exact scanValue_word (by simp [Hooks.words, pyHooks])
  | .bool b, _, h, _, _, rest, _, fuel, hfuel => by
    cases h
    obtain ⟨fuel, rfl⟩ : ∃ k, fuel = k + 1 := ⟨fuel - 1, by omega⟩
    cases b
    · exact scanValue_word (by simp [Hooks.words, pyHooks])
    · exact scanValue_word (by simp [Hooks.words, pyHooks])
  | .int i, _, h, hshaped, _, rest, hrest, fuel, hfuel => by
    obtain ⟨fuel, rfl⟩ : ∃ k, fuel = k + 1 := ⟨fuel - 1, by omega⟩
    rw [encodeInt_eq_ok h, ← number_intNumeral]
    refine scanValue_number (valid_intNumeral i) hrest fun _ limit hlimit => ?_
    rw [digits_intNumeral]
    exact hshaped limit hlimit
  | .float x, _, h, _, hv, rest, hrest, fuel, hfuel => by
    cases h
    obtain ⟨fuel, rfl⟩ : ∃ k, fuel = k + 1 := ⟨fuel - 1, by omega⟩
    obtain ⟨n, hvalid, hint, hrepr, hdecimal⟩ := FloatText.repr_finite x hv
    have hnumber : (pyHooks K).number n = .float x := by
      rw [Hooks.number, if_neg (by simp [hint]), ← hdecimal]
      rfl
    rw [hrepr, ← hnumber]
    exact scanValue_number hvalid hrest fun hinteger => by simp [hint] at hinteger
  | .str s, _, h, _, _, rest, _, fuel, hfuel => by
    cases h
    obtain ⟨fuel, rfl⟩ : ∃ k, fuel = k + 1 := ⟨fuel - 1, by omega⟩
    have hstring := @scanValue_string _ (pyHooks K) reading.digits fuel _ _ _ (left reading level)
      (scanString_of_body (body_encodeString s rest))
    rw [joined_pieceOf] at hstring
    rw [encodeString, List.cons_append, List.append_assoc]
    exact hstring
  | .list [], _, h, hshaped, _, rest, _, fuel, hfuel => by
    obtain ⟨-, -, h⟩ := exists_of_bind_eq_ok h
    cases h
    obtain ⟨fuel, rfl⟩ : ∃ k, fuel = k + 1 := ⟨fuel - 1, by omega⟩
    exact scanValue_emptyList (enter_left hshaped.1)
      ((Blank.refl _).skip_delimiter (by decide))
  | .list (v :: vs), _, h, hshaped, hv, rest, _, fuel, hfuel => by
    obtain ⟨-, -, h⟩ := exists_of_bind_eq_ok h
    obtain ⟨first, hfirst, h⟩ := exists_of_bind_eq_ok h
    obtain ⟨more, hmore, h⟩ := exists_of_bind_eq_ok h
    have hopens := (opens_encode hfirst hv.1).append more
    have hall : encodeElements limits false (level + 1) (v :: vs) =
        .ok (lit "," ++ newline (level + 1) ++ (first ++ more)) := by
      rw [encodeElements, hfirst, hmore, ← List.append_assoc]
      rfl
    cases h
    have htext : lit "[" ++ newline (level + 1) ++ first ++ more ++ newline level ++ lit "]" ++ rest =
        openBracket :: (newline (level + 1) ++
          (first ++ more ++ (newline level ++ closeBracket :: rest))) := by
      simp only [List.append_assoc]
      rfl
    rw [htext] at hfuel ⊢
    obtain ⟨fuel, rfl⟩ : ∃ k, fuel = k + 1 := ⟨fuel - 1, by omega⟩
    refine scanValue_list (enter_left hshaped.1) ((blank_newline _ _).skip_eq (hopens.visible _))
      (hopens.head_ne_bracket _) ?_
    refine scan_encodeElements (level + 1) (v :: vs) hall hshaped.2 hv (List.cons_ne_nil _ _) _ rest
      (all_isBlank_newline level) fuel ?_
    rw [List.length_cons, List.length_append] at hfuel
    omega
  | .dict [], _, h, hshaped, _, rest, _, fuel, hfuel => by
    obtain ⟨-, -, h⟩ := exists_of_bind_eq_ok h
    cases h
    obtain ⟨fuel, rfl⟩ : ∃ k, fuel = k + 1 := ⟨fuel - 1, by omega⟩
    exact scanValue_emptyDict (enter_left hshaped.1)
      ((Blank.refl _).skip_delimiter (by decide))
  | .dict ((key, v) :: items), _, h, hshaped, hv, rest, _, fuel, hfuel => by
    obtain ⟨-, -, h⟩ := exists_of_bind_eq_ok h
    obtain ⟨first, hfirst, h⟩ := exists_of_bind_eq_ok h
    obtain ⟨more, hmore, h⟩ := exists_of_bind_eq_ok h
    have hopens := (opens_encodeString key).append (lit ": " ++ (first ++ more))
    have hall : encodeItems limits false (level + 1) ((key, v) :: items) =
        .ok (lit "," ++ newline (level + 1) ++
          (encodeString false key ++ (lit ": " ++ (first ++ more)))) := by
      rw [encodeItems, hfirst, hmore]
      simp only [← List.append_assoc]
      rfl
    cases h
    have htext : lit "\x7b" ++ newline (level + 1) ++ encodeString false key ++ lit ": " ++ first ++
        more ++ newline level ++ lit "\x7d" ++ rest =
          openBrace :: (newline (level + 1) ++ (encodeString false key ++
            (lit ": " ++ (first ++ more)) ++ (newline level ++ closeBrace :: rest))) := by
      simp only [List.append_assoc]
      rfl
    rw [htext] at hfuel ⊢
    obtain ⟨fuel, rfl⟩ : ∃ k, fuel = k + 1 := ⟨fuel - 1, by omega⟩
    rw [← dict_of_nodup hv.1]
    refine scanValue_dict (enter_left hshaped.1) ((blank_newline _ _).skip_eq (hopens.visible _))
      (hopens.head_ne_brace _) ?_
    refine scan_encodeItems (level + 1) ((key, v) :: items) hall hshaped.2 hv.2
      (List.cons_ne_nil _ _) _ rest (all_isBlank_newline level) fuel ?_
    rw [List.length_cons, List.length_append] at hfuel
    omega
  | .object _, _, h, _, _, _, _, _, _ => by cases h

/-- The decoder reads the elements of a list back. -/
theorem scan_encodeElements [FloatText K] (level : Nat) : ∀ (vs : List (PyVal K)) {text : Str},
    encodeElements limits false level vs = .ok (lit "," ++ newline level ++ text) →
      PyVal.ShapedElements reading level vs → PyVal.PortableElements vs → vs ≠ [] →
        ∀ (w : Str) (rest : Str), w.all isBlank = true → ∀ fuel,
          2 * (text ++ (w ++ closeBracket :: rest)).length + 2 ≤ fuel →
            scanElements (pyHooks K) reading.digits fuel (left reading level)
              (text ++ (w ++ closeBracket :: rest)) = .ok (vs, rest)
  | [], _, _, _, _, hne, _, _, _, _, _ => absurd rfl hne
  | [v], text, h, hshaped, hv, _, w, rest, hw, fuel, hfuel => by
    obtain ⟨first, more, hfirst, hmore, rfl⟩ := encodeElements_cons h
    cases hmore
    rw [List.append_nil] at hfuel ⊢
    obtain ⟨fuel, rfl⟩ : ∃ k, fuel = k + 1 := ⟨fuel - 1, by omega⟩
    have hblank : Blank (w ++ closeBracket :: rest) (closeBracket :: rest) := ⟨w, hw, rfl⟩
    refine scanElements_last (scan_encode level v hfirst hshaped.1 hv.1 _ ?_ fuel (by omega)) ?_
    · exact hblank.stops (stops_cons (by decide))
    · exact hblank.skip_delimiter (by decide)
  | v :: u :: us, text, h, hshaped, hv, _, w, rest, hw, fuel, hfuel => by
    obtain ⟨first, more, hfirst, hmore, rfl⟩ := encodeElements_cons h
    obtain ⟨text, rfl, hopens⟩ := encodeElements_text hmore hv.2.1
    have htext : first ++ (lit "," ++ newline level ++ text) ++ (w ++ closeBracket :: rest) =
        first ++ comma :: (newline level ++ (text ++ (w ++ closeBracket :: rest))) := by
      simp only [List.append_assoc]
      rfl
    rw [htext] at hfuel ⊢
    obtain ⟨fuel, rfl⟩ : ∃ k, fuel = k + 1 := ⟨fuel - 1, by omega⟩
    have hskip := (blank_newline level (text ++ (w ++ closeBracket :: rest))).skip_eq
      (hopens.visible _)
    refine scanElements_more (scan_encode level v hfirst hshaped.1 hv.1 _ (stops_cons (by decide)) fuel
      (by omega)) ((Blank.refl _).skip_delimiter (by decide)) ?_
    rw [hskip]
    refine scan_encodeElements level (u :: us) hmore hshaped.2 hv.2 (List.cons_ne_nil _ _) w rest hw
      fuel ?_
    simp only [List.length_append, List.length_cons] at hfuel ⊢
    omega

/-- The decoder reads the items of a dictionary back. -/
theorem scan_encodeItems [FloatText K] (level : Nat) : ∀ (items : List (Str × PyVal K)) {text : Str},
    encodeItems limits false level items = .ok (lit "," ++ newline level ++ text) →
      PyVal.ShapedItems reading level items → PyVal.PortableItems items → items ≠ [] →
        ∀ (w : Str) (rest : Str), w.all isBlank = true → ∀ fuel,
          2 * (text ++ (w ++ closeBrace :: rest)).length + 2 ≤ fuel →
            scanMembers (pyHooks K) reading.digits fuel (left reading level)
              (text ++ (w ++ closeBrace :: rest)) = .ok (items, rest)
  | [], _, _, _, _, hne, _, _, _, _, _ => absurd rfl hne
  | [(key, v)], text, h, hshaped, hv, _, w, rest, hw, fuel, hfuel => by
    obtain ⟨first, more, hfirst, hmore, rfl⟩ := encodeItems_cons h
    cases hmore
    have hblank : Blank (w ++ closeBrace :: rest) (closeBrace :: rest) := ⟨w, hw, rfl⟩
    rw [keyed_text, List.append_nil] at hfuel ⊢
    obtain ⟨fuel, rfl⟩ : ∃ k, fuel = k + 1 := ⟨fuel - 1, by omega⟩
    have hskip := (blank_space _).skip_eq
      ((opens_encode hfirst hv.1).visible (w ++ closeBrace :: rest))
    have hvalue := scan_encode level v hfirst hshaped.1 hv.1 _
      (hblank.stops (stops_cons (by decide))) fuel (by
        simp only [List.length_append, List.length_cons] at hfuel ⊢
        omega)
    rw [← hskip] at hvalue
    have hmember := scanMembers_last (scanString_of_body (body_encodeString key _))
      ((Blank.refl _).skip_delimiter (by decide)) hvalue (hblank.skip_delimiter (by decide))
    rwa [joined_pieceOf] at hmember
  | (key, v) :: item :: items, text, h, hshaped, hv, _, w, rest, hw, fuel, hfuel => by
    obtain ⟨first, more, hfirst, hmore, rfl⟩ := encodeItems_cons h
    obtain ⟨text, rfl, hopens⟩ := encodeItems_text hmore
    have htext : encodeString false key ++ (lit ": " ++ (first ++ (lit "," ++ newline level ++ text))) ++
        (w ++ closeBrace :: rest) = quote :: (key.flatMap (encodeChar false) ++ quote :: colon :: 32 ::
          (first ++ comma :: (newline level ++ (text ++ (w ++ closeBrace :: rest))))) := by
      rw [keyed_text]
      simp only [List.append_assoc]
      rfl
    rw [htext] at hfuel ⊢
    obtain ⟨fuel, rfl⟩ : ∃ k, fuel = k + 1 := ⟨fuel - 1, by omega⟩
    simp only [List.length_append, List.length_cons] at hfuel
    have hskip := (blank_space _).skip_eq ((opens_encode hfirst hv.1).visible
      (comma :: (newline level ++ (text ++ (w ++ closeBrace :: rest)))))
    have hvalue := scan_encode level v hfirst hshaped.1 hv.1
      (comma :: (newline level ++ (text ++ (w ++ closeBrace :: rest)))) (stops_cons (by decide)) fuel (by
        simp only [List.length_append, List.length_cons]
        omega)
    rw [← hskip] at hvalue
    have hmore := scan_encodeItems level (item :: items) hmore hshaped.2 hv.2 (List.cons_ne_nil _ _)
      w rest hw fuel (by
        simp only [List.length_append, List.length_cons]
        omega)
    rw [← (blank_newline level (text ++ (w ++ closeBrace :: rest))).skip_eq (hopens.visible _)] at hmore
    have hmembers := scanMembers_more (scanString_of_body (body_encodeString key _))
      ((Blank.refl _).skip_delimiter (by decide)) hvalue ((Blank.refl _).skip_delimiter (by decide)) hmore
    rwa [joined_pieceOf] at hmembers

end

/-- What is printed is loaded wherever it could be printed. -/
theorem loads_dumps [FloatText K] {v : PyVal K} {text : Str} (h : dumps limits false v = .ok text)
    (hshaped : v.Shaped reading 0) (hv : v.Portable) : loads (pyHooks K) reading text = .ok v := by
  have hopens := opens_encode h hv
  have hscan := scan_encode 0 v h hshaped hv [] (by simp [Stops]) (2 * text.length + 2) (by simp)
  have hskip := (Blank.refl text).skip_eq (by simpa using hopens.visible [])
  rw [List.append_nil, left_zero] at hscan
  have hmark : text.head? ≠ some 0xfeff := by simpa using hopens.head_ne_mark []
  rw [loads, if_neg hmark, hskip, hscan]
  rfl

end Encoder

section Lines

/-- No carriage returns. -/
def NoReturn (s : Str) : Prop := ∀ c ∈ s, c ≠ 13

/-- The empty text has no carriage return. -/
theorem noReturn_nil : NoReturn [] := fun _ h => by cases h

/-- Two texts have no carriage return when neither has. -/
@[simp] theorem noReturn_append {s t : Str} : NoReturn (s ++ t) ↔ NoReturn s ∧ NoReturn t :=
  List.forall_mem_append

/-- A printable text has no carriage return. -/
theorem Printable.noReturn {s : Str} (h : Printable s) : NoReturn s := by
  rintro c hc rfl
  exact absurd (h _ hc).1 (by decide)

/-- A literal without control characters has no carriage return. -/
theorem noReturn_lit {t : String} (h : ((lit t).all fun c => 32 ≤ c.val) = true) : NoReturn (lit t) :=
  (printable_lit h).noReturn

/-- Lines end without a carriage return. -/
theorem noReturn_newline (level : Nat) : NoReturn (newline level) := by
  rintro c hc rfl
  rcases List.mem_cons.mp hc with hc | hc
  · exact absurd hc (by decide)
  · exact absurd (List.eq_of_mem_replicate hc) (by decide)

/-- A carriage return in a string is escaped. -/
theorem noReturn_encodeString (s : Str) : NoReturn (encodeString false s) := by
  have hchar : ∀ c, NoReturn (encodeChar false c) := by
    intro c
    unfold encodeChar
    cases hlookup : letters.lookup c with
    | some letter =>
      obtain ⟨-, hlow, hhigh⟩ := escapes_of_letters hlookup
      rintro d hd rfl
      simp only [List.mem_cons, List.not_mem_nil, or_false] at hd
      rcases hd with hd | rfl
      · exact absurd hd (by decide)
      · exact absurd hlow (by decide)
    | none =>
      by_cases hc : c.val < 32
      · simp only [hc, if_true]
        exact (printable_unitText _).noReturn
      · simp only [hc, if_false, Bool.false_and, Bool.false_eq_true]
        rintro d hd rfl
        rw [← List.mem_singleton.mp hd] at hc
        exact hc (by decide)
  rintro c hc rfl
  rw [encodeString, List.mem_cons, List.mem_append, List.mem_flatMap, List.mem_singleton] at hc
  rcases hc with hc | ⟨d, -, hc⟩ | hc
  · exact absurd hc (by decide)
  · exact hchar d _ hc rfl
  · exact absurd hc (by decide)

variable {K : Type} [PyFloat K] [PyDecimal K] {limits : Limits}

mutual

/-- The only control characters in the text of a value are its newlines. -/
theorem noReturn_encode [FloatText K] (level : Nat) : ∀ (v : PyVal K) {text : Str},
    encode limits false level v = .ok text → v.Portable → NoReturn text
  | .none, _, h, _ => by
    cases h
    exact noReturn_lit (by decide)
  | .bool b, _, h, _ => by
    cases h
    cases b
    · exact (noReturn_lit (by decide) : NoReturn (lit "false"))
    · exact (noReturn_lit (by decide) : NoReturn (lit "true"))
  | .int i, _, h, _ => by
    rw [encode, encodeInt] at h
    split at h <;> cases h
    exact (printable_ofInt i).noReturn
  | .float x, _, h, hv => by
    cases h
    obtain ⟨n, hvalid, -, hrepr, -⟩ := FloatText.repr_finite x hv
    rw [hrepr]
    exact (printable_numeral hvalid).noReturn
  | .str s, _, h, _ => by
    cases h
    exact noReturn_encodeString s
  | .list [], _, h, _ => by
    obtain ⟨-, -, h⟩ := exists_of_bind_eq_ok h
    cases h
    exact noReturn_lit (by decide)
  | .list (v :: vs), _, h, hv => by
    obtain ⟨-, -, h⟩ := exists_of_bind_eq_ok h
    obtain ⟨first, hfirst, h⟩ := exists_of_bind_eq_ok h
    obtain ⟨more, hmore, h⟩ := exists_of_bind_eq_ok h
    cases h
    have hfirst := noReturn_encode (level + 1) v hfirst hv.1
    have hmore := noReturn_encodeElements (level + 1) vs hmore hv.2
    have hopen : NoReturn (lit "[") := noReturn_lit (by decide)
    have hclose : NoReturn (lit "]") := noReturn_lit (by decide)
    simp [hfirst, hmore, hopen, hclose, noReturn_newline]
  | .dict [], _, h, _ => by
    obtain ⟨-, -, h⟩ := exists_of_bind_eq_ok h
    cases h
    exact noReturn_lit (by decide)
  | .dict ((key, v) :: items), _, h, hv => by
    obtain ⟨-, -, h⟩ := exists_of_bind_eq_ok h
    obtain ⟨first, hfirst, h⟩ := exists_of_bind_eq_ok h
    obtain ⟨more, hmore, h⟩ := exists_of_bind_eq_ok h
    cases h
    have hkey := noReturn_encodeString key
    have hfirst := noReturn_encode (level + 1) v hfirst hv.2.1
    have hmore := noReturn_encodeItems (level + 1) items hmore hv.2.2
    have hopen : NoReturn (lit "\x7b") := noReturn_lit (by decide)
    have hcolon : NoReturn (lit ": ") := noReturn_lit (by decide)
    have hclose : NoReturn (lit "\x7d") := noReturn_lit (by decide)
    simp [hkey, hfirst, hmore, hopen, hcolon, hclose, noReturn_newline]
  | .object _, _, h, _ => by cases h

/-- The elements of a list are written without a carriage return. -/
theorem noReturn_encodeElements [FloatText K] (level : Nat) : ∀ (vs : List (PyVal K)) {text : Str},
    encodeElements limits false level vs = .ok text → PyVal.PortableElements vs →
      NoReturn text
  | [], _, h, _ => by
    cases h
    exact noReturn_nil
  | v :: vs, _, h, hv => by
    obtain ⟨first, hfirst, h⟩ := exists_of_bind_eq_ok h
    obtain ⟨more, hmore, h⟩ := exists_of_bind_eq_ok h
    cases h
    have hfirst := noReturn_encode level v hfirst hv.1
    have hmore := noReturn_encodeElements level vs hmore hv.2
    have hcomma : NoReturn (lit ",") := noReturn_lit (by decide)
    simp [hfirst, hmore, hcomma, noReturn_newline]

/-- The items of a dictionary are written without a carriage return. -/
theorem noReturn_encodeItems [FloatText K] (level : Nat) : ∀ (items : List (Str × PyVal K)) {text : Str},
    encodeItems limits false level items = .ok text → PyVal.PortableItems items →
      NoReturn text
  | [], _, h, _ => by
    cases h
    exact noReturn_nil
  | (key, v) :: items, _, h, hv => by
    obtain ⟨first, hfirst, h⟩ := exists_of_bind_eq_ok h
    obtain ⟨more, hmore, h⟩ := exists_of_bind_eq_ok h
    cases h
    have hkey := noReturn_encodeString key
    have hfirst := noReturn_encode level v hfirst hv.1
    have hmore := noReturn_encodeItems level items hmore hv.2
    have hcomma : NoReturn (lit ",") := noReturn_lit (by decide)
    have hcolon : NoReturn (lit ": ") := noReturn_lit (by decide)
    simp [hkey, hfirst, hmore, hcomma, hcolon, noReturn_newline]

end

end Lines

section Decisions

variable {K : Type} [PyFloat K] [PyDecimal K]

mutual

/-- Whether a value is one of JSON. -/
def decidePortable : (v : PyVal K) → Decidable v.Portable
  | .none => .isTrue trivial
  | .bool _ => .isTrue trivial
  | .int _ => .isTrue trivial
  | .float x => inferInstanceAs (Decidable (isFinite x = true))
  | .str _ => .isTrue trivial
  | .list vs => decidePortableElements vs
  | .dict items => @instDecidableAnd _ _ (inferInstanceAs (Decidable (items.map Prod.fst).Nodup))
      (decidePortableItems items)
  | .object _ => .isFalse id

def decidePortableElements : (vs : List (PyVal K)) → Decidable (PyVal.PortableElements vs)
  | [] => .isTrue trivial
  | v :: vs => @instDecidableAnd _ _ (decidePortable v) (decidePortableElements vs)

def decidePortableItems : (items : List (Str × PyVal K)) → Decidable (PyVal.PortableItems items)
  | [] => .isTrue trivial
  | (_, v) :: items => @instDecidableAnd _ _ (decidePortable v) (decidePortableItems items)

end

instance (v : PyVal K) : Decidable v.Portable := decidePortable v

end Decisions

end CognitiveTree.Search
