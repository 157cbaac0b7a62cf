import CognitiveTree.Json.Framing
import CognitiveTree.Search.JsonValue

/-!
# JSON objects inside completions

The scanner looks for balanced braces from each opening brace on, and knows only quotes and
backslashes besides. On the text of an object it stops exactly at its end.
-/

namespace CognitiveTree.Llm

open Json Search

/-- The loop over the positions behind `start`: the text behind the brace at which the depth is zero
again. -/
def closing (depth : Int) (inString escaped : Bool) : Str → Option Str
  | [] => none
  | char :: rest =>
    if inString then
      if escaped then closing depth true false rest
      else if char = backslash then closing depth true true rest
      else if char = quote then closing depth false escaped rest
      else closing depth true escaped rest
    else if char = quote then closing depth true escaped rest
    else if char = openBrace then closing (depth + 1) false escaped rest
    else if char = closeBrace then
      if depth - 1 = 0 then some rest else closing (depth - 1) false escaped rest
    else closing depth false escaped rest

section Scanner

variable {depth : Int}

/-- A character that the scanner passes over outside of strings. -/
def isInert (c : CodePoint) : Bool := c ≠ quote && c ≠ openBrace && c ≠ closeBrace

/-- All characters but quotes and braces are inert. -/
theorem isInert_iff {c : CodePoint} :
    isInert c = true ↔ c ≠ quote ∧ c ≠ openBrace ∧ c ≠ closeBrace := by
  simp [isInert, and_assoc]

/-- Inert characters do not change the search for the closing brace. -/
theorem closing_inert {t rest : Str} (h : t.all isInert = true) :
    closing depth false false (t ++ rest) = closing depth false false rest := by
  induction t with
  | nil => rfl
  | cons c t ih =>
    rw [List.all_cons, Bool.and_eq_true, isInert_iff] at h
    obtain ⟨⟨hquote, hopen, hclose⟩, ht⟩ := h
    rw [List.cons_append, closing, if_neg (by simp), if_neg hquote, if_neg hopen, if_neg hclose,
      ih ht]

/-- Inside a string the scanner passes over any other character. -/
theorem closing_char {c : CodePoint} {rest : Str} (hquote : c ≠ quote) (hbackslash : c ≠ backslash) :
    closing depth true false (c :: rest) = closing depth true false rest := by
  rw [closing, if_pos rfl, if_neg (by simp), if_neg hbackslash, if_neg hquote]

/-- A backslash inside a string hides the character behind it. -/
theorem closing_escape {c : CodePoint} {rest : Str} :
    closing depth true false (backslash :: c :: rest) = closing depth true false rest := by
  rw [closing, if_pos rfl, if_neg (by simp), if_pos rfl, closing, if_pos rfl, if_pos rfl]

/-- A hexadecimal digit is no quote and no backslash. -/
theorem hexDigit_ne {c : CodePoint} {n : Nat} (h : hexDigit c = some n) :
    c ≠ quote ∧ c ≠ backslash := by
  constructor <;>
  · rintro rfl
    cases h

/-- The digits of a code unit are digits. -/
theorem hex4_ne {a b c d u : CodePoint} (h : hex4 a b c d = some u) :
    ∀ x ∈ [a, b, c, d], x ≠ quote ∧ x ≠ backslash := by
  obtain ⟨_, ha, h⟩ := Option.bind_eq_some_iff.mp h
  obtain ⟨_, hb, h⟩ := Option.bind_eq_some_iff.mp h
  obtain ⟨_, hc, h⟩ := Option.bind_eq_some_iff.mp h
  obtain ⟨_, hd, -⟩ := Option.bind_eq_some_iff.mp h
  simp only [List.forall_mem_cons]
  exact ⟨hexDigit_ne ha, hexDigit_ne hb, hexDigit_ne hc, hexDigit_ne hd, by simp⟩

/-- The scanner leaves a string at its closing quote. -/
theorem closing_body {s rest : Str} {pieces : List Piece} (h : Body s rest pieces) :
    closing depth true false s = closing depth false false rest := by
  induction h with
  | close => rw [closing, if_pos rfl, if_neg (by simp), if_neg (by decide), if_pos rfl]
  | plain hc _ ih => rw [closing_char (isPlain_ne hc).1 (isPlain_ne hc).2, ih]
  | escape _ _ ih => rw [closing_escape, ih]
  | unit hu _ ih =>
    have hne := hex4_ne hu
    simp only [List.forall_mem_cons] at hne
    rw [closing_escape, closing_char hne.1.1 hne.1.2, closing_char hne.2.1.1 hne.2.1.2,
      closing_char hne.2.2.1.1 hne.2.2.1.2, closing_char hne.2.2.2.1.1 hne.2.2.2.1.2, ih]

/-- A whole string does not change the search for the closing brace. -/
theorem closing_string {s rest : Str} {pieces : List Piece} (h : Body s rest pieces) :
    closing depth false false (quote :: s) = closing depth false false rest := by
  rw [closing, if_neg (by simp), if_pos rfl, closing_body h]

/-- Blanks do not change the search for the closing brace. -/
theorem closing_blank {s rest : Str} (h : Blank s rest) :
    closing depth false false s = closing depth false false rest := by
  obtain ⟨w, hw, rfl⟩ := h
  refine closing_inert (List.all_eq_true.mpr fun c hc => ?_)
  have hb : c = 32 ∨ c = 9 ∨ c = 10 ∨ c = 13 := by
    simpa [isBlank, or_assoc] using List.all_eq_true.mp hw c hc
  rcases hb with rfl | rfl | rfl | rfl <;> decide

/-- A delimiter behind whitespace. -/
theorem closing_delimiter {s rest : Str} {c : CodePoint} (h : Blank s (c :: rest))
    (hc : isInert c = true) : closing depth false false s = closing depth false false rest := by
  rw [closing_blank h]
  exact closing_inert (t := [c]) (by simp [hc])

/-- Digits are inert. -/
theorem isInert_of_isDigit {c : CodePoint} (h : isDigit c = true) : isInert c = true := by
  rw [isInert_iff]
  refine ⟨?_, ?_, ?_⟩ <;>
  · rintro rfl
    exact absurd h (by decide)

/-- A number has neither quotes nor braces. -/
theorem inert_numeral {n : Numeral} (h : n.Valid) : n.text.all isInert = true := by
  have hdigits : ∀ {ds : Str}, ds.all isDigit = true → ds.all isInert = true := fun hds =>
    List.all_eq_true.mpr fun c hc => isInert_of_isDigit (List.all_eq_true.mp hds c hc)
  obtain ⟨sign, d, ds, hsign, hd, hds, -, hinteger⟩ := h.integer
  have hfront : n.integer.all isInert = true := by
    rw [hinteger, List.all_append, List.all_cons, isInert_of_isDigit hd, hdigits hds]
    rcases hsign with rfl | rfl <;> decide
  have hmiddle : n.fraction.all isInert = true := by
    rcases h.fraction with he | ⟨ds, -, hds, he⟩ <;> rw [he]
    · rfl
    · rw [List.all_cons, hdigits hds]
      decide
  have hback : n.exponent.all isInert = true := by
    rcases h.exponent with he | ⟨mark, sign, ds, hmark, hsign, -, hds, he⟩ <;> rw [he]
    · rfl
    · have hm : mark = 101 ∨ mark = 69 := by simpa [Numeral.isMark] using hmark
      have hs : sign.all isInert = true := by
        rcases hsign with rfl | ⟨c, hc, rfl⟩
        · rfl
        · have hc' : c = 43 ∨ c = minus := by simpa [Numeral.isSign] using hc
          rcases hc' with rfl | rfl <;> decide
      rw [List.all_cons, List.all_append, hdigits hds, hs]
      rcases hm with rfl | rfl <;> decide
  rw [Numeral.text, List.all_append, List.all_append, hfront, hmiddle, hback]
  rfl

variable {V : Type} {H : Hooks V}

/-- The words of JSON are inert. -/
theorem inert_word {w : Str} {v : V} (h : (w, v) ∈ H.words) : w.all isInert = true := by
  simp only [Hooks.words, List.mem_cons, List.not_mem_nil, or_false, Prod.mk.injEq] at h
  rcases h with ⟨rfl, -⟩ | ⟨rfl, -⟩ | ⟨rfl, -⟩ | ⟨rfl, -⟩ | ⟨rfl, -⟩ | ⟨rfl, -⟩ <;> decide

/-- Inside an object the scanner passes over every part of a text. -/
theorem closing_part {s rest : Str} {part : Json.Part V} (h : Denotes H s rest part)
    (hdepth : 1 ≤ depth) :
    closing depth false false s = closing depth false false rest := by
  induction h generalizing depth with
  | word hword => exact closing_inert (inert_word hword)
  | number hvalid => exact closing_inert (inert_numeral hvalid)
  | string hbody => exact closing_string hbody
  | emptyList hblank =>
    rw [closing, if_neg (by simp), if_neg (by decide), if_neg (by decide), if_neg (by decide),
      closing_delimiter hblank (by decide)]
  | list hblank _ ih =>
    rw [closing, if_neg (by simp), if_neg (by decide), if_neg (by decide), if_neg (by decide),
      closing_blank hblank, ih hdepth]
    exact closing_inert (t := [closeBracket]) (by decide)
  | element _ hblank ih => rw [ih hdepth, closing_blank hblank]
  | elements _ hcomma hblank _ ih ih' =>
    rw [ih hdepth, closing_delimiter hcomma (by decide), closing_blank hblank, ih' hdepth]
  | emptyDict hblank =>
    rw [closing, if_neg (by simp), if_neg (by decide), if_pos rfl, closing_blank hblank, closing,
      if_neg (by simp), if_neg (by decide), if_neg (by decide), if_pos rfl, if_neg (by omega)]
    congr 1
    omega
  | dict hblank _ ih =>
    rw [closing, if_neg (by simp), if_neg (by decide), if_pos rfl, closing_blank hblank,
      ih (by omega), closing, if_neg (by simp), if_neg (by decide), if_neg (by decide), if_pos rfl,
      if_neg (by omega)]
    congr 1
    omega
  | member hbody hcolon hblank _ hend ih =>
    rw [closing_string hbody, closing_delimiter hcolon (by decide), closing_blank hblank, ih hdepth,
      closing_blank hend]
  | members hbody hcolon hblank _ hcomma hblank' _ ih ih' =>
    rw [closing_string hbody, closing_delimiter hcolon (by decide), closing_blank hblank, ih hdepth,
      closing_delimiter hcomma (by decide), closing_blank hblank', ih' hdepth]

/-- From the brace of an object the scanner stops at the object's end. -/
theorem closing_object {s rest : Str} {v : V} (h : Denotes H (openBrace :: s) rest (.value v)) :
    closing 0 false false (openBrace :: s) = some rest := by
  have hend : ∀ {s' : Str}, closing 1 false false (closeBrace :: s') = some s' := fun {s'} => by
    rw [closing, if_neg (by simp), if_neg (by decide), if_neg (by decide), if_pos rfl,
      if_pos (by decide)]
  rw [closing, if_neg (by simp), if_neg (by decide), if_pos rfl, zero_add]
  generalize hs : openBrace :: s = text at h
  generalize hpart : Part.value v = part at h
  cases h with
  | emptyDict hblank =>
    cases hs
    rw [closing_blank hblank, hend]
  | dict hblank hinner =>
    cases hs
    rw [closing_blank hblank, closing_part hinner le_rfl, hend]
  | word hword =>
    obtain ⟨c, w', rfl, -, -, -, hne, -⟩ := words_head hword
    cases hs
    exact absurd rfl hne
  | number hvalid =>
    obtain ⟨d, tail, hd, htext | htext⟩ := hvalid.head
    · rw [htext] at hs
      cases hs
      exact absurd hd (by decide)
    · rw [htext] at hs
      cases hs
  | string | emptyList | list => cases hs
  | element | elements | member | members => cases hpart

end Scanner

section Extraction

variable {K : Type} [PyFloat K] [PyDecimal K]

/-- `extract_json_object(text)`: the loop over the opening braces of the text. -/
def extractJsonObject (limits : Limits) : Str → Except Fault (Option (Dict Str (PyVal K)))
  | [] => .ok none
  | char :: rest =>
    if char = openBrace then
      match closing 0 false false (char :: rest) with
      | none => extractJsonObject limits rest
      | some behind =>
        match loads (pyHooks K) limits
            ((char :: rest).take ((char :: rest).length - behind.length)) with
        | .error .malformed => extractJsonObject limits rest
        | .error fault => .error fault
        | .ok (.dict items) => .ok (some items)
        | .ok _ => .ok none
    else extractJsonObject limits rest

/-- The text is a JSON object with these items. -/
def IsObject (p : Str) (items : Dict Str (PyVal K)) : Prop :=
  Denotes (pyHooks K) p [] (.value (.dict items))

/-- Some prefix of the text from `i` on is a JSON object with these items. -/
def ObjectAt (text : Str) (i : Nat) (items : Dict Str (PyVal K)) : Prop :=
  ∃ p, p <+: text.drop i ∧ IsObject p items

/-- An object further on is one of the remaining text. -/
theorem objectAt_succ {char : CodePoint} {rest : Str} {i : Nat} {items : Dict Str (PyVal K)} :
    ObjectAt (char :: rest) (i + 1) items ↔ ObjectAt rest i items := Iff.rfl

/-- Only an object has a dictionary for its value. -/
theorem head_of_object {s rest : Str} {items : Dict Str (PyVal K)}
    (h : Denotes (pyHooks K) s rest (.value (.dict items))) : ∃ s', s = openBrace :: s' := by
  generalize hpart : Part.value (PyVal.dict items) = part at h
  cases h with
  | emptyDict | dict => exact ⟨_, rfl⟩
  | word hword =>
    cases hpart
    simp [Hooks.words, pyHooks] at hword
  | number =>
    rw [Part.value.injEq, Hooks.number] at hpart
    split at hpart <;> cases hpart
  | string | emptyList | list => cases hpart
  | element | elements | member | members => cases hpart

/-- And only a dictionary begins with a brace. -/
theorem dict_of_head {s rest : Str} {v : PyVal K}
    (h : Denotes (pyHooks K) (openBrace :: s) rest (.value v)) : ∃ items, v = .dict items := by
  generalize hs : openBrace :: s = text at h
  generalize hpart : Part.value v = part at h
  cases h with
  | emptyDict | dict =>
    cases hpart
    exact ⟨_, rfl⟩
  | word hword =>
    obtain ⟨c, w', rfl, -, -, -, hne, -⟩ := words_head hword
    cases hs
    exact absurd rfl hne
  | number hvalid =>
    obtain ⟨d, tail, hd, htext | htext⟩ := hvalid.head
    · rw [htext] at hs
      cases hs
      exact absurd hd (by decide)
    · rw [htext] at hs
      cases hs
  | string | emptyList | list => cases hs
  | element | elements | member | members => cases hpart

/-- The scanner stops at the end of an object at the head of a text. -/
theorem closing_of_objectAt {text : Str} {items : Dict Str (PyVal K)} (h : ObjectAt text 0 items) :
    ∃ s behind, text = openBrace :: (s ++ behind) ∧ IsObject (openBrace :: s) items ∧
      closing 0 false false text = some behind := by
  obtain ⟨p, ⟨behind, rfl⟩, hp⟩ := h
  obtain ⟨s, rfl⟩ := head_of_object hp
  refine ⟨s, behind, rfl, hp, ?_⟩
  obtain ⟨t, ht, hframe⟩ := hp.frame
  rw [List.append_nil] at ht
  subst ht
  exact closing_object (hframe behind)

/-- An object at the head of a text is extracted. -/
theorem extract_of_objectAt {text : Str} {items : Dict Str (PyVal K)} (h : ObjectAt text 0 items) :
    extractJsonObject .unlimited text = .ok (some items) := by
  obtain ⟨s, behind, rfl, hp, hclosing⟩ := closing_of_objectAt h
  have hloads : loads (pyHooks K) .unlimited (openBrace :: s) = .ok (.dict items) :=
    loads_of_isText ⟨_, [], .refl _, hp, .refl _⟩
  have htake : (openBrace :: (s ++ behind)).take
      ((openBrace :: (s ++ behind)).length - behind.length) = openBrace :: s := by
    rw [← List.cons_append, List.length_append, Nat.add_sub_cancel, List.take_left]
  rw [extractJsonObject, if_pos rfl, hclosing]
  dsimp only
  rw [htake, hloads]

/-- A segment that is loaded is an object at the head of the text. -/
theorem objectAt_of_loads {s behind : Str} {v : PyVal K}
    (h : loads (pyHooks K) .unlimited ((openBrace :: s).take
      ((openBrace :: s).length - behind.length)) = .ok v)
    (hlength : behind.length < (openBrace :: s).length) :
    ∃ items : Dict Str (PyVal K), ObjectAt (openBrace :: s) 0 items := by
  obtain ⟨n, hn⟩ : ∃ n, (openBrace :: s).length - behind.length = n + 1 :=
    ⟨_, (Nat.succ_pred_eq_of_pos (by omega)).symm⟩
  rw [hn, List.take_succ_cons] at h
  obtain ⟨s', rest, ⟨w, hw, hfront⟩, hv, -⟩ := isText_of_loads h
  cases w with
  | cons b w =>
    obtain ⟨rfl, -⟩ := List.cons.inj hfront
    cases hw
  | nil =>
    rw [List.nil_append] at hfront
    subst hfront
    obtain ⟨items, rfl⟩ := dict_of_head hv
    obtain ⟨t, ht, hframe⟩ := hv.frame
    have halone := hframe []
    rw [List.append_nil] at halone
    refine ⟨items, t, ?_, halone⟩
    have hpre : t <+: (openBrace :: s).take (n + 1) := ⟨rest, ht.symm⟩
    exact hpre.trans (List.take_prefix _ _)

/-- What is behind the closing brace is shorter than the text. -/
theorem closing_length_lt {depth : Int} {inString escaped : Bool} {s behind : Str}
    (h : closing depth inString escaped s = some behind) : behind.length < s.length := by
  induction s generalizing depth inString escaped with
  | nil => cases h
  | cons c s ih =>
    rw [List.length_cons]
    unfold closing at h
    split_ifs at h
    all_goals first
      | exact (ih h).trans (Nat.lt_succ_self _)
      | (cases h; exact Nat.lt_succ_self _)

/-- Where no object begins the search goes on behind the first character. -/
theorem extract_skip {char : CodePoint} {rest : Str}
    (h : ∀ items : Dict Str (PyVal K), ¬ ObjectAt (char :: rest) 0 items) :
    extractJsonObject (K := K) .unlimited (char :: rest) = extractJsonObject .unlimited rest := by
  rw [extractJsonObject]
  split
  · rename_i hchar
    subst hchar
    cases hclosing : closing 0 false false (openBrace :: rest) with
    | none => rfl
    | some behind =>
      dsimp only
      generalize hloads : loads (pyHooks K) .unlimited ((openBrace :: rest).take
        ((openBrace :: rest).length - behind.length)) = answer
      cases answer with
      | error fault => rw [loads_unlimited_error hloads]
      | ok v =>
        obtain ⟨items, hobject⟩ := objectAt_of_loads hloads (closing_length_lt hclosing)
        exact absurd hobject (h items)
  · rfl

/-- The first object of a text. -/
def FirstObject (text : Str) (items : Dict Str (PyVal K)) : Prop :=
  ∃ i, ObjectAt text i items ∧ ∀ j < i, ∀ items' : Dict Str (PyVal K), ¬ ObjectAt text j items'

/-- The first object of a text is extracted. -/
theorem extract_of_firstObject {text : Str} {items : Dict Str (PyVal K)} (h : FirstObject text items) :
    extractJsonObject .unlimited text = .ok (some items) := by
  obtain ⟨i, hobject, hfirst⟩ := h
  induction i generalizing text with
  | zero => exact extract_of_objectAt hobject
  | succ i ih =>
    cases text with
    | nil =>
      obtain ⟨p, hp, hp'⟩ := hobject
      rw [List.drop_nil, List.prefix_nil] at hp
      obtain ⟨s, hs⟩ := head_of_object hp'
      rw [hp] at hs
      cases hs
    | cons char rest =>
      rw [extract_skip (hfirst 0 (Nat.succ_pos i))]
      exact ih (objectAt_succ.mp hobject) fun j hj items' h' =>
        hfirst (j + 1) (Nat.succ_lt_succ hj) items' h'

/-- From a text without an object nothing is extracted. -/
theorem extract_of_no_object {text : Str} (h : ∀ i (items : Dict Str (PyVal K)), ¬ ObjectAt text i items) :
    extractJsonObject (K := K) .unlimited text = .ok none := by
  induction text with
  | nil => rfl
  | cons char rest ih =>
    rw [extract_skip (h 0)]
    exact ih fun i items h' => h (i + 1) items h'

/-- One of the two applies to every text. -/
theorem extract_cases (text : Str) :
    (∃ items : Dict Str (PyVal K), FirstObject text items ∧
      extractJsonObject .unlimited text = .ok (some items)) ∨
    (∀ items : Dict Str (PyVal K), ¬ FirstObject text items) ∧
      extractJsonObject (K := K) .unlimited text = .ok none := by
  by_cases h : ∃ i, ∃ items : Dict Str (PyVal K), ObjectAt text i items
  · classical
    obtain ⟨items, hobject⟩ := Nat.find_spec h
    have hfirst : FirstObject text items :=
      ⟨_, hobject, fun j hj items' h' => Nat.find_min h hj ⟨items', h'⟩⟩
    exact Or.inl ⟨items, hfirst, extract_of_firstObject hfirst⟩
  · exact Or.inr ⟨fun items ⟨i, hobject, _⟩ => h ⟨i, items, hobject⟩,
      extract_of_no_object fun i items hobject => h ⟨i, items, hobject⟩⟩

/-- The function returns the first object of a text, and `None` when there is none. -/
theorem extractJsonObject_first (text : Str) :
    (∀ i (items : Dict Str (PyVal K)), ObjectAt text i items →
      (∀ j < i, ∀ items' : Dict Str (PyVal K), ¬ ObjectAt text j items') →
      extractJsonObject .unlimited text = .ok (some items)) ∧
    ((∀ i (items : Dict Str (PyVal K)), ¬ ObjectAt text i items) →
      extractJsonObject (K := K) .unlimited text = .ok none) :=
  ⟨fun i _ hobject hfirst => extract_of_firstObject ⟨i, hobject, hfirst⟩, extract_of_no_object⟩

/-- A string without escapes. -/
theorem body_plain {s : Str} (h : s.all isPlain = true) (rest : Str) :
    Body (s ++ quote :: rest) rest (s.map .plain) := by
  induction s with
  | nil => exact .close
  | cons c s ih =>
    rw [List.all_cons, Bool.and_eq_true] at h
    exact .plain h.1 (ih h.2)

/-- A brace that is never closed, and an object with another inside of it. -/
theorem extractJsonObject_first_small :
    extractJsonObject (K := ℚ) .unlimited (lit "\x7bso \x7b\"ok\":\x7b\x7d\x7d!") =
      .ok (some [(lit "ok", .dict [])]) := by
  refine (extractJsonObject_first (lit "\x7bso \x7b\"ok\":\x7b\x7d\x7d!")).1 4 _
    ⟨lit "\x7b\"ok\":\x7b\x7d\x7d", ⟨lit "!", rfl⟩, ?_⟩ fun j hj items h => ?_
  · exact .dict (.refl _) (.member (body_plain (s := lit "ok") (by decide) _) (.refl _) (.refl _)
      (.emptyDict (.refl _)) (.refl _))
  · obtain rfl | hlater : j = 0 ∨ 0 < j := Nat.eq_zero_or_pos j
    · -- the scanner does not come back to depth zero
      obtain ⟨s, behind, -, -, hclosing⟩ := closing_of_objectAt h
      cases hclosing
    · obtain ⟨p, ⟨behind, hp⟩, hobject⟩ := h
      obtain ⟨s, rfl⟩ := head_of_object hobject
      have hbrace : ∀ j < 4, 0 < j → ((lit "\x7bso \x7b\"ok\":\x7b\x7d\x7d!").drop j).head? ≠
          some openBrace := by decide
      exact absurd (hp ▸ rfl) (hbrace j hj hlater)

end Extraction

end CognitiveTree.Llm
