import CognitiveTree.Core.Program
import CognitiveTree.Json.Lexing

/-!
# The decoder decides the grammar

What the decoder accepts is derivable, and without limits it accepts whatever is derivable, with
the value of the derivation.
-/

namespace CognitiveTree.Json

variable {V : Type} {H : Hooks V} {digits : Option Nat}

/-! ## Words and numbers -/

/-- A word begins neither like a number nor like a string or a container. -/
theorem words_head {w : Str} {v : V} (h : (w, v) ∈ H.words) : ∃ c w', w = c :: w' ∧
    isBlank c = false ∧ c ≠ quote ∧ c ≠ openBracket ∧ c ≠ openBrace ∧ isDigit c = false ∧
      (c = minus → ∃ d w'', w' = d :: w'' ∧ isDigit d = false) := by
  simp only [Hooks.words, List.mem_cons, List.not_mem_nil, or_false, Prod.mk.injEq] at h
  rcases h with ⟨rfl, -⟩ | ⟨rfl, -⟩ | ⟨rfl, -⟩ | ⟨rfl, -⟩ | ⟨rfl, -⟩ | ⟨rfl, -⟩ <;>
    exact ⟨_, _, rfl, by decide, by decide, by decide, by decide, by decide,
      fun h => by first | exact absurd h (by decide) | exact ⟨_, _, rfl, by decide⟩⟩

/-- No two words begin the same, so a word is found by itself. -/
theorem find_word {w : Str} {v : V} (h : (w, v) ∈ H.words) (rest : Str) :
    (H.words.find? fun word => word.1.isPrefixOf (w ++ rest)) = some (w, v) := by
  simp only [Hooks.words, List.mem_cons, List.not_mem_nil, or_false, Prod.mk.injEq] at h
  rcases h with ⟨rfl, rfl⟩ | ⟨rfl, rfl⟩ | ⟨rfl, rfl⟩ | ⟨rfl, rfl⟩ | ⟨rfl, rfl⟩ | ⟨rfl, rfl⟩ <;> rfl

/-- A number begins with a digit or with a sign and a digit. -/
theorem Numeral.Valid.head {n : Numeral} (h : n.Valid) : ∃ d tail, isDigit d = true ∧
    (n.text = d :: tail ∨ n.text = minus :: d :: tail) := by
  obtain ⟨sign, d, ds, hsign, hd, -, -, hinteger⟩ := h.integer
  refine ⟨d, ds ++ n.fraction ++ n.exponent, hd, ?_⟩
  rcases hsign with rfl | rfl
  · left
    simp [Numeral.text, hinteger]
  · right
    simp [Numeral.text, hinteger]

/-- No word begins where a number does. -/
theorem find_number {n : Numeral} (h : n.Valid) (rest : Str) :
    (H.words.find? fun word => word.1.isPrefixOf (n.text ++ rest)) = none := by
  rw [List.find?_eq_none]
  rintro ⟨w, v⟩ hword hpre
  obtain ⟨c, w', rfl, -, -, -, -, hc, hminus⟩ := words_head hword
  obtain ⟨d, tail, hd, htext | htext⟩ := h.head
  · rw [htext] at hpre
    simp only [List.cons_append, List.isPrefixOf, Bool.and_eq_true, beq_iff_eq] at hpre
    rw [hpre.1, hd] at hc
    cases hc
  · rw [htext] at hpre
    simp only [List.cons_append, List.isPrefixOf, Bool.and_eq_true, beq_iff_eq] at hpre
    obtain ⟨d', w'', rfl, hd'⟩ := hminus hpre.1
    simp only [List.isPrefixOf, Bool.and_eq_true, beq_iff_eq] at hpre
    rw [hpre.2.1, hd] at hd'
    cases hd'

/-- What is scanned as a word or a number is denoted. -/
theorem scanAtom_sound {s rest : Str} {v : V} (h : scanAtom H digits s = .ok (v, rest)) :
    Denotes H s rest (.value v) := by
  unfold scanAtom at h
  split at h
  · rename_i w v' hfind
    cases h
    have hpre := List.find?_some hfind
    obtain ⟨tail, rfl⟩ := List.isPrefixOf_iff_prefix.mp hpre
    rw [List.drop_left]
    exact .word (List.mem_of_find?_eq_some hfind)
  · split at h
    · rename_i n rest' hnumber
      obtain ⟨hvalid, rfl⟩ := valid_of_scanNumber hnumber
      obtain ⟨v', hconvert, h⟩ := exists_of_bind_eq_ok h
      cases h
      unfold convert at hconvert
      split at hconvert
      · cases hconvert
      · cases hconvert
        exact .number hvalid
    · cases h

/-! ## What is decoded is derivable -/

/-- Whitespace in front of the character that is seen behind it. -/
theorem blank_of_head {s : Str} {c : CodePoint} (h : (skip s).head? = some c) :
    Blank s (c :: (skip s).tail) := by
  obtain ⟨tail, htail⟩ := List.head?_eq_some_iff.mp h
  rw [htail]
  exact htail ▸ blank_skip s

/-- Each scanner reads a derivable part. -/
theorem scan_sound (fuel : Nat) :
    (∀ {depth s v rest}, scanValue H digits fuel depth s = .ok (v, rest) →
      Denotes H s rest (.value v)) ∧
    (∀ {depth s vs rest}, scanElements H digits fuel depth s = .ok (vs, rest) →
      Denotes H s (closeBracket :: rest) (.elements vs)) ∧
    ∀ {depth s items rest}, scanMembers H digits fuel depth s = .ok (items, rest) →
      Denotes H s (closeBrace :: rest) (.members items) := by
  induction fuel with
  | zero =>
    refine ⟨fun h => ?_, fun h => ?_, fun h => ?_⟩
    · unfold scanValue at h
      cases h
    · unfold scanElements at h
      cases h
    · unfold scanMembers at h
      cases h
  | succ fuel ih =>
    obtain ⟨hvalue, helements, hmembers⟩ := ih
    refine ⟨fun {depth s v rest} h => ?_, fun {depth s vs rest} h => ?_,
      fun {depth s items rest} h => ?_⟩
    · unfold scanValue at h
      cases s with
      | nil => cases h
      | cons c s =>
        dsimp only at h
        split at h
        · rename_i hc
          subst hc
          cases hs : scanString s with
          | none =>
            rw [hs] at h
            cases h
          | some p =>
            rw [hs] at h
            cases h
            exact .string (body_of_scanString hs)
        · split at h
          · rename_i hc
            subst hc
            obtain ⟨depth', -, h⟩ := exists_of_bind_eq_ok h
            split at h
            · rename_i hclose
              cases h
              exact .emptyList (blank_of_head hclose)
            · obtain ⟨⟨vs, rest'⟩, hscan, h⟩ := exists_of_bind_eq_ok h
              cases h
              exact .list (blank_skip s) (helements hscan)
          · split at h
            · rename_i hc
              subst hc
              obtain ⟨depth', -, h⟩ := exists_of_bind_eq_ok h
              split at h
              · rename_i hclose
                cases h
                exact .emptyDict (blank_of_head hclose)
              · obtain ⟨⟨items, rest'⟩, hscan, h⟩ := exists_of_bind_eq_ok h
                cases h
                exact .dict (blank_skip s) (hmembers hscan)
            · exact scanAtom_sound h
    · unfold scanElements at h
      obtain ⟨⟨v, s₁⟩, hscan, h⟩ := exists_of_bind_eq_ok h
      dsimp only at h
      split at h
      · rename_i hclose
        cases h
        exact .element (hvalue hscan) (blank_of_head hclose)
      · split at h
        · rename_i hcomma
          obtain ⟨⟨vs', rest'⟩, hmore, h⟩ := exists_of_bind_eq_ok h
          cases h
          exact .elements (hvalue hscan) (blank_of_head hcomma) (blank_skip _) (helements hmore)
        · cases h
    · unfold scanMembers at h
      split at h
      · rename_i hquote
        obtain ⟨tail, rfl⟩ := List.head?_eq_some_iff.mp hquote
        cases hs : scanString tail with
        | none =>
          rw [List.tail_cons, hs] at h
          cases h
        | some p =>
          obtain ⟨key, s₁⟩ := p
          rw [List.tail_cons, hs] at h
          dsimp only at h
          split at h
          · rename_i hcolon
            obtain ⟨⟨v, s₂⟩, hscan, h⟩ := exists_of_bind_eq_ok h
            dsimp only at h
            split at h
            · rename_i hclose
              cases h
              exact .member (body_of_scanString hs) (blank_of_head hcolon) (blank_skip _)
                (hvalue hscan) (blank_of_head hclose)
            · split at h
              · rename_i hcomma
                obtain ⟨⟨items', rest'⟩, hmore, h⟩ := exists_of_bind_eq_ok h
                cases h
                exact .members (body_of_scanString hs) (blank_of_head hcolon) (blank_skip _)
                  (hvalue hscan) (blank_of_head hcomma) (blank_skip _) (hmembers hmore)
              · cases h
          · cases h
      · cases h

/-- What is loaded is a text of the grammar. -/
theorem isText_of_loads {limits : Limits} {s : Str} {v : V} (h : loads H limits s = .ok v) :
    IsText H s v := by
  unfold loads at h
  split at h
  · cases h
  · obtain ⟨⟨v', rest⟩, hscan, h⟩ := exists_of_bind_eq_ok h
    dsimp only at h
    split at h
    · rename_i hrest
      cases h
      exact ⟨skip s, rest, blank_skip s, (scan_sound _).1 hscan, hrest ▸ blank_skip rest⟩
    · cases h

/-! ## What is derivable is decoded -/

/-- A part begins with a visible character. -/
theorem Denotes.visible {s rest : Str} {part : Part V} (h : Denotes H s rest part) : Visible s := by
  induction h with
  | word hword =>
    obtain ⟨c, w', rfl, hc, -⟩ := words_head hword
    exact visible_cons hc
  | number hvalid =>
    obtain ⟨d, tail, hd, htext | htext⟩ := hvalid.head
    · rw [htext]
      refine visible_cons ?_
      simp only [isBlank, Bool.or_eq_false_iff, decide_eq_false_iff_not]
      refine ⟨⟨⟨?_, ?_⟩, ?_⟩, ?_⟩ <;>
      · rintro rfl
        exact absurd hd (by decide)
    · rw [htext]
      exact visible_cons (by decide)
  | element _ _ ih | elements _ _ _ _ ih => exact ih
  | _ => exact visible_cons (by decide)

/-- Blanks in front make a text longer. -/
theorem Blank.length_le {s rest : Str} (h : Blank s rest) : rest.length ≤ s.length := by
  obtain ⟨w, -, rfl⟩ := h
  simp

/-- A part is not empty. -/
theorem Denotes.length_lt {s rest : Str} {part : Part V} (h : Denotes H s rest part) :
    rest.length < s.length := by
  induction h with
  | word hword =>
    obtain ⟨c, w', rfl, -⟩ := words_head hword
    simp only [List.length_append, List.length_cons]
    omega
  | number hvalid =>
    obtain ⟨d, tail, hd, htext | htext⟩ := hvalid.head <;>
    · rw [htext]
      simp only [List.length_append, List.length_cons]
      omega
  | string hbody =>
    have := hbody.length_lt
    simp only [List.length_cons]
    omega
  | emptyList hblank | emptyDict hblank =>
    have := hblank.length_le
    simp only [List.length_cons] at this ⊢
    omega
  | list hblank _ ih | dict hblank _ ih =>
    have := hblank.length_le
    simp only [List.length_cons] at ih ⊢
    omega
  | element _ hblank ih =>
    have := hblank.length_le
    omega
  | elements _ hcomma hblank _ ih ih' =>
    have := hcomma.length_le
    have := hblank.length_le
    simp only [List.length_cons] at *
    omega
  | member hbody hcolon hblank _ hend ih =>
    have := hbody.length_lt
    have := hcolon.length_le
    have := hblank.length_le
    have := hend.length_le
    simp only [List.length_cons] at *
    omega
  | members hbody hcolon hblank _ hcomma hblank' _ ih ih' =>
    have := hbody.length_lt
    have := hcolon.length_le
    have := hblank.length_le
    have := hcomma.length_le
    have := hblank'.length_le
    simp only [List.length_cons] at *
    omega

/-- Whitespace does not continue a number. -/
theorem Blank.stops {s rest : Str} (h : Blank s rest) (hrest : Stops rest) : Stops s := by
  obtain ⟨w, hw, rfl⟩ := h
  cases w with
  | nil => exact hrest
  | cons b w =>
    rw [List.all_cons, Bool.and_eq_true] at hw
    have hb : b = 32 ∨ b = 9 ∨ b = 10 ∨ b = 13 := by simpa [isBlank, or_assoc] using hw.1
    rcases hb with rfl | rfl | rfl | rfl <;> exact stops_cons (by decide)

/-- A delimiter is seen behind whitespace. -/
theorem Blank.skip_delimiter {s rest : Str} {c : CodePoint} (h : Blank s (c :: rest))
    (hc : isBlank c = false) : skip s = c :: rest := h.skip_eq (visible_cons hc)

/-- What the decoder makes of a part, with enough fuel. -/
def Part.Decoded (H : Hooks V) (s rest : Str) : Part V → Prop
  | .value v => Stops rest → ∀ fuel, 2 * s.length + 1 ≤ fuel →
    scanValue H none fuel none s = .ok (v, rest)
  | .elements vs => ∀ tail, rest = closeBracket :: tail → ∀ fuel, 2 * s.length + 2 ≤ fuel →
    scanElements H none fuel none s = .ok (vs, tail)
  | .members items => ∀ tail, rest = closeBrace :: tail → ∀ fuel, 2 * s.length + 2 ≤ fuel →
    scanMembers H none fuel none s = .ok (items, tail)

section Rules

variable {fuel : Nat} {s s' s₁ rest : Str} {v : V} {vs : List V} {items : List (Str × V)}

/-- A value that is no string and no container is an atom. -/
theorem scanValue_atom {c : CodePoint} {depth : Option Nat} (hquote : c ≠ quote)
    (hbracket : c ≠ openBracket) (hbrace : c ≠ openBrace) :
    scanValue H digits (fuel + 1) depth (c :: s) = scanAtom H digits (c :: s) := by
  unfold scanValue
  dsimp only
  rw [if_neg hquote, if_neg hbracket, if_neg hbrace]

/-- A string is a value. -/
theorem scanValue_string {pieces : List Piece} {depth : Option Nat}
    (h : scanString s = some (pieces, rest)) :
    scanValue H digits (fuel + 1) depth (quote :: s) = .ok (H.str (joined pieces), rest) := by
  unfold scanValue
  dsimp only
  rw [if_pos rfl, h]

/-- A list may have nothing but blanks inside. -/
theorem scanValue_emptyList {depth depth' : Option Nat} (henter : enter depth = .ok depth')
    (h : skip s = closeBracket :: rest) :
    scanValue H digits (fuel + 1) depth (openBracket :: s) = .ok (H.list [], rest) := by
  unfold scanValue
  dsimp only
  rw [if_neg (by decide), if_pos rfl, h, henter]
  rfl

/-- A list that is not empty has elements. -/
theorem scanValue_list {depth depth' : Option Nat} (henter : enter depth = .ok depth')
    (hskip : skip s = s') (hopen : s'.head? ≠ some closeBracket)
    (h : scanElements H digits fuel depth' s' = .ok (vs, rest)) :
    scanValue H digits (fuel + 1) depth (openBracket :: s) = .ok (H.list vs, rest) := by
  unfold scanValue
  dsimp only
  rw [if_neg (by decide), if_pos rfl, hskip, henter]
  change (if s'.head? = some closeBracket then _ else _) = _
  rw [if_neg hopen, h]
  rfl

/-- A dictionary may have nothing but blanks inside. -/
theorem scanValue_emptyDict {depth depth' : Option Nat} (henter : enter depth = .ok depth')
    (h : skip s = closeBrace :: rest) :
    scanValue H digits (fuel + 1) depth (openBrace :: s) = .ok (H.dict [], rest) := by
  unfold scanValue
  dsimp only
  rw [if_neg (by decide), if_neg (by decide), if_pos rfl, h, henter]
  rfl

/-- A dictionary that is not empty has members. -/
theorem scanValue_dict {depth depth' : Option Nat} (henter : enter depth = .ok depth')
    (hskip : skip s = s') (hopen : s'.head? ≠ some closeBrace)
    (h : scanMembers H digits fuel depth' s' = .ok (items, rest)) :
    scanValue H digits (fuel + 1) depth (openBrace :: s) = .ok (H.dict items, rest) := by
  unfold scanValue
  dsimp only
  rw [if_neg (by decide), if_neg (by decide), if_pos rfl, hskip, henter]
  change (if s'.head? = some closeBrace then _ else _) = _
  rw [if_neg hopen, h]
  rfl

/-- The closing bracket ends the elements. -/
theorem scanElements_last {depth : Option Nat}
    (hv : scanValue H digits fuel depth s = .ok (v, s₁)) (hskip : skip s₁ = closeBracket :: rest) :
    scanElements H digits (fuel + 1) depth s = .ok ([v], rest) := by
  unfold scanElements
  rw [hv]
  change (if (skip s₁).head? = some closeBracket then _ else _) = _
  rw [hskip]
  rfl

/-- A comma goes on to the next element. -/
theorem scanElements_more {depth : Option Nat} {s₂ : Str}
    (hv : scanValue H digits fuel depth s = .ok (v, s₁)) (hskip : skip s₁ = comma :: s₂)
    (h : scanElements H digits fuel depth (skip s₂) = .ok (vs, rest)) :
    scanElements H digits (fuel + 1) depth s = .ok (v :: vs, rest) := by
  unfold scanElements
  rw [hv]
  change (if (skip s₁).head? = some closeBracket then _ else if _ then
    scanElements H digits fuel depth (skip (skip s₁).tail) >>= _ else _) = _
  rw [hskip, List.tail_cons, h]
  rfl

/-- The closing brace ends the members. -/
theorem scanMembers_last {depth : Option Nat} {key : List Piece} {s₂ s₃ : Str}
    (hkey : scanString s = some (key, s₁)) (hcolon : skip s₁ = colon :: s₂)
    (hv : scanValue H digits fuel depth (skip s₂) = .ok (v, s₃))
    (hskip : skip s₃ = closeBrace :: rest) :
    scanMembers H digits (fuel + 1) depth (quote :: s) = .ok ([(joined key, v)], rest) := by
  unfold scanMembers
  rw [List.head?_cons, if_pos rfl, List.tail_cons, hkey]
  dsimp only
  rw [hcolon, List.head?_cons, if_pos rfl, List.tail_cons, hv]
  change (if (skip s₃).head? = some closeBrace then _ else _) = _
  rw [hskip]
  rfl

/-- A comma goes on to the next member. -/
theorem scanMembers_more {depth : Option Nat} {key : List Piece} {s₂ s₃ s₄ : Str}
    (hkey : scanString s = some (key, s₁)) (hcolon : skip s₁ = colon :: s₂)
    (hv : scanValue H digits fuel depth (skip s₂) = .ok (v, s₃)) (hskip : skip s₃ = comma :: s₄)
    (h : scanMembers H digits fuel depth (skip s₄) = .ok (items, rest)) :
    scanMembers H digits (fuel + 1) depth (quote :: s) = .ok ((joined key, v) :: items, rest) := by
  unfold scanMembers
  rw [List.head?_cons, if_pos rfl, List.tail_cons, hkey]
  dsimp only
  rw [hcolon, List.head?_cons, if_pos rfl, List.tail_cons, hv]
  change (if (skip s₃).head? = some closeBrace then _ else if _ then
    scanMembers H digits fuel depth (skip (skip s₃).tail) >>= _ else _) = _
  rw [hskip, List.tail_cons, h]
  rfl

end Rules

/-- A word is scanned whatever stands behind it. -/
theorem scanAtom_word {w rest : Str} {v : V} (h : (w, v) ∈ H.words) :
    scanAtom H digits (w ++ rest) = .ok (v, rest) := by
  rw [scanAtom, find_word h]
  dsimp only
  rw [List.drop_left]

/-- A number is scanned up to where it stops, when its digits are within the limit. -/
theorem scanAtom_number {n : Numeral} {rest : Str} (h : n.Valid) (hrest : Stops rest)
    (hdigits : n.isInt = true → ∀ limit ∈ digits, n.digits.length ≤ limit) :
    scanAtom H digits (n.text ++ rest) = .ok (H.number n, rest) := by
  have hconvert : convert H digits n = .ok (H.number n) := by
    rw [convert, if_neg]
    rw [Bool.and_eq_true, Option.any_eq_true]
    rintro ⟨hint, limit, hlimit, hlt⟩
    have hle := hdigits hint limit hlimit
    have hgt := of_decide_eq_true hlt
    omega
  rw [scanAtom, find_number h, scanNumber_of_valid h hrest]
  dsimp only
  rw [hconvert]
  rfl

/-- A word is a value. -/
theorem scanValue_word {w rest : Str} {v : V} {fuel : Nat} {depth : Option Nat}
    (h : (w, v) ∈ H.words) : scanValue H digits (fuel + 1) depth (w ++ rest) = .ok (v, rest) := by
  rw [← scanAtom_word h]
  obtain ⟨c, w', rfl, -, hquote, hbracket, hbrace, -⟩ := words_head h
  exact scanValue_atom hquote hbracket hbrace

/-- A number is a value. -/
theorem scanValue_number {n : Numeral} {rest : Str} {fuel : Nat} {depth : Option Nat} (h : n.Valid)
    (hrest : Stops rest) (hdigits : n.isInt = true → ∀ limit ∈ digits, n.digits.length ≤ limit) :
    scanValue H digits (fuel + 1) depth (n.text ++ rest) = .ok (H.number n, rest) := by
  rw [← scanAtom_number h hrest hdigits]
  obtain ⟨d, tail, hd, htext | htext⟩ := h.head
  · rw [htext]
    refine scanValue_atom ?_ ?_ ?_ <;>
    · rintro rfl
      exact absurd hd (by decide)
  · rw [htext]
    exact scanValue_atom (by decide) (by decide) (by decide)

/-- Nothing begins with a closing bracket or with a byte order mark. -/
theorem Denotes.head_ne {s rest : Str} {part : Part V} (h : Denotes H s rest part) {c : CodePoint}
    (hc : c ∈ [closeBracket, closeBrace, 0xfeff]) : s.head? ≠ some c := by
  rw [List.mem_cons, List.mem_cons, List.mem_singleton] at hc
  induction h with
  | word hword =>
    simp only [Hooks.words, List.mem_cons, List.not_mem_nil, or_false, Prod.mk.injEq] at hword
    rcases hc with rfl | rfl | rfl <;> rcases hword with
      ⟨rfl, -⟩ | ⟨rfl, -⟩ | ⟨rfl, -⟩ | ⟨rfl, -⟩ | ⟨rfl, -⟩ | ⟨rfl, -⟩ <;> simp [lit] <;> decide
  | number hvalid =>
    obtain ⟨d, tail, hd, htext | htext⟩ := hvalid.head
    · rw [htext]
      rintro ⟨rfl⟩
      rcases hc with rfl | rfl | rfl <;> exact absurd hd (by decide)
    · rw [htext]
      rintro ⟨rfl⟩
      rcases hc with hc | hc | hc <;> exact absurd hc (by decide)
  | element _ _ ih | elements _ _ _ _ ih => exact ih
  | _ => rcases hc with rfl | rfl | rfl <;> simp <;> decide

/-- Every part is decoded to its values. -/
theorem Denotes.decoded {s rest : Str} {part : Part V} (h : Denotes H s rest part) :
    part.Decoded H s rest := by
  induction h with
  | word hword =>
    intro _ fuel hfuel
    obtain ⟨fuel, rfl⟩ : ∃ k, fuel = k + 1 := ⟨fuel - 1, by omega⟩
    exact scanValue_word hword
  | number hvalid =>
    intro hrest fuel hfuel
    obtain ⟨fuel, rfl⟩ : ∃ k, fuel = k + 1 := ⟨fuel - 1, by omega⟩
    exact scanValue_number hvalid hrest (by simp)
  | string hbody =>
    intro _ fuel hfuel
    obtain ⟨fuel, rfl⟩ : ∃ k, fuel = k + 1 := ⟨fuel - 1, by omega⟩
    exact scanValue_string (scanString_of_body hbody)
  | emptyList hblank =>
    intro _ fuel hfuel
    obtain ⟨fuel, rfl⟩ : ∃ k, fuel = k + 1 := ⟨fuel - 1, by omega⟩
    exact scanValue_emptyList rfl (hblank.skip_delimiter (by decide))
  | emptyDict hblank =>
    intro _ fuel hfuel
    obtain ⟨fuel, rfl⟩ : ∃ k, fuel = k + 1 := ⟨fuel - 1, by omega⟩
    exact scanValue_emptyDict rfl (hblank.skip_delimiter (by decide))
  | list hblank hinner ih =>
    intro _ fuel hfuel
    have hle := hblank.length_le
    rw [List.length_cons] at hfuel
    obtain ⟨fuel, rfl⟩ : ∃ k, fuel = k + 1 := ⟨fuel - 1, by omega⟩
    exact scanValue_list rfl (hblank.skip_eq hinner.visible) (hinner.head_ne (by simp))
      (ih _ rfl fuel (by omega))
  | dict hblank hinner ih =>
    intro _ fuel hfuel
    have hle := hblank.length_le
    rw [List.length_cons] at hfuel
    obtain ⟨fuel, rfl⟩ : ∃ k, fuel = k + 1 := ⟨fuel - 1, by omega⟩
    exact scanValue_dict rfl (hblank.skip_eq hinner.visible) (hinner.head_ne (by simp))
      (ih _ rfl fuel (by omega))
  | element hv hblank ih =>
    rintro tail rfl fuel hfuel
    obtain ⟨fuel, rfl⟩ : ∃ k, fuel = k + 1 := ⟨fuel - 1, by omega⟩
    exact scanElements_last (ih (hblank.stops (stops_cons (by decide))) fuel (by omega))
      (hblank.skip_delimiter (by decide))
  | elements hv hcomma hblank hmore ih ih' =>
    rintro tail rfl fuel hfuel
    have hlt := hv.length_lt
    have hle := hcomma.length_le
    have hle' := hblank.length_le
    rw [List.length_cons] at hle
    obtain ⟨fuel, rfl⟩ : ∃ k, fuel = k + 1 := ⟨fuel - 1, by omega⟩
    refine scanElements_more (ih (hcomma.stops (stops_cons (by decide))) fuel (by omega))
      (hcomma.skip_delimiter (by decide)) ?_
    rw [hblank.skip_eq hmore.visible]
    exact ih' _ rfl fuel (by omega)
  | member hbody hcolon hblank hv hend ih =>
    rintro tail rfl fuel hfuel
    have hlt := hbody.length_lt
    have hle := hcolon.length_le
    have hle' := hblank.length_le
    rw [List.length_cons] at hle hfuel
    obtain ⟨fuel, rfl⟩ : ∃ k, fuel = k + 1 := ⟨fuel - 1, by omega⟩
    refine scanMembers_last (scanString_of_body hbody) (hcolon.skip_delimiter (by decide)) ?_
      (hend.skip_delimiter (by decide))
    rw [hblank.skip_eq hv.visible]
    exact ih (hend.stops (stops_cons (by decide))) fuel (by omega)
  | members hbody hcolon hblank hv hcomma hblank' hmore ih ih' =>
    rintro tail rfl fuel hfuel
    have hlt := hbody.length_lt
    have hle := hcolon.length_le
    have hle' := hblank.length_le
    have hlt' := hv.length_lt
    have hle₂ := hcomma.length_le
    have hle₃ := hblank'.length_le
    rw [List.length_cons] at hle hfuel hle₂
    obtain ⟨fuel, rfl⟩ : ∃ k, fuel = k + 1 := ⟨fuel - 1, by omega⟩
    refine scanMembers_more (scanString_of_body hbody) (hcolon.skip_delimiter (by decide)) ?_
      (hcomma.skip_delimiter (by decide)) ?_
    · rw [hblank.skip_eq hv.visible]
      exact ih (hcomma.stops (stops_cons (by decide))) fuel (by omega)
    · rw [hblank'.skip_eq hmore.visible]
      exact ih' _ rfl fuel (by omega)

/-- Without limits a text of the grammar is loaded to its value. -/
theorem loads_of_isText {s : Str} {v : V} (h : IsText H s v) :
    loads H .unlimited s = .ok v := by
  obtain ⟨s', rest, hfront, hv, hback⟩ := h
  have hmark : s.head? ≠ some 0xfeff := by
    intro hmark
    obtain ⟨w, hw, rfl⟩ := hfront
    cases w with
    | nil => exact hv.head_ne (by simp) hmark
    | cons b w =>
      cases hmark
      cases hw
  have hle := hfront.length_le
  have hstops : Stops rest := hback.stops rfl
  rw [loads, if_neg hmark, hfront.skip_eq hv.visible]
  change scanValue H none _ none s' >>= _ = _
  rw [hv.decoded hstops _ (by omega)]
  change (if skip rest = [] then _ else _) = _
  rw [hback.skip_eq visible_nil, if_pos rfl]
  rfl

/-! ## What is not decoded -/

/-- A fault that the limits allow; the fuel of the decoder lasts. -/
structure Fault.Allowed (digits depth : Option Nat) (fault : Fault) : Prop where
  fuel : fault ≠ .fuel
  digits : fault = .digits → digits ≠ none
  depth : fault = .depth → depth ≠ none

/-- A text may always be malformed. -/
theorem Fault.allowed_malformed {depth : Option Nat} : Fault.malformed.Allowed digits depth :=
  ⟨by simp, by simp, by simp⟩

/-- A sequence that failed has failed in one of its parts. -/
theorem error_cases {ε α β : Type} {x : Except ε α} {f : α → Except ε β} {e : ε}
    (h : (x >>= f) = .error e) : x = .error e ∨ ∃ a, x = .ok a ∧ f a = .error e := by
  cases x with
  | ok a => exact Or.inr ⟨a, rfl, h⟩
  | error e' =>
    cases h
    exact Or.inl rfl

/-- Entering a container fails at the limit, and keeps an unlimited depth. -/
theorem enter_cases (depth : Option Nat) : (enter depth = .error .depth ∧ depth ≠ none) ∨
    ∃ depth', enter depth = .ok depth' ∧ (depth' ≠ none → depth ≠ none) := by
  rcases depth with _ | _ | depth
  · exact Or.inr ⟨none, rfl, id⟩
  · exact Or.inl ⟨rfl, by simp⟩
  · exact Or.inr ⟨some depth, rfl, by simp⟩

/-- A word or a number fails as it may under the limits. -/
theorem scanAtom_fault {depth : Option Nat} {s : Str} {fault : Fault}
    (h : scanAtom H digits s = .error fault) : fault.Allowed digits depth := by
  unfold scanAtom at h
  split at h
  · cases h
  · split at h
    · rcases error_cases h with h | ⟨v, -, h⟩
      · unfold convert at h
        split at h
        · rename_i hlimit
          cases h
          refine ⟨by simp, fun _ hnone => ?_, by simp⟩
          subst hnone
          simp at hlimit
        · cases h
      · cases h
    · cases h
      exact Fault.allowed_malformed

/-- What stands behind a visible character is shorter. -/
theorem skip_length_lt {s : Str} {c : CodePoint} (h : (skip s).head? = some c) :
    (skip s).tail.length < s.length := by
  have hle := (blank_of_head h).length_le
  rw [List.length_cons] at hle
  omega

/-- Each scanner fails only as its limits allow. -/
theorem scan_fault (fuel : Nat) :
    (∀ {depth s fault}, 2 * s.length + 1 ≤ fuel →
      scanValue H digits fuel depth s = .error fault → fault.Allowed digits depth) ∧
    (∀ {depth s fault}, 2 * s.length + 2 ≤ fuel →
      scanElements H digits fuel depth s = .error fault → fault.Allowed digits depth) ∧
    ∀ {depth s fault}, 2 * s.length + 2 ≤ fuel →
      scanMembers H digits fuel depth s = .error fault → fault.Allowed digits depth := by
  induction fuel with
  | zero => exact ⟨fun h => by omega, fun h => by omega, fun h => by omega⟩
  | succ fuel ih =>
    obtain ⟨hvalue, helements, hmembers⟩ := ih
    -- a container is entered, and its depth is limited only where its surroundings are
    have hinside : ∀ {depth depth' : Option Nat} {fault : Fault}, (depth' ≠ none → depth ≠ none) →
        fault.Allowed digits depth' → fault.Allowed digits depth := fun hdepth h =>
      ⟨h.fuel, h.digits, fun he => hdepth (h.depth he)⟩
    refine ⟨fun {depth s fault} hfuel h => ?_, fun {depth s fault} hfuel h => ?_,
      fun {depth s fault} hfuel h => ?_⟩
    · unfold scanValue at h
      cases s with
      | nil =>
        cases h
        exact Fault.allowed_malformed
      | cons c s =>
        rw [List.length_cons] at hfuel
        have hskip := length_skip_le s
        dsimp only at h
        split at h
        · split at h <;> cases h
          exact Fault.allowed_malformed
        · split at h
          · rcases enter_cases depth with ⟨henter, hdepth⟩ | ⟨depth', henter, hdepth⟩
            · rw [henter] at h
              cases h
              exact ⟨by simp, by simp, fun _ => hdepth⟩
            · rw [henter] at h
              change (if _ then _ else _) = _ at h
              split at h
              · cases h
              · rcases error_cases h with h | ⟨a, -, h⟩
                · exact hinside hdepth (helements (by omega) h)
                · cases h
          · split at h
            · rcases enter_cases depth with ⟨henter, hdepth⟩ | ⟨depth', henter, hdepth⟩
              · rw [henter] at h
                cases h
                exact ⟨by simp, by simp, fun _ => hdepth⟩
              · rw [henter] at h
                change (if _ then _ else _) = _ at h
                split at h
                · cases h
                · rcases error_cases h with h | ⟨a, -, h⟩
                  · exact hinside hdepth (hmembers (by omega) h)
                  · cases h
            · exact scanAtom_fault h
    · unfold scanElements at h
      rcases error_cases h with h | ⟨⟨v, s₁⟩, hv, h⟩
      · exact hvalue (by omega) h
      · have hlt := ((scan_sound fuel).1 hv).length_lt
        dsimp only at h
        split at h
        · cases h
        · split at h
          · rename_i hcomma
            have hlt' := skip_length_lt hcomma
            have hskip := length_skip_le (skip s₁).tail
            rcases error_cases h with h | ⟨a, -, h⟩
            · exact helements (by omega) h
            · cases h
          · cases h
            exact Fault.allowed_malformed
    · unfold scanMembers at h
      split at h
      · rename_i hquote
        obtain ⟨tail, rfl⟩ := List.head?_eq_some_iff.mp hquote
        rw [List.length_cons] at hfuel
        rw [List.tail_cons] at h
        split at h
        · cases h
          exact Fault.allowed_malformed
        · rename_i key s₁ hkey
          have hlt := (body_of_scanString hkey).length_lt
          dsimp only at h
          split at h
          · rename_i hcolon
            have hlt₁ := skip_length_lt hcolon
            have hskip := length_skip_le (skip s₁).tail
            rcases error_cases h with h | ⟨⟨v, s₂⟩, hv, h⟩
            · exact hvalue (by omega) h
            · have hlt₂ := ((scan_sound fuel).1 hv).length_lt
              dsimp only at h
              split at h
              · cases h
              · split at h
                · rename_i hcomma
                  have hlt₃ := skip_length_lt hcomma
                  have hskip' := length_skip_le (skip s₂).tail
                  rcases error_cases h with h | ⟨a, -, h⟩
                  · exact hmembers (by omega) h
                  · cases h
                · cases h
                  exact Fault.allowed_malformed
          · cases h
            exact Fault.allowed_malformed
      · cases h
        exact Fault.allowed_malformed

/-- The decoder fails only as its limits allow. -/
theorem loads_fault {limits : Limits} {s : Str} {fault : Fault} (h : loads H limits s = .error fault) :
    fault.Allowed limits.digits limits.depth := by
  unfold loads at h
  split at h
  · cases h
    exact Fault.allowed_malformed
  · have hle := length_skip_le s
    rcases error_cases h with h | ⟨⟨v, rest⟩, -, h⟩
    · exact (scan_fault _).1 (by omega) h
    · dsimp only at h
      split at h <;> cases h
      exact Fault.allowed_malformed

/-- Without limits the decoder decides the grammar. -/
theorem loads_unlimited_iff {s : Str} {v : V} : loads H .unlimited s = .ok v ↔ IsText H s v :=
  ⟨isText_of_loads, loads_of_isText⟩

/-- And whatever is no text of the grammar is malformed. -/
theorem loads_unlimited_error {s : Str} {fault : Fault} (h : loads H .unlimited s = .error fault) :
    fault = .malformed := by
  have hallowed := loads_fault h
  cases fault with
  | malformed => rfl
  | digits => exact absurd rfl (hallowed.digits rfl)
  | depth => exact absurd rfl (hallowed.depth rfl)
  | fuel => exact absurd rfl hallowed.fuel

end CognitiveTree.Json
