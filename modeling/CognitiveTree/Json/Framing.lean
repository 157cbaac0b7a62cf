import CognitiveTree.Json.Correctness

/-!
# Texts in their surroundings

What is behind a part plays no role for it, so a part that was found inside a longer text is a text
of its own.
-/

namespace CognitiveTree.Json

theorem Blank.frame {s rest : Str} (h : Blank s rest) :
    ∃ t, s = t ++ rest ∧ ∀ r, Blank (t ++ r) r := by
  obtain ⟨w, hw, rfl⟩ := h
  exact ⟨w, rfl, fun r => ⟨w, hw, rfl⟩⟩

theorem Body.frame {s rest : Str} {pieces : List Piece} (h : Body s rest pieces) :
    ∃ t, s = t ++ rest ∧ ∀ r, Body (t ++ r) r pieces := by
  induction h with
  | close => exact ⟨[quote], rfl, fun r => .close⟩
  | @plain c s rest pieces hc _ ih =>
    obtain ⟨t, rfl, ht⟩ := ih
    exact ⟨c :: t, rfl, fun r => .plain hc (ht r)⟩
  | @escape e c s rest pieces he _ ih =>
    obtain ⟨t, rfl, ht⟩ := ih
    exact ⟨backslash :: e :: t, rfl, fun r => .escape he (ht r)⟩
  | @unit a b c d u s rest pieces hu _ ih =>
    obtain ⟨t, rfl, ht⟩ := ih
    exact ⟨backslash :: unitEscape :: a :: b :: c :: d :: t, rfl, fun r => .unit hu (ht r)⟩

variable {V : Type} {H : Hooks V}

/-- A part is a part of every text that goes on behind it. -/
theorem Denotes.frame {s rest : Str} {part : Part V} (h : Denotes H s rest part) :
    ∃ t, s = t ++ rest ∧ ∀ r, Denotes H (t ++ r) r part := by
  induction h with
  | @word w rest v hword => exact ⟨w, rfl, fun r => .word hword⟩
  | @number n rest hvalid => exact ⟨n.text, rfl, fun r => .number hvalid⟩
  | string hbody =>
    obtain ⟨t, rfl, ht⟩ := hbody.frame
    exact ⟨quote :: t, rfl, fun r => .string (ht r)⟩
  | emptyList hblank =>
    obtain ⟨w, rfl, hw⟩ := hblank.frame
    exact ⟨openBracket :: (w ++ [closeBracket]), by simp, fun r => by simpa using .emptyList (hw _)⟩
  | emptyDict hblank =>
    obtain ⟨w, rfl, hw⟩ := hblank.frame
    exact ⟨openBrace :: (w ++ [closeBrace]), by simp, fun r => by simpa using .emptyDict (hw _)⟩
  | list hblank _ ih =>
    obtain ⟨w, rfl, hw⟩ := hblank.frame
    obtain ⟨t, rfl, ht⟩ := ih
    refine ⟨openBracket :: (w ++ (t ++ [closeBracket])), by simp, fun r => ?_⟩
    simpa using .list (hw _) (ht (closeBracket :: r))
  | dict hblank _ ih =>
    obtain ⟨w, rfl, hw⟩ := hblank.frame
    obtain ⟨t, rfl, ht⟩ := ih
    refine ⟨openBrace :: (w ++ (t ++ [closeBrace])), by simp, fun r => ?_⟩
    simpa using .dict (hw _) (ht (closeBrace :: r))
  | element _ hblank ih =>
    obtain ⟨t, rfl, ht⟩ := ih
    obtain ⟨w, rfl, hw⟩ := hblank.frame
    exact ⟨t ++ w, by simp, fun r => by simpa using .element (ht _) (hw r)⟩
  | elements _ hcomma hblank _ ih ih' =>
    obtain ⟨t, rfl, ht⟩ := ih
    obtain ⟨w, rfl, hw⟩ := hcomma.frame
    obtain ⟨w', rfl, hw'⟩ := hblank.frame
    obtain ⟨t', rfl, ht'⟩ := ih'
    refine ⟨t ++ (w ++ comma :: (w' ++ t')), by simp, fun r => ?_⟩
    simpa using .elements (ht _) (hw _) (hw' _) (ht' r)
  | member hbody hcolon hblank _ hend ih =>
    obtain ⟨b, rfl, hb⟩ := hbody.frame
    obtain ⟨w, rfl, hw⟩ := hcolon.frame
    obtain ⟨w', rfl, hw'⟩ := hblank.frame
    obtain ⟨t, rfl, ht⟩ := ih
    obtain ⟨w'', rfl, hw''⟩ := hend.frame
    refine ⟨quote :: (b ++ (w ++ colon :: (w' ++ (t ++ w'')))), by simp, fun r => ?_⟩
    simpa using .member (hb _) (hw _) (hw' _) (ht _) (hw'' r)
  | members hbody hcolon hblank _ hcomma hblank' _ ih ih' =>
    obtain ⟨b, rfl, hb⟩ := hbody.frame
    obtain ⟨w, rfl, hw⟩ := hcolon.frame
    obtain ⟨w', rfl, hw'⟩ := hblank.frame
    obtain ⟨t, rfl, ht⟩ := ih
    obtain ⟨w'', rfl, hw''⟩ := hcomma.frame
    obtain ⟨w₃, rfl, hw₃⟩ := hblank'.frame
    obtain ⟨t', rfl, ht'⟩ := ih'
    refine ⟨quote :: (b ++ (w ++ colon :: (w' ++ (t ++ (w'' ++ comma :: (w₃ ++ t')))))), by simp,
      fun r => ?_⟩
    simpa using .members (hb _) (hw _) (hw' _) (ht _) (hw'' _) (hw₃ _) (ht' r)

end CognitiveTree.Json
