import CognitiveTree.Core.Lines

/-!
# Splitting texts into lines

The lines of a concatenation, of a text without line breaks and of a text whose only line breaks
are newlines. What a text says at last is found among its lines that are not blank, and white space
at its ends changes none of them.
-/

namespace CognitiveTree.Str

/-- The newline. -/
def newline : CodePoint := 10

/-- What follows a line break: a carriage return takes a newline with it. -/
def afterBreak (c : CodePoint) (s : Str) : Str :=
  if c.val = 13 ∧ s.head? = some newline then s.tail else s

/-- Skipping the rest of a line break adds nothing. -/
theorem length_afterBreak_le (c : CodePoint) (s : Str) : (afterBreak c s).length ≤ s.length := by
  unfold afterBreak
  split
  · simp
  · exact le_rfl

/-- Only behind a carriage return a line feed belongs to the break. -/
theorem afterBreak_of_ne {c : CodePoint} (h : c.val ≠ 13) (s : Str) : afterBreak c s = s :=
  if_neg fun hc => h hc.1

/-- At the end there is nothing to skip. -/
@[simp] theorem afterBreak_nil (c : CodePoint) : afterBreak c [] = [] :=
  if_neg fun h => by cases h.2

/-- Splitting reads one character, or one line break. -/
theorem linesFrom_cons (c : CodePoint) (s line : Str) : linesFrom (c :: s) line =
    if isLineBreak c then line.reverse :: linesFrom (afterBreak c s) []
    else linesFrom s (c :: line) := by
  have hreturn : c.val = 13 → isLineBreak c = true := fun h => by simp [isLineBreak, h]
  cases s with
  | nil =>
    rw [linesFrom]
    by_cases hc : isLineBreak c = true
    · simp [afterBreak, linesFrom, hc]
    · simp [linesFrom, hc]
  | cons d s =>
    rw [linesFrom]
    by_cases hpair : c.val = 13 ∧ d.val = 10
    · have hd : d = newline := Fin.ext hpair.2
      rw [if_pos hpair, if_pos (hreturn hpair.1)]
      simp [afterBreak, hpair.1, hd]
    · have hafter : afterBreak c (d :: s) = d :: s := by
        apply if_neg
        rintro ⟨hc, hd⟩
        have hval := congrArg Fin.val (Option.some.inj hd)
        exact hpair ⟨hc, hval⟩
      rw [if_neg hpair, hafter]

/-- A text is read as its splitting reads it. -/
theorem splitting_induction {motive : Str → Str → Prop} (nil : ∀ line, motive [] line)
    (ended : ∀ c s line, isLineBreak c = true → motive (afterBreak c s) [] → motive (c :: s) line)
    (next : ∀ c s line, isLineBreak c = false → motive s (c :: line) → motive (c :: s) line)
    (s line : Str) : motive s line := by
  induction hn : s.length using Nat.strong_induction_on generalizing s line with
  | _ n ih =>
    subst hn
    cases s with
    | nil => exact nil line
    | cons c s =>
      cases hc : isLineBreak c with
      | true =>
        have hlen := length_afterBreak_le c s
        exact ended c s line hc (ih _ (by rw [List.length_cons]; omega) _ _ rfl)
      | false => exact next c s line hc (ih _ (by simp) _ _ rfl)

/-- A line feed ends the line. -/
theorem linesFrom_newline (s line : Str) :
    linesFrom (newline :: s) line = line.reverse :: linesFrom s [] := by
  rw [linesFrom_cons, if_pos (by decide), afterBreak_of_ne (by decide)]

/-- More text at the end changes nothing behind a break. -/
theorem afterBreak_append (c : CodePoint) {s : Str} (hs : s ≠ []) (t : Str) :
    afterBreak c (s ++ t) = afterBreak c s ++ t := by
  cases s with
  | nil => exact absurd rfl hs
  | cons d s =>
    unfold afterBreak
    by_cases h : c.val = 13 ∧ d = newline
    · simp [h]
    · have hd : ¬ (c.val = 13 ∧ (d :: s).head? = some newline) := by simpa using h
      have hd' : ¬ (c.val = 13 ∧ (d :: s ++ t).head? = some newline) := by simpa using h
      rw [if_neg hd, if_neg hd']

/-- The lines of a text in front of a newline do not depend on what follows it. -/
theorem linesFrom_append_newline (s t line : Str) : linesFrom (s ++ newline :: t) line =
    linesFrom (s ++ [newline]) line ++ linesFrom t [] := by
  induction s, line using splitting_induction with
  | nil line => simp [linesFrom_newline, linesFrom]
  | ended c s line hc ih =>
    rw [List.cons_append, List.cons_append, linesFrom_cons, linesFrom_cons, if_pos hc, if_pos hc]
    by_cases hs : s = []
    · subst hs
      by_cases hreturn : c.val = 13
      · simp [afterBreak, hreturn, linesFrom]
      · simp [afterBreak_of_ne hreturn, linesFrom_newline, linesFrom]
    · rw [afterBreak_append c hs, afterBreak_append c hs, ih]
      rfl
  | next c s line hc ih =>
    rw [List.cons_append, List.cons_append, linesFrom_cons, linesFrom_cons, hc, ih]
    rfl

/-- A newline at the end adds at most an empty line. -/
theorem linesFrom_concat_newline (s line : Str) :
    linesFrom (s ++ [newline]) line = linesFrom s line ∨
      linesFrom (s ++ [newline]) line = linesFrom s line ++ [[]] := by
  induction s, line using splitting_induction with
  | nil line =>
    rw [List.nil_append, linesFrom_newline, linesFrom, linesFrom, if_pos rfl]
    by_cases hline : line = []
    · simp [hline]
    · simp [hline]
  | ended c s line hc ih =>
    rw [List.cons_append, linesFrom_cons, linesFrom_cons, if_pos hc, if_pos hc]
    by_cases hs : s = []
    · subst hs
      by_cases hreturn : c.val = 13
      · simp [afterBreak, hreturn, linesFrom]
      · simp [afterBreak_of_ne hreturn, linesFrom_newline, linesFrom]
    · rw [afterBreak_append c hs]
      rcases ih with ih | ih <;> simp [ih]
  | next c s line hc ih =>
    rw [List.cons_append, linesFrom_cons, linesFrom_cons, hc]
    exact ih

/-- A line feed between two texts splits their lines, and may add an empty one. -/
theorem splitLines_append_newline (s t : Str) :
    splitLines (s ++ newline :: t) = splitLines s ++ splitLines t ∨
      splitLines (s ++ newline :: t) = splitLines s ++ [] :: splitLines t := by
  unfold splitLines
  rw [linesFrom_append_newline]
  rcases linesFrom_concat_newline s [] with h | h <;> simp [h]

/-- A text without line breaks begins the line of what follows. -/
theorem linesFrom_of_flat_append {s : Str} (h : ∀ c ∈ s, isLineBreak c = false) (t line : Str) :
    linesFrom (s ++ t) line = linesFrom t (s.reverse ++ line) := by
  induction s generalizing line with
  | nil => rfl
  | cons c s ih =>
    rw [List.forall_mem_cons] at h
    rw [List.cons_append, linesFrom_cons, h.1, ih h.2]
    simp

/-- A text without line breaks is the rest of one line. -/
theorem linesFrom_of_flat {s : Str} (h : ∀ c ∈ s, isLineBreak c = false) (line : Str) :
    linesFrom s line = linesFrom [] (s.reverse ++ line) := by
  simpa using linesFrom_of_flat_append h [] line

/-- A text without line breaks is one line. -/
theorem splitLines_of_flat {s : Str} (h : ∀ c ∈ s, isLineBreak c = false) (hne : s ≠ []) :
    splitLines s = [s] := by
  rw [splitLines, linesFrom_of_flat h]
  simp [linesFrom, hne]

/-- No line has a line break in it. -/
theorem flat_of_mem_linesFrom {s line : Str} (hline : ∀ c ∈ line, isLineBreak c = false) :
    ∀ l ∈ linesFrom s line, ∀ c ∈ l, isLineBreak c = false := by
  induction s, line using splitting_induction with
  | nil line =>
    rw [linesFrom]
    split
    · simp
    · simpa using hline
  | ended c s line hc ih =>
    rw [linesFrom_cons, if_pos hc, List.forall_mem_cons]
    exact ⟨by simpa using hline, ih (by simp)⟩
  | next c s line hc ih =>
    rw [linesFrom_cons, hc]
    exact ih (List.forall_mem_cons.mpr ⟨hc, hline⟩)

/-- No line has a line break. -/
theorem flat_of_mem_splitLines {s l : Str} (h : l ∈ splitLines s) :
    ∀ c ∈ l, isLineBreak c = false :=
  flat_of_mem_linesFrom (by simp) l h

/-- The characters at which a line ends are white space. -/
theorem isSpace_of_isLineBreak {c : CodePoint} (h : isLineBreak c = true) : isSpace c = true := by
  unfold isLineBreak at h
  unfold isSpace
  simp only [Bool.or_eq_true, Bool.and_eq_true, decide_eq_true_eq, beq_iff_eq] at h ⊢
  omega

section Strip

/-- White space in front is stripped. -/
theorem strip_append_left {lead : Str} (h : ∀ c ∈ lead, isSpace c = true) (s : Str) :
    strip (lead ++ s) = strip s := by
  rw [strip, lstrip, List.dropWhile_append_of_pos h]
  rfl

/-- White space at the end is stripped. -/
theorem strip_append_right {trail : Str} (h : ∀ c ∈ trail, isSpace c = true) (s : Str) :
    strip (s ++ trail) = strip s := by
  induction trail using List.reverseRecOn with
  | nil => rw [List.append_nil]
  | append_singleton trail c ih =>
    rw [List.forall_mem_append, List.forall_mem_singleton] at h
    have hc : strip ((s ++ trail) ++ [c]) = strip (s ++ trail) := by
      unfold strip lstrip rstrip
      rw [List.dropWhile_append]
      split
      · rename_i hblank
        rw [List.isEmpty_iff.mp hblank, List.dropWhile_cons_of_pos h.2]
        rfl
      · rw [List.rdropWhile_concat_pos _ _ _ h.2]
    rw [← List.append_assoc, hc, ih h.1]

/-- Stripping takes white space from both ends. -/
theorem strip_split (s : Str) :
    s.takeWhile isSpace ++ strip s ++ (lstrip s).rtakeWhile isSpace = s := by
  rw [List.append_assoc, strip, rstrip, List.rdropWhile_append_rtakeWhile, lstrip,
    List.takeWhile_append_dropWhile]

/-- Where something visible is left, it is left behind the leading white space. -/
theorem lstrip_ne_nil {s : Str} (h : strip s ≠ []) : lstrip s ≠ [] := by
  intro hnil
  apply h
  rw [strip, hnil]
  rfl

/-- Only the white space in front of something visible is leading. -/
theorem lstrip_append {s : Str} (h : strip s ≠ []) (t : Str) :
    lstrip (s ++ t) = lstrip s ++ t := by
  rw [lstrip, List.dropWhile_append, if_neg]
  · rfl
  · rw [List.isEmpty_iff]
    exact lstrip_ne_nil h

/-- A blank text in front is leading white space. -/
theorem lstrip_append_of_blank {s : Str} (h : strip s = []) (t : Str) :
    lstrip (s ++ t) = lstrip t :=
  List.dropWhile_append_of_pos (strip_eq_nil_iff.mp h)

/-- Stripping the front first changes nothing. -/
theorem strip_lstrip (s : Str) : strip (lstrip s) = strip s := by
  have hsplit : s.takeWhile isSpace ++ lstrip s = s := List.takeWhile_append_dropWhile
  conv_rhs => rw [← hsplit]
  exact (strip_append_left (fun _ hc => List.mem_takeWhile_imp hc) _).symm

/-- What is left of a text begins with a visible character. -/
theorem isSpace_of_lstrip {s t : Str} {c : CodePoint} (h : lstrip s = c :: t) :
    isSpace c = false := by
  have hhead := List.head?_dropWhile_not isSpace s
  rw [← lstrip, h] at hhead
  exact hhead

/-- Stripping adds nothing. -/
theorem length_strip_le (s : Str) : (strip s).length ≤ s.length := by
  have hsplit := congrArg List.length (strip_split s)
  simp only [List.length_append] at hsplit
  omega

/-- A text that begins and ends with visible characters is stripped. -/
theorem strip_eq_self {c : CodePoint} {s : Str} (hc : isSpace c = false)
    (hs : strip s = s) (hne : s ≠ []) (t : Str) : strip (c :: t ++ s) = c :: t ++ s := by
  have hlast : rstrip s = s := by
    conv_lhs => rw [← hs]
    rw [strip]
    exact (List.rdropWhile_idempotent isSpace _).trans hs
  rw [strip, lstrip, List.cons_append, List.dropWhile_cons_of_neg (by simp [hc]), rstrip,
    List.rdropWhile_eq_self_iff]
  intro hall
  have hend : (c :: (t ++ s)).getLast hall = s.getLast hne :=
    List.getLast_append_of_ne_nil (l := c :: t) hall hne
  rw [hend]
  exact List.rdropWhile_eq_self_iff.mp hlast hne

end Strip

/-- The lines that are not blank, stripped. -/
def meaningful (lines : List Str) : List Str := (lines.map strip).filter fun line => line ≠ []

/-- No lines, no meaningful ones. -/
@[simp] theorem meaningful_nil : meaningful [] = [] := rfl

/-- The meaningful lines of two lists follow one another. -/
theorem meaningful_append (lines lines' : List Str) :
    meaningful (lines ++ lines') = meaningful lines ++ meaningful lines' := by
  simp [meaningful]

/-- The first line is meaningful or not on its own. -/
theorem meaningful_cons (line : Str) (lines : List Str) :
    meaningful (line :: lines) = meaningful [line] ++ meaningful lines :=
  meaningful_append [line] lines

/-- A blank line is not meaningful. -/
theorem meaningful_blank {line : Str} (h : ∀ c ∈ line, isSpace c = true) :
    meaningful [line] = [] := by
  simp [meaningful, strip_eq_nil_iff.mpr h]

/-- Lines that strip to the same text mean the same. -/
theorem meaningful_congr {line line' : Str} (h : strip line = strip line') :
    meaningful [line] = meaningful [line'] := by
  simp [meaningful, h]

/-- At the end of the text the line that was begun is the last one. -/
theorem meaningful_unfinished (line : Str) :
    meaningful (linesFrom [] line) = meaningful [line.reverse] := by
  rw [linesFrom]
  split
  · rename_i h
    subst h
    exact (meaningful_blank (by simp)).symm
  · rfl

/-- White space in front of a line does not change what it says. -/
theorem meaningful_linesFrom_concat {c : CodePoint} (hc : isSpace c = true) (s line : Str) :
    meaningful (linesFrom s (line ++ [c])) = meaningful (linesFrom s line) := by
  have hstrip : ∀ line : Str, meaningful [(line ++ [c]).reverse] = meaningful [line.reverse] := by
    intro line
    apply meaningful_congr
    rw [List.reverse_concat]
    have hlead : ∀ d ∈ [c], isSpace d = true := by simpa using hc
    exact strip_append_left hlead _
  induction s, line using splitting_induction with
  | nil line => rw [meaningful_unfinished, meaningful_unfinished, hstrip]
  | ended d s line hd _ =>
    rw [linesFrom_cons, linesFrom_cons, if_pos hd, if_pos hd, meaningful_cons, hstrip,
      ← meaningful_cons]
  | next d s line hd ih => rwa [linesFrom_cons, linesFrom_cons, hd]

/-- The rest of a line break adds nothing meaningful. -/
theorem meaningful_afterBreak (c : CodePoint) (s : Str) :
    meaningful (splitLines (afterBreak c s)) = meaningful (splitLines s) := by
  unfold afterBreak
  split
  · rename_i h
    obtain ⟨t, rfl⟩ : ∃ t, s = newline :: t := by
      cases s with
      | nil => cases h.2
      | cons d t => exact ⟨t, by rw [Option.some.inj h.2]⟩
    rw [List.tail_cons, splitLines, splitLines, linesFrom_newline, List.reverse_nil,
      meaningful_cons, meaningful_blank (by simp), List.nil_append]
  · rfl

/-- White space in front of a text changes none of its lines. -/
theorem meaningful_cons_space {c : CodePoint} (hc : isSpace c = true) (s : Str) :
    meaningful (splitLines (c :: s)) = meaningful (splitLines s) := by
  rw [splitLines, linesFrom_cons]
  split
  · rw [List.reverse_nil, meaningful_cons, meaningful_blank (by simp), List.nil_append]
    exact meaningful_afterBreak c s
  · exact meaningful_linesFrom_concat hc s []

/-- A line break separates what is in front of it from what follows. -/
theorem meaningful_linesFrom_break {b : CodePoint} (hb : isLineBreak b = true) (s t line : Str) :
    meaningful (linesFrom (s ++ b :: t) line) =
      meaningful (linesFrom s line) ++ meaningful (splitLines t) := by
  induction s, line using splitting_induction with
  | nil line =>
    rw [List.nil_append, linesFrom_cons, if_pos hb, meaningful_cons, meaningful_unfinished]
    exact congrArg _ (meaningful_afterBreak b t)
  | ended c s line hc ih =>
    rw [List.cons_append, linesFrom_cons, linesFrom_cons, if_pos hc, if_pos hc,
      meaningful_cons line.reverse (linesFrom (afterBreak c (s ++ b :: t)) []),
      meaningful_cons line.reverse (linesFrom (afterBreak c s) []), List.append_assoc]
    congr 1
    by_cases hs : s = []
    · subst hs
      have hafter := meaningful_afterBreak c (b :: t)
      rw [meaningful_cons_space (isSpace_of_isLineBreak hb)] at hafter
      rw [List.nil_append, afterBreak_nil, linesFrom, if_pos rfl, meaningful_nil, List.nil_append]
      exact hafter
    · rw [afterBreak_append c hs, ih]
  | next c s line hc ih =>
    rw [List.cons_append, linesFrom_cons, linesFrom_cons, hc]
    exact ih

/-- A line break between two texts separates their meaningful lines. -/
theorem meaningful_break {b : CodePoint} (hb : isLineBreak b = true) (s t : Str) :
    meaningful (splitLines (s ++ b :: t)) =
      meaningful (splitLines s) ++ meaningful (splitLines t) :=
  meaningful_linesFrom_break hb s t []

/-- White space behind a line does not change what it says. -/
theorem meaningful_linesFrom_space {c : CodePoint} (hc : isSpace c = true)
    (hflat : isLineBreak c = false) (s line : Str) :
    meaningful (linesFrom (s ++ [c]) line) = meaningful (linesFrom s line) := by
  induction s, line using splitting_induction with
  | nil line =>
    have hline : linesFrom [c] line = linesFrom [] (c :: line) := by
      rw [linesFrom_cons, if_neg (by simp [hflat])]
    rw [List.nil_append, hline, meaningful_unfinished, meaningful_unfinished]
    apply meaningful_congr
    rw [List.reverse_cons]
    exact strip_append_right (by simpa using hc) _
  | ended d s line hd ih =>
    rw [List.cons_append, linesFrom_cons, linesFrom_cons, if_pos hd, if_pos hd,
      meaningful_cons line.reverse (linesFrom (afterBreak d (s ++ [c])) []),
      meaningful_cons line.reverse (linesFrom (afterBreak d s) [])]
    congr 1
    by_cases hs : s = []
    · subst hs
      have hne : ¬ c = newline := fun h => by
        subst h
        cases hflat
      have hafter : afterBreak d [c] = [c] := if_neg fun h => hne (Option.some.inj h.2)
      rw [List.nil_append, hafter, afterBreak_nil]
      exact meaningful_cons_space hc []
    · rw [afterBreak_append d hs, ih]
  | next d s line hd ih =>
    rw [List.cons_append, linesFrom_cons, linesFrom_cons, hd]
    exact ih

/-- One white space character at the end changes no meaningful line. -/
theorem meaningful_concat_space {c : CodePoint} (hc : isSpace c = true) (s : Str) :
    meaningful (splitLines (s ++ [c])) = meaningful (splitLines s) := by
  cases hbreak : isLineBreak c with
  | true =>
    rw [meaningful_break hbreak, show splitLines [] = [] from rfl, meaningful_nil, List.append_nil]
  | false => exact meaningful_linesFrom_space hc hbreak s []

/-- White space at the end changes no meaningful line. -/
theorem meaningful_append_spaces {trail : Str} (h : ∀ c ∈ trail, isSpace c = true) (s : Str) :
    meaningful (splitLines (s ++ trail)) = meaningful (splitLines s) := by
  induction trail generalizing s with
  | nil => rw [List.append_nil]
  | cons c trail ih =>
    rw [List.forall_mem_cons] at h
    rw [← List.singleton_append, ← List.append_assoc, ih h.2, meaningful_concat_space h.1]

/-- White space in front changes no meaningful line. -/
theorem meaningful_spaces_append {lead : Str} (h : ∀ c ∈ lead, isSpace c = true) (s : Str) :
    meaningful (splitLines (lead ++ s)) = meaningful (splitLines s) := by
  induction lead with
  | nil => rfl
  | cons c lead ih =>
    rw [List.forall_mem_cons] at h
    rw [List.cons_append, meaningful_cons_space h.1, ih h.2]

/-- Stripping a text changes none of its lines. -/
theorem meaningful_strip (s : Str) :
    meaningful (splitLines (strip s)) = meaningful (splitLines s) := by
  conv_rhs => rw [← strip_split s]
  rw [meaningful_append_spaces fun c hc => List.mem_rtakeWhile_imp hc,
    meaningful_spaces_append fun c hc => List.mem_takeWhile_imp hc]

/-- A visible text on one line is what it says. -/
theorem meaningful_of_flat {s : Str} (h : ∀ c ∈ s, isLineBreak c = false) (hne : strip s ≠ []) :
    meaningful (splitLines s) = [strip s] := by
  have hs : s ≠ [] := by
    rintro rfl
    exact hne rfl
  rw [splitLines_of_flat h hs]
  simp [meaningful, hne]

/-- What is read from the lines has no line break. -/
theorem flat_of_mem_meaningful {s l : Str} (h : l ∈ meaningful (splitLines s)) :
    ∀ c ∈ l, isLineBreak c = false := by
  obtain ⟨line, hline, rfl⟩ := List.mem_map.mp (List.mem_filter.mp h).1
  intro c hc
  apply flat_of_mem_splitLines hline
  rw [← strip_split line]
  simp [hc]

/-- The last meaningful line is found by searching from the end. -/
theorem lastMeaningfulLine_eq (s : Str) :
    lastMeaningfulLine s = (meaningful (splitLines s)).getLast?.getD [] := by
  rw [← meaningful_strip]
  unfold lastMeaningfulLine meaningful
  rw [List.getLast?_eq_head?_reverse, ← List.filter_reverse, List.head?_filter, List.map_reverse]

section Newlines

/-- Where only newlines end lines, the lines of a text are the parts between newlines. -/
theorem linesFrom_of_newlines {s : Str} (h : ∀ c ∈ s, isLineBreak c = true → c = newline)
    (line : Str) :
    linesFrom (s ++ [newline]) line = (s.splitOn newline).modifyHead (line.reverse ++ ·) := by
  induction s generalizing line with
  | nil => simp [linesFrom_newline, linesFrom]
  | cons c s ih =>
    rw [List.forall_mem_cons] at h
    rw [List.splitOn_cons_eq_if_modifyHead, List.cons_append]
    by_cases hc : c = newline
    · subst hc
      rw [linesFrom_newline, ih h.2, if_pos (beq_self_eq_true newline)]
      obtain ⟨first, rest, hparts⟩ := List.exists_cons_of_ne_nil (List.splitOn_ne_nil newline s)
      simp [hparts]
    · have hflat : isLineBreak c = false := by simpa using mt h.1 hc
      rw [linesFrom_cons, hflat, if_neg (by simp), ih h.2, if_neg (by simpa using hc)]
      obtain ⟨first, rest, hparts⟩ := List.exists_cons_of_ne_nil (List.splitOn_ne_nil newline s)
      simp [hparts]

/-- White space in front of a text adds only white space to its parts. -/
theorem exists_splitOn_of_lead {lead : Str} (h : ∀ c ∈ lead, isSpace c = true) (s : Str) :
    ∀ l ∈ s.splitOn newline, ∃ l' ∈ (lead ++ s).splitOn newline, strip l' = strip l := by
  induction lead with
  | nil => exact fun l hl => ⟨l, hl, rfl⟩
  | cons c lead ih =>
    rw [List.forall_mem_cons] at h
    intro l hl
    obtain ⟨l', hl', hstrip⟩ := ih h.2 l hl
    rw [List.cons_append, List.splitOn_cons_eq_if_modifyHead]
    split
    · exact ⟨l', List.mem_cons_of_mem _ hl', hstrip⟩
    · obtain ⟨first, rest, hparts⟩ :=
        List.exists_cons_of_ne_nil (List.splitOn_ne_nil newline (lead ++ s))
      rw [hparts, List.mem_cons] at hl'
      rw [hparts, List.modifyHead_cons]
      rcases hl' with rfl | hl'
      · have hlead : ∀ d ∈ [c], isSpace d = true := by simpa using h.1
        have hadded : strip (c :: l') = strip l' := strip_append_left hlead l'
        exact ⟨c :: l', List.mem_cons_self .., hadded.trans hstrip⟩
      · exact ⟨l', List.mem_cons_of_mem _ hl', hstrip⟩

/-- White space behind a text adds only white space to its parts. -/
theorem exists_splitOn_of_trail {trail : Str} (h : ∀ c ∈ trail, isSpace c = true) (s : Str) :
    ∀ l ∈ s.splitOn newline, ∃ l' ∈ (s ++ trail).splitOn newline, strip l' = strip l := by
  induction hn : s.length using Nat.strong_induction_on generalizing s with
  | _ n ih =>
    subst hn
    intro l hl
    by_cases hs : newline ∈ s
    · obtain ⟨first, s, rfl, -⟩ := List.eq_append_cons_of_mem hs
      rw [List.append_assoc, List.cons_append, List.splitOn_append_cons_self]
      rw [List.splitOn_append_cons_self] at hl
      rcases List.mem_append.mp hl with hl | hl
      · exact ⟨l, List.mem_append_left _ hl, rfl⟩
      · obtain ⟨l', hl', hstrip⟩ := ih s.length (by simp; omega) s rfl l hl
        exact ⟨l', List.mem_append_right _ hl', hstrip⟩
    · rw [List.splitOn_eq_singleton hs, List.mem_singleton] at hl
      subst hl
      by_cases htrail : newline ∈ trail
      · obtain ⟨spaces, rest, rfl, hspaces⟩ := List.eq_append_cons_of_mem htrail
        rw [List.forall_mem_append] at h
        rw [← List.append_assoc, List.splitOn_append_cons_self_of_not_mem (by simp [hs, hspaces])]
        exact ⟨_, List.mem_cons_self .., strip_append_right h.1 l⟩
      · rw [List.splitOn_eq_singleton (by simp [hs, htrail])]
        exact ⟨_, List.mem_singleton_self _, strip_append_right h l⟩

/-- Each part of a stripped text is, up to white space at its ends, a part of the text. -/
theorem exists_splitOn_of_strip (s : Str) :
    ∀ l ∈ (strip s).splitOn newline, ∃ l' ∈ s.splitOn newline, strip l' = strip l := by
  intro l hl
  obtain ⟨l₁, hl₁, hstrip₁⟩ :=
    exists_splitOn_of_lead (fun _ hc => List.mem_takeWhile_imp hc) (strip s) l hl
  obtain ⟨l₂, hl₂, hstrip₂⟩ :=
    exists_splitOn_of_trail (fun _ hc => List.mem_rtakeWhile_imp hc) _ l₁ hl₁
  rw [strip_split] at hl₂
  exact ⟨l₂, hl₂, hstrip₂.trans hstrip₁⟩

/-- The separator stands between two parts. -/
theorem join_cons_cons (separator part part' : Str) (parts : List Str) :
    join separator (part :: part' :: parts) =
      part ++ separator ++ join separator (part' :: parts) := rfl

/-- Joining lines is intercalating line feeds. -/
theorem join_newline (parts : List Str) : join [newline] parts = [newline].intercalate parts := by
  induction parts with
  | nil => rfl
  | cons part parts ih =>
    cases parts with
    | nil => simp [join]
    | cons part' parts => rw [join_cons_cons, ih, List.intercalate_cons_cons]

/-- Joining the parts between newlines restores the text. -/
theorem join_splitOn (s : Str) : join [newline] (s.splitOn newline) = s := by
  rw [join_newline, List.intercalate_splitOn]

/-- Flat lines are read back from their concatenation. -/
theorem splitLines_join {lines : List Str} (hflat : ∀ l ∈ lines, ∀ c ∈ l, isLineBreak c = false)
    (hne : ∀ l ∈ lines, l ≠ []) : splitLines (join [newline] lines) = lines := by
  induction lines with
  | nil => rfl
  | cons line lines ih =>
    rw [List.forall_mem_cons] at hflat hne
    cases lines with
    | nil => exact splitLines_of_flat hflat.1 hne.1
    | cons line' lines =>
      have hrest := ih hflat.2 hne.2
      rw [splitLines] at hrest ⊢
      rw [join_cons_cons, List.append_assoc, List.singleton_append, linesFrom_append_newline, hrest,
        linesFrom_of_flat_append hflat.1, linesFrom_newline]
      simp [linesFrom]

/-- A text joined from flat parts has no line break but newlines. -/
theorem eq_newline_of_mem_join {parts : List Str}
    (h : ∀ l ∈ parts, ∀ c ∈ l, isLineBreak c = false) :
    ∀ c ∈ join [newline] parts, isLineBreak c = true → c = newline := by
  induction parts with
  | nil => simp [join]
  | cons part parts ih =>
    rw [List.forall_mem_cons] at h
    have hpart : ∀ c ∈ part, isLineBreak c = true → c = newline := fun c hc hbreak =>
      absurd hbreak (by simp [h.1 c hc])
    cases parts with
    | nil => exact hpart
    | cons part' parts =>
      rw [join_cons_cons]
      simp only [List.forall_mem_append, List.forall_mem_singleton, implies_true, and_true]
      exact ⟨hpart, ih h.2⟩

end Newlines

section Dedent

/-- A line as dedenting reads it: without its white space if it has nothing else. -/
def blanked (line : Str) : Str := if line.all isBlank then [] else line

/-- No margin is common with an empty one. -/
theorem foldl_commonPrefix_nil (lines : List Str) :
    lines.foldl (fun margin l => commonPrefix margin (l.takeWhile isBlank)) [] = [] := by
  induction lines with
  | nil => rfl
  | cons line lines ih => exact ih

/-- Behind a first line that is not indented, dedenting only empties the blank lines. -/
theorem dedentLines_of_visible {c : CodePoint} (hc : isBlank c = false) (line : Str)
    (lines : List Str) :
    dedentLines ((c :: line) :: lines) = ((c :: line) :: lines).map blanked := by
  have hfirst : blanked (c :: line) = c :: line := by simp [blanked, hc]
  have hmargin : sharedIndent ((((c :: line) :: lines).map blanked).filter fun l => l ≠ []) =
      some [] := by
    rw [List.map_cons, hfirst, List.filter_cons_of_pos (by simp), sharedIndent,
      List.takeWhile_cons_of_neg (by simp [hc]), foldl_commonPrefix_nil]
  have hdrop : ∀ l : Str, l.drop (if l = [] then 0 else ([] : Str).length) = l := by
    intro l
    simp
  have hdedent : dedentLines ((c :: line) :: lines) =
      (((c :: line) :: lines).map blanked).map fun l => l.drop (if l = [] then 0 else
        ((sharedIndent ((((c :: line) :: lines).map blanked).filter
          fun l => l ≠ [])).getD []).length) := rfl
  rw [hdedent, hmargin]
  simp only [Option.getD_some, hdrop, List.map_id']

/-- Dedenting adds no character to a line. -/
theorem exists_mem_of_mem_dedentLines {lines : List Str} {l : Str} (hl : l ∈ dedentLines lines) :
    ∀ c ∈ l, ∃ line ∈ lines, c ∈ line := by
  intro c hc
  obtain ⟨text, htext, rfl⟩ := List.mem_map.mp hl
  obtain ⟨line, hline, rfl⟩ := List.mem_map.mp htext
  have hmem := List.mem_of_mem_drop hc
  split at hmem
  · cases hmem
  · exact ⟨line, hline, hmem⟩

/-- Emptying a blank line adds nothing. -/
theorem length_blanked_le (line : Str) : (blanked line).length ≤ line.length := by
  unfold blanked
  split
  · simp
  · exact le_rfl

/-- Emptying the blank lines of a text adds nothing. -/
theorem length_join_blanked_le (separator : Str) (lines : List Str) :
    (join separator (lines.map blanked)).length ≤ (join separator lines).length := by
  induction lines with
  | nil => exact Nat.le_refl 0
  | cons line lines ih =>
    have hline := length_blanked_le line
    cases lines with
    | nil => exact hline
    | cons line' lines =>
      rw [List.map_cons, List.map_cons, join_cons_cons, join_cons_cons, ← List.map_cons]
      simp only [List.length_append]
      omega

/-- Emptying a line that has blanks makes the whole shorter. -/
theorem length_join_blanked_lt (separator : Str) {lines : List Str} {line : Str}
    (hline : line ∈ lines) (hblank : line.all isBlank = true) (hne : line ≠ []) :
    (join separator (lines.map blanked)).length < (join separator lines).length := by
  have hshort : (blanked line).length < line.length := by
    simp [blanked, hblank, List.length_pos_of_ne_nil hne]
  induction lines with
  | nil => cases hline
  | cons first lines ih =>
    have hfirst := length_blanked_le first
    cases lines with
    | nil =>
      rw [List.mem_singleton] at hline
      subst hline
      exact hshort
    | cons line' lines =>
      rw [List.map_cons, List.map_cons, join_cons_cons, join_cons_cons, ← List.map_cons]
      simp only [List.length_append]
      rcases List.mem_cons.mp hline with rfl | hrest
      · have hle := length_join_blanked_le separator (line' :: lines)
        omega
      · have hlt := ih hrest
        omega

end Dedent

end CognitiveTree.Str
