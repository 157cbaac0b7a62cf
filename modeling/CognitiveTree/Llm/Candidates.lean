import CognitiveTree.Core.Scanning
import CognitiveTree.Core.Splitting

/-!
# Candidates inside completions

A completion is split at its marker lines, or else at its numbered lines, or else taken whole. No
match of the marker begins in a candidate that has none of its own, whatever follows the candidate.
-/

namespace CognitiveTree.Llm

open Str

/-- A character of the pattern against one of the text, in any case. -/
def sameLetter (letter c : CodePoint) : Bool :=
  lowerChar c = letter || letter.val = 105 && (c.val = 0x130 || c.val = 0x131)

/-- What is left of a text that begins with the word, in any case. -/
def afterWord : Str → Str → Option Str
  | [], s => some s
  | _ :: _, [] => none
  | letter :: word, c :: s => if sameLetter letter c then afterWord word s else none

section Patterns

-- `str.isalnum` of a character beyond ASCII
variable (alnum : CodePoint → Bool)

/-- The characters `\w` matches. -/
def isWord (c : CodePoint) : Bool :=
  if c.val < 128 then
    (48 ≤ c.val && c.val ≤ 57) || (65 ≤ c.val && c.val ≤ 90) || (97 ≤ c.val && c.val ≤ 122) ||
      c.val == 95
  else alnum c

/-- What `###\s*candidate\b.*$` leaves of a text: the line it ends in keeps its newline. -/
def afterMarker (s : Str) : Option Str :=
  if (lit "###").isPrefixOf s then
    match afterWord (lit "candidate") (lstrip (s.drop 3)) with
    | some rest =>
      if rest.head?.all fun c => !isWord alnum c then some (rest.dropWhile (· ≠ newline)) else none
    | none => none
  else none

/-- The characters `\d` matches. -/
def isDecimal (c : CodePoint) : Bool := (digitValue c).isSome

/-- A point or a closing parenthesis. -/
def isDelimiter (c : CodePoint) : Bool := c.val == 46 || c.val == 41

/-- A number, its delimiter and a white space at the beginning of a text. -/
def isNumbered (s : Str) : Bool :=
  let behind := s.dropWhile isDecimal
  s.head?.any isDecimal && behind.head?.any isDelimiter && behind.tail.head?.any isSpace

/-- What `\s*\d+[.)]\s+` leaves of a text. -/
def afterNumber (s : Str) : Option Str :=
  if isNumbered (lstrip s) then some (lstrip ((lstrip s).dropWhile isDecimal).tail) else none

/-- What a word matches is as long as the word. -/
theorem afterWord_append {word s rest : Str} (h : afterWord word s = some rest) :
    ∃ m, m.length = word.length ∧ s = m ++ rest := by
  induction word generalizing s with
  | nil =>
    cases h
    exact ⟨[], rfl, rfl⟩
  | cons letter word ih =>
    cases s with
    | nil => cases h
    | cons c s =>
      rw [afterWord] at h
      split at h
      · obtain ⟨m, hm, rfl⟩ := ih h
        exact ⟨c :: m, by simp [hm], rfl⟩
      · cases h

/-- A marker matches something. -/
theorem afterMarker_append (s r : Str) (h : afterMarker alnum s = some r) :
    ∃ m, m ≠ [] ∧ s = m ++ r := by
  unfold afterMarker at h
  split at h
  · split at h
    · rename_i rest hword
      split at h
      · cases h
        obtain ⟨m, hm, hrest⟩ := afterWord_append hword
        refine ⟨s.take 3 ++ (s.drop 3).takeWhile isSpace ++ m ++
          rest.takeWhile (· ≠ newline), ?_, ?_⟩
        · have hne : m ≠ [] := by
            rintro rfl
            cases hm
          simp [hne]
        · rw [List.append_assoc, List.takeWhile_append_dropWhile, List.append_assoc, ← hrest,
            lstrip, List.append_assoc, List.takeWhile_append_dropWhile, List.take_append_drop]
      · cases h
    · cases h
  · cases h

/-- A number matches something. -/
theorem afterNumber_append (s r : Str) (h : afterNumber s = some r) :
    ∃ m, m ≠ [] ∧ s = m ++ r := by
  unfold afterNumber at h
  split at h
  · rename_i hnumbered
    cases h
    obtain ⟨c, t, ht⟩ : ∃ c t, (lstrip s).dropWhile isDecimal = c :: t := by
      cases hbehind : (lstrip s).dropWhile isDecimal with
      | nil => simp [isNumbered, hbehind] at hnumbered
      | cons c t => exact ⟨c, t, rfl⟩
    refine ⟨s.takeWhile isSpace ++ (lstrip s).takeWhile isDecimal ++ c :: t.takeWhile isSpace,
      by simp, ?_⟩
    have hbehind : t.takeWhile isSpace ++ lstrip t = t := List.takeWhile_append_dropWhile
    have hnumber : (lstrip s).takeWhile isDecimal ++ c :: t = lstrip s := by
      rw [← ht, List.takeWhile_append_dropWhile]
    rw [ht, List.tail_cons, List.append_assoc, List.cons_append, hbehind, List.append_assoc,
      hnumber, lstrip, List.takeWhile_append_dropWhile]
  · cases h

/-- `_MARKER_LINE`. -/
def markerLine : Pattern CodePoint :=
  Pattern.anchored (· = newline) (afterMarker alnum) (afterMarker_append alnum)

/-- `_NUMBERED_LINE`. -/
def numberedLine : Pattern CodePoint :=
  Pattern.anchored (· = newline) afterNumber afterNumber_append

/-- `_cleaned(parts)`. -/
def cleaned (parts : List Str) : List Str := (parts.map strip).filter fun part => part ≠ []

/-- The loop of `_split_numbered` over the matches. -/
def numberedBlocks (text : Str) : List Match → List Str
  | [] => []
  | [m] => [slice text m.stop text.length]
  | m :: next :: ms => slice text m.stop next.start :: numberedBlocks text (next :: ms)

/-- `_split_numbered(text)`. -/
def splitNumbered (text : Str) : List Str :=
  let found := numberedLine.finditer text
  if found.length < 2 then [] else cleaned (numberedBlocks text found)

/-- `split_candidates(text)`. -/
def splitCandidates (text : Str) : List Str :=
  if (markerLine alnum).search text then cleaned ((markerLine alnum).split text)
  else if splitNumbered text ≠ [] then splitNumbered text
  else if strip text ≠ [] then [strip text] else []

end Patterns

/-- Cleaning strips parts none of which is blank. -/
theorem cleaned_of_visible {parts bodies : List Str} (h : parts.map strip = bodies.map strip)
    (hvisible : ∀ body ∈ bodies, strip body ≠ []) : cleaned parts = bodies.map strip := by
  rw [cleaned, h, List.filter_eq_self]
  simpa using hvisible

section Markers

variable (alnum : CodePoint → Bool)

/-- A word without a newline ends in front of the newline. -/
theorem afterWord_newline {word s t rest : Str}
    (hword : word.all (fun l => !sameLetter l newline) = true)
    (h : afterWord word (s ++ newline :: t) = some rest) :
    ∃ left, afterWord word s = some left ∧ rest = left ++ newline :: t := by
  induction word generalizing s with
  | nil =>
    cases h
    exact ⟨s, rfl, rfl⟩
  | cons letter word ih =>
    rw [List.all_cons, Bool.and_eq_true, Bool.not_eq_true'] at hword
    cases s with
    | nil =>
      rw [List.nil_append, afterWord, hword.1] at h
      cases h
    | cons c s =>
      rw [List.cons_append, afterWord] at h
      rw [afterWord]
      split at h
      · rename_i hc
        rw [if_pos hc]
        exact ih hword.2 h
      · cases h

/-- A word without a line feed does not reach past the end of its line. -/
theorem prefix_of_append_newline {word s t : Str} (hword : newline ∉ word)
    (h : word <+: s ++ newline :: t) : word <+: s := by
  have hline : s ++ [newline] <+: s ++ newline :: t := ⟨t, by simp⟩
  rcases List.prefix_or_prefix_of_prefix h hline with h | h
  · rcases List.prefix_concat_iff.mp h with rfl | h
    · exact absurd (by simp) hword
    · exact h
  · exact absurd (h.subset (by simp)) hword

/-- A line feed is no marker. -/
theorem afterMarker_newline (t : Str) : afterMarker alnum (newline :: t) = none := rfl

/-- A text has no match at its beginning if it has none without what follows its line. -/
theorem afterMarker_append_newline {s t : Str} (hs : afterMarker alnum s = none)
    (ht : afterWord (lit "candidate") (lstrip t) = none) :
    afterMarker alnum (s ++ newline :: t) = none := by
  by_contra hsome
  unfold afterMarker at hsome hs
  split at hsome
  · rename_i hhashes
    have hpre := prefix_of_append_newline (by decide) (List.isPrefixOf_iff_prefix.mp hhashes)
    obtain ⟨s, rfl⟩ := hpre
    have hdrop : ∀ x : Str, (lit "###" ++ x).drop 3 = x := fun x => rfl
    rw [List.append_assoc, hdrop] at hsome
    rw [if_pos (List.isPrefixOf_iff_prefix.mpr (List.prefix_append _ _)), hdrop] at hs
    by_cases hblank : strip s = []
    · rw [lstrip_append_of_blank hblank, lstrip, List.dropWhile_cons_of_pos (by decide)] at hsome
      change afterWord (lit "candidate") (List.dropWhile isSpace t) = none at ht
      rw [ht] at hsome
      exact hsome rfl
    · rw [lstrip_append hblank] at hsome
      cases hword : afterWord (lit "candidate") (lstrip s ++ newline :: t) with
      | none =>
        rw [hword] at hsome
        exact hsome rfl
      | some rest =>
        obtain ⟨left, hleft, rfl⟩ := afterWord_newline (by decide) hword
        rw [hword] at hsome
        rw [hleft] at hs
        cases left with
        | nil => simp at hs
        | cons c left =>
          dsimp only at hs hsome
          rw [List.cons_append, List.head?_cons] at hsome
          rw [List.head?_cons] at hs
          split at hs
          · cases hs
          · rename_i hinside
            rw [if_neg hinside] at hsome
            exact hsome rfl
  · exact hsome rfl

/-- The line in front of a candidate. -/
def candidateMarker : Str := lit "### CANDIDATE"

/-- The marker matches up to its line end. -/
theorem afterMarker_candidateMarker (t : Str) :
    afterMarker alnum (candidateMarker ++ newline :: t) = some (newline :: t) := rfl

/-- A marker line ends an empty part. -/
theorem parts_candidateMarker (t : Str) :
    (markerLine alnum).parts true 0 (candidateMarker ++ newline :: t) =
      [] :: (markerLine alnum).parts false 0 (newline :: t) :=
  Pattern.parts_anchored _ _ _ (afterMarker_candidateMarker alnum t)

/-- No match begins in a candidate that has none, whatever line follows it. -/
theorem clear_candidate {c t : Str} (hc : (markerLine alnum).search c = false)
    (ht : afterWord (lit "candidate") (lstrip t) = none) :
    (markerLine alnum).Clear true (c ++ [newline]) t := by
  intro before behind hsplit hne
  obtain ⟨line, last, rfl⟩ : ∃ line last, behind = line ++ [last] :=
    ⟨_, _, (List.dropLast_append_getLast hne).symm⟩
  rw [← List.append_assoc] at hsplit
  obtain ⟨rfl, hlast⟩ := List.append_inj' hsplit rfl
  obtain rfl : newline = last := by simpa using hlast
  rw [List.append_assoc, List.singleton_append]
  by_cases hline : line = []
  · subst hline
    cases (markerLine alnum).startAfter true before with
    | false => rfl
    | true => exact (Pattern.anchored_eq_none_iff _ _ _).mpr (afterMarker_newline alnum t)
  · have hclear := (markerLine alnum).clear_of_search hc before line rfl hline
    rw [List.append_nil] at hclear
    cases hstart : (markerLine alnum).startAfter true before with
    | false => rfl
    | true =>
      rw [hstart] at hclear
      have hnone := (Pattern.anchored_eq_none_iff _ _ _).mp hclear
      exact (Pattern.anchored_eq_none_iff _ _ _).mpr (afterMarker_append_newline alnum hnone ht)

/-- A candidate and its line end go to the part in front of what follows. -/
theorem parts_candidate {c t : Str} (hc : (markerLine alnum).search c = false)
    (ht : afterWord (lit "candidate") (lstrip t) = none) :
    (markerLine alnum).parts true 0 (c ++ newline :: t) =
      ((markerLine alnum).parts true 0 t).modifyHead (c ++ [newline] ++ ·) := by
  have hstart : (markerLine alnum).startAfter true (c ++ [newline]) = true := by
    rw [Pattern.startAfter_append]
    rfl
  have hparts := (markerLine alnum).parts_append_of_clear (clear_candidate alnum hc ht)
  rwa [hstart, List.append_assoc, List.singleton_append] at hparts

/-- The rest of a marker line goes to the part behind it. -/
theorem parts_newline (t : Str) : (markerLine alnum).parts false 0 (newline :: t) =
    ((markerLine alnum).parts true 0 t).modifyHead (newline :: ·) := by
  have hinside : (markerLine alnum).matchAt false (newline :: t) = none := rfl
  exact (markerLine alnum).parts_cons hinside

/-- A line feed in front is stripped. -/
theorem strip_newline_cons (s : Str) : strip (newline :: s) = strip s :=
  strip_append_left (List.forall_mem_singleton.mpr rfl) s

/-- A line feed at the end is stripped. -/
theorem strip_concat_newline (s : Str) : strip (s ++ [newline]) = strip s :=
  strip_append_right (List.forall_mem_singleton.mpr rfl) s

/-- A completion with a marker line in front of every candidate. -/
def marked (cs : List Str) : Str := cs.flatMap fun c => lit "### CANDIDATE\n" ++ c ++ lit "\n"

/-- The first candidate stands behind its marker. -/
theorem marked_cons (c : Str) (cs : List Str) :
    marked (c :: cs) = candidateMarker ++ newline :: (c ++ newline :: marked cs) := by
  have hmarker : lit "### CANDIDATE\n" = candidateMarker ++ [newline] := rfl
  have hline : lit "\n" = [newline] := rfl
  rw [marked, List.flatMap_cons, hmarker, hline]
  simp [marked, hmarker, hline]

/-- A marked text is split at its markers. -/
theorem parts_marked {cs : List Str} (h : ∀ c ∈ cs, (markerLine alnum).search c = false) :
    ∃ parts, (markerLine alnum).parts true 0 (marked cs) = [] :: parts ∧
      parts.map strip = cs.map strip := by
  induction cs with
  | nil => exact ⟨[], rfl, rfl⟩
  | cons c cs ih =>
    rw [List.forall_mem_cons] at h
    obtain ⟨parts, hparts, hstrip⟩ := ih h.2
    have hnext : afterWord (lit "candidate") (lstrip (marked cs)) = none := by
      cases cs with
      | nil => rfl
      | cons c' cs =>
        rw [marked_cons]
        rfl
    refine ⟨(newline :: (c ++ [newline])) :: parts, ?_, ?_⟩
    · rw [marked_cons, parts_candidateMarker, parts_newline, parts_candidate alnum h.1 hnext,
        hparts]
      simp
    · rw [List.map_cons, List.map_cons, strip_newline_cons, strip_concat_newline, hstrip]

/-- The line between two candidates. -/
def separator : Str := lit "\n### CANDIDATE\n"

/-- The parts of candidates that marker lines separate, with or without a line end behind them. -/
theorem parts_separated {cs : List Str} (h : ∀ c ∈ cs, (markerLine alnum).search c = false)
    (hne : cs ≠ []) {final : Str} (hfinal : final = [] ∨ final = [newline]) :
    ((markerLine alnum).parts true 0 (join separator cs ++ final)).map strip = cs.map strip := by
  induction cs with
  | nil => exact absurd rfl hne
  | cons c cs ih =>
    rw [List.forall_mem_cons] at h
    cases cs with
    | nil =>
      rcases hfinal with rfl | rfl
      · rw [join, (markerLine alnum).parts_append_of_clear ((markerLine alnum).clear_of_search h.1)]
        simp [Pattern.parts]
      · rw [join, parts_candidate alnum h.1 rfl]
        simp [Pattern.parts, strip_concat_newline]
    | cons c' cs =>
      have htext : join separator (c :: c' :: cs) ++ final =
          c ++ newline :: (candidateMarker ++ newline :: (join separator (c' :: cs) ++ final)) := by
        have hline : separator = newline :: (candidateMarker ++ [newline]) := rfl
        rw [join_cons_cons, hline]
        simp
      obtain ⟨first, rest, hparts⟩ := List.exists_cons_of_ne_nil
        ((markerLine alnum).parts_ne_nil true 0 (join separator (c' :: cs) ++ final))
      have hstrip := ih h.2 (by simp)
      rw [hparts, List.map_cons] at hstrip
      rw [htext, parts_candidate alnum h.1 rfl, parts_candidateMarker, parts_newline, hparts,
        List.map_cons, ← hstrip]
      simp only [List.modifyHead_cons, List.append_nil, List.map_cons, strip_newline_cons,
        strip_concat_newline]

/-- A completion that has a marker line in front of every candidate is split into the candidates,
and so is one whose marker lines only separate them. -/
theorem splitCandidates_round_trip (cs : List Str)
    (hcs : ∀ c ∈ cs, strip c ≠ [] ∧ (markerLine alnum).search c = false) :
    (cs ≠ [] → splitCandidates alnum (marked cs) = cs.map strip) ∧
      (2 ≤ cs.length → splitCandidates alnum (join separator cs) = cs.map strip ∧
        splitCandidates alnum (join separator cs ++ [newline]) = cs.map strip) := by
  have hvisible : ∀ c ∈ cs, strip c ≠ [] := fun c hc => (hcs c hc).1
  have hsearch : ∀ c ∈ cs, (markerLine alnum).search c = false := fun c hc => (hcs c hc).2
  have hseparated : ∀ final, final = [] ∨ final = [newline] → 2 ≤ cs.length →
      splitCandidates alnum (join separator cs ++ final) = cs.map strip := by
    intro final hfinal hlen
    have hne : cs ≠ [] := List.ne_nil_of_length_pos (by omega)
    have hparts := parts_separated alnum hsearch hne hfinal
    have hcount := congrArg List.length hparts
    rw [List.length_map, List.length_map] at hcount
    have hfound : (markerLine alnum).search (join separator cs ++ final) = true := by
      rw [Pattern.search_iff]
      omega
    rw [splitCandidates, if_pos hfound, Pattern.split_eq]
    exact cleaned_of_visible hparts hvisible
  refine ⟨fun hne => ?_, fun hlen => ⟨?_, hseparated [newline] (.inr rfl) hlen⟩⟩
  · obtain ⟨parts, hparts, hstrip⟩ := parts_marked alnum hsearch
    have hcount := congrArg List.length hstrip
    rw [List.length_map, List.length_map] at hcount
    have hlong := List.length_pos_of_ne_nil hne
    have hfound : (markerLine alnum).search (marked cs) = true := by
      rw [Pattern.search_iff, hparts, List.length_cons]
      omega
    have hempty : cleaned ([] :: parts) = cleaned parts := rfl
    rw [splitCandidates, if_pos hfound, Pattern.split_eq, hparts, hempty]
    exact cleaned_of_visible hstrip hvisible
  · have hplain := hseparated [] (.inl rfl) hlen
    rwa [List.append_nil] at hplain

end Markers

/-- A list with a heading of its own and a candidate with numbered lines. -/
theorem splitCandidates_round_trip_small :
    splitCandidates (fun _ => false) (marked [lit "###\n1. Sort.\n2. Scan.", lit " Scan.\n\n"]) =
        [lit "###\n1. Sort.\n2. Scan.", lit "Scan."] ∧
      splitCandidates (fun _ => false)
          (join separator [lit "###\n1. Sort.\n2. Scan.", lit " Scan.\n\n"]) =
        [lit "###\n1. Sort.\n2. Scan.", lit "Scan."] := by
  have hround := splitCandidates_round_trip (fun _ => false)
    [lit "###\n1. Sort.\n2. Scan.", lit " Scan.\n\n"] (by decide +kernel)
  have hstrip : [lit "###\n1. Sort.\n2. Scan.", lit " Scan.\n\n"].map strip =
      [lit "###\n1. Sort.\n2. Scan.", lit "Scan."] := by decide +kernel
  rw [hstrip] at hround
  exact ⟨hround.1 (by simp), (hround.2 (by simp)).1⟩

end CognitiveTree.Llm
