import Mathlib.Data.List.Basic

/-!
# Scanning for matches

A pattern is tried from left to right at every position, and behind a match the search goes on at
its end. The parts between the matches are those that slicing at their positions gives.
-/

namespace CognitiveTree

/-- A pattern whose matches are not empty, tried with the knowledge whether a line starts there. -/
structure Pattern (α : Type) where
  /-- The characters behind which a line starts. -/
  breaks : α → Bool
  /-- The length of the match at a position. -/
  matchAt : Bool → List α → Option Nat
  positive : ∀ start s n, matchAt start s = some n → 0 < n
  bounded : ∀ start s n, matchAt start s = some n → n ≤ s.length

/-- The positions of a match. -/
structure Match where
  start : Nat
  stop : Nat

/-- `text[start:stop]`. -/
def slice {α : Type} (text : List α) (start stop : Nat) : List α := (text.take stop).drop start

namespace Pattern

variable {α : Type} (p : Pattern α)

/-- The matches from a position on, the next `skip` characters belonging to one already found. -/
def matchesFrom (start : Bool) (pos skip : Nat) : List α → List Match
  | [] => []
  | c :: s => match skip with
    | skip + 1 => matchesFrom (p.breaks c) (pos + 1) skip s
    | 0 => match p.matchAt start (c :: s) with
      | some n => ⟨pos, pos + n⟩ :: matchesFrom (p.breaks c) (pos + 1) (n - 1) s
      | none => matchesFrom (p.breaks c) (pos + 1) 0 s

/-- `pattern.finditer(text)`. -/
def finditer (text : List α) : List Match := p.matchesFrom true 0 0 text

/-- `pattern.search(text) is not None`. -/
def search (text : List α) : Bool := !(p.finditer text).isEmpty

/-- The parts of the text between these matches, from the end of the last one on. -/
def between (text : List α) (last : Nat) : List Match → List (List α)
  | [] => [slice text last text.length]
  | m :: ms => slice text last m.start :: between text m.stop ms

/-- `pattern.split(text)`. -/
def split (text : List α) : List (List α) := between text 0 (p.finditer text)

/-- The parts between the matches, read along the text. -/
def parts (start : Bool) : Nat → List α → List (List α)
  | _, [] => [[]]
  | skip + 1, c :: s => parts (p.breaks c) skip s
  | 0, c :: s => match p.matchAt start (c :: s) with
    | some n => [] :: parts (p.breaks c) (n - 1) s
    | none => (parts (p.breaks c) 0 s).modifyHead (c :: ·)

/-- Whether a line starts behind this text. -/
def startAfter (start : Bool) (s : List α) : Bool := s.foldl (fun _ c => p.breaks c) start

/-- Behind nothing a match may start where it could. -/
@[simp] theorem startAfter_nil (start : Bool) : p.startAfter start [] = start := rfl

/-- The first character decides whether a match may start behind it. -/
@[simp] theorem startAfter_cons (start : Bool) (c : α) (s : List α) :
    p.startAfter start (c :: s) = p.startAfter (p.breaks c) s := rfl

/-- Behind two texts a match may start where it may behind the second. -/
@[simp] theorem startAfter_append (start : Bool) (s t : List α) :
    p.startAfter start (s ++ t) = p.startAfter (p.startAfter start s) t :=
  List.foldl_append

/-- There is always one part at least. -/
theorem parts_ne_nil (start : Bool) (skip : Nat) (s : List α) : p.parts start skip s ≠ [] := by
  induction s generalizing start skip with
  | nil => simp [parts]
  | cons c s ih =>
    cases skip with
    | succ skip => exact ih _ _
    | zero =>
      rw [parts]
      split
      · simp
      · obtain ⟨first, rest, hparts⟩ := List.exists_cons_of_ne_nil (ih (p.breaks c) 0)
        simp [hparts]

/-- The characters of a match are passed over. -/
theorem parts_skip {skip : Nat} {s : List α} (h : skip ≤ s.length) (start : Bool) :
    p.parts start skip s = p.parts (p.startAfter start (s.take skip)) 0 (s.drop skip) := by
  induction skip generalizing start s with
  | zero => simp
  | succ skip ih =>
    cases s with
    | nil => simp at h
    | cons c s =>
      rw [List.length_cons] at h
      exact ih (by omega) (p.breaks c)

/-- A match ends the part in front of it. -/
theorem parts_match {start : Bool} {s : List α} {n : Nat} (h : p.matchAt start s = some n) :
    p.parts start 0 s = [] :: p.parts (p.startAfter start (s.take n)) 0 (s.drop n) := by
  have hpos := p.positive _ _ _ h
  have hle := p.bounded _ _ _ h
  obtain ⟨n, rfl⟩ : ∃ m, n = m + 1 := ⟨n - 1, by omega⟩
  cases s with
  | nil => simp at hle
  | cons c s =>
    rw [List.length_cons] at hle
    rw [parts, h]
    change [] :: p.parts (p.breaks c) n s = _
    rw [p.parts_skip (by omega)]
    rfl

/-- Without a match the character belongs to the part. -/
theorem parts_cons {start : Bool} {c : α} {s : List α} (h : p.matchAt start (c :: s) = none) :
    p.parts start 0 (c :: s) = (p.parts (p.breaks c) 0 s).modifyHead (c :: ·) := by
  rw [parts, h]

/-- No match starts within a text that is followed by another one. -/
def Clear (start : Bool) (s rest : List α) : Prop :=
  ∀ before behind, s = before ++ behind → behind ≠ [] →
    p.matchAt (p.startAfter start before) (behind ++ rest) = none

/-- Nothing matches inside an empty text. -/
theorem clear_nil (start : Bool) (rest : List α) : p.Clear start [] rest := by
  intro before behind h hne
  exact absurd (List.append_eq_nil_iff.mp h.symm).2 hne

/-- A text is clear when nothing matches at its first character or later. -/
theorem clear_cons {start : Bool} {c : α} {s rest : List α} :
    p.Clear start (c :: s) rest ↔
      p.matchAt start (c :: (s ++ rest)) = none ∧ p.Clear (p.breaks c) s rest := by
  constructor
  · intro h
    refine ⟨h [] (c :: s) rfl (by simp), fun before behind hs hne => ?_⟩
    exact h (c :: before) behind (by rw [hs]; rfl) hne
  · rintro ⟨hfirst, hrest⟩ before behind hs hne
    cases before with
    | nil =>
      rw [List.nil_append] at hs
      rw [← hs]
      exact hfirst
    | cons d before =>
      rw [List.cons_append, List.cons.injEq] at hs
      obtain ⟨rfl, hsplit⟩ := hs
      exact hrest before behind hsplit hne

/-- A text in which no match starts belongs to the part in front of what follows. -/
theorem parts_append_of_clear {start : Bool} {s rest : List α} (h : p.Clear start s rest) :
    p.parts start 0 (s ++ rest) =
      (p.parts (p.startAfter start s) 0 rest).modifyHead (s ++ ·) := by
  induction s generalizing start with
  | nil =>
    obtain ⟨first, others, hparts⟩ := List.exists_cons_of_ne_nil (p.parts_ne_nil start 0 rest)
    simp [hparts]
  | cons c s ih =>
    obtain ⟨hfirst, hrest⟩ := p.clear_cons.mp h
    rw [List.cons_append, p.parts_cons hfirst, ih hrest, startAfter_cons]
    obtain ⟨first, others, hparts⟩ :=
      List.exists_cons_of_ne_nil (p.parts_ne_nil (p.startAfter (p.breaks c) s) 0 rest)
    simp [hparts]

/-- There is one part more than there are matches. -/
theorem length_parts (start : Bool) (pos skip : Nat) (s : List α) :
    (p.parts start skip s).length = (p.matchesFrom start pos skip s).length + 1 := by
  induction s generalizing start pos skip with
  | nil => simp [parts, matchesFrom]
  | cons c s ih =>
    cases skip with
    | succ skip => exact ih _ _ _
    | zero =>
      rw [parts, matchesFrom]
      cases p.matchAt start (c :: s) with
      | none => simpa using ih (p.breaks c) (pos + 1) 0
      | some n => simpa using ih (p.breaks c) (pos + 1) (n - 1)

/-- No match starts before the position that is looked at. -/
theorem le_start_of_mem (start : Bool) (pos skip : Nat) (s : List α) :
    ∀ m ∈ p.matchesFrom start pos skip s, pos ≤ m.start := by
  induction s generalizing start pos skip with
  | nil => simp [matchesFrom]
  | cons c s ih =>
    have hnext : ∀ (start : Bool) (skip : Nat),
        ∀ m ∈ p.matchesFrom start (pos + 1) skip s, pos ≤ m.start :=
      fun _ _ m hm => Nat.le_of_succ_le (ih _ _ _ m hm)
    cases skip with
    | succ skip => exact hnext _ _
    | zero =>
      rw [matchesFrom]
      cases p.matchAt start (c :: s) with
      | none => exact hnext _ _
      | some n =>
        rw [List.forall_mem_cons]
        exact ⟨Nat.le_refl pos, hnext _ _⟩

/-- A slice begins with the character at its start. -/
theorem slice_cons {text s : List α} {c : α} {pos stop : Nat} (h : text.drop pos = c :: s)
    (hstop : pos < stop) : slice text pos stop = c :: slice text (pos + 1) stop := by
  unfold slice
  rw [List.drop_take, List.drop_take, h, ← List.drop_drop, h]
  obtain ⟨k, hk⟩ : ∃ k, stop - pos = k + 1 := ⟨stop - pos - 1, by omega⟩
  rw [hk, show stop - (pos + 1) = k by omega]
  rfl

/-- The parts along the text are those that its slices at the matches give. -/
theorem between_matchesFrom {text : List α} {start : Bool} {pos skip : Nat} {s : List α}
    (htext : text.drop pos = s) (hskip : skip ≤ s.length) :
    between text (pos + skip) (p.matchesFrom start pos skip s) = p.parts start skip s := by
  induction s generalizing start pos skip with
  | nil =>
    obtain rfl : skip = 0 := by simpa using hskip
    have hlast : slice text pos text.length = [] := by rw [slice, List.take_length, htext]
    simp [matchesFrom, between, parts, hlast]
  | cons c s ih =>
    have hnext : text.drop (pos + 1) = s := by rw [← List.drop_drop, htext]; rfl
    rw [List.length_cons] at hskip
    cases skip with
    | succ skip =>
      have hshift := @ih (p.breaks c) (pos + 1) skip hnext (by omega)
      rwa [show pos + 1 + skip = pos + (skip + 1) by omega] at hshift
    | zero =>
      rw [parts, matchesFrom]
      cases hmatch : p.matchAt start (c :: s) with
      | some n =>
        have hpos := p.positive _ _ _ hmatch
        have hle := p.bounded _ _ _ hmatch
        rw [List.length_cons] at hle
        have hempty : slice text (pos + 0) pos = [] := by simp [slice]
        change slice text (pos + 0) pos :: _ = [] :: _
        have hshift := @ih (p.breaks c) (pos + 1) (n - 1) hnext (by omega)
        rw [show pos + 1 + (n - 1) = pos + n by omega] at hshift
        rw [hempty, ← hshift]
      | none =>
        change between text pos (p.matchesFrom (p.breaks c) (pos + 1) 0 s) =
          (p.parts (p.breaks c) 0 s).modifyHead (c :: ·)
        rw [← ih hnext (Nat.zero_le _)]
        have hstarts := p.le_start_of_mem (p.breaks c) (pos + 1) 0 s
        cases hms : p.matchesFrom (p.breaks c) (pos + 1) 0 s with
        | nil =>
          have hlong : pos < text.length := by
            have hlen := congrArg List.length htext
            rw [List.length_drop, List.length_cons] at hlen
            omega
          simp [between, slice_cons htext hlong]
        | cons m ms =>
          rw [hms, List.forall_mem_cons] at hstarts
          have hlt : pos < m.start := by omega
          simp [between, slice_cons htext hlt]

/-- A text is split into its parts. -/
theorem split_eq (text : List α) : p.split text = p.parts true 0 text :=
  p.between_matchesFrom rfl (Nat.zero_le _)

/-- The pattern is found when the text has two parts at least. -/
theorem search_iff (text : List α) : p.search text = true ↔ 2 ≤ (p.parts true 0 text).length := by
  rw [p.length_parts true 0 0 text]
  change (!(p.finditer text).isEmpty) = true ↔ 2 ≤ (p.finditer text).length + 1
  cases p.finditer text <;> simp

/-- A text without a match is clear. -/
theorem clear_of_search {text : List α} (h : p.search text = false) : p.Clear true text [] := by
  have hmatches : ∀ (s : List α) (start : Bool) (pos : Nat), p.matchesFrom start pos 0 s = [] →
      p.Clear start s [] := by
    intro s
    induction s with
    | nil => exact fun start _ _ => p.clear_nil start []
    | cons c s ih =>
      intro start pos hnone
      rw [matchesFrom] at hnone
      cases hmatch : p.matchAt start (c :: s) with
      | some n =>
        rw [hmatch] at hnone
        cases hnone
      | none =>
        rw [hmatch] at hnone
        rw [clear_cons, List.append_nil]
        exact ⟨hmatch, ih _ _ hnone⟩
  apply hmatches text true 0
  unfold search finditer at h
  simpa using h

section Anchored

variable (breaks : α → Bool) (rest : List α → Option (List α))
  (consumes : ∀ s r, rest s = some r → ∃ m, m ≠ [] ∧ s = m ++ r)

/-- A pattern that begins where a line starts, given by what it leaves of a text. -/
def anchored : Pattern α where
  breaks := breaks
  matchAt start s := if start then (rest s).map fun r => s.length - r.length else none
  positive start s n h := by
    cases start with
    | false => cases h
    | true =>
      obtain ⟨r, hr, rfl⟩ := Option.map_eq_some_iff.mp h
      obtain ⟨m, hm, rfl⟩ := consumes s r hr
      have hlen := List.length_pos_of_ne_nil hm
      rw [List.length_append]
      omega
  bounded start s n h := by
    cases start with
    | false => cases h
    | true =>
      obtain ⟨r, -, rfl⟩ := Option.map_eq_some_iff.mp h
      exact Nat.sub_le _ _

/-- A pattern at the start of a line matches where its test succeeds. -/
theorem anchored_eq_none_iff {s : List α} :
    (anchored breaks rest consumes).matchAt true s = none ↔ rest s = none := by
  change (rest s).map _ = none ↔ _
  exact Option.map_eq_none_iff

/-- A match at the start of a line ends an empty part. -/
theorem parts_anchored {m r : List α} (h : rest (m ++ r) = some r) :
    (anchored breaks rest consumes).parts true 0 (m ++ r) =
      [] :: (anchored breaks rest consumes).parts
        ((anchored breaks rest consumes).startAfter true m) 0 r := by
  have hmatch : (anchored breaks rest consumes).matchAt true (m ++ r) = some m.length := by
    change (rest (m ++ r)).map _ = _
    rw [h]
    simp
  rw [parts_match _ hmatch, List.take_left, List.drop_left]

end Anchored

end Pattern

end CognitiveTree
