import CognitiveTree.Llm.Candidates

/-!
# Numbered completions

A completion without marker lines is split at its numbered lines. Besides the items at column zero
these are the numbered lines inside of a body, indented or not. The bodies come back exactly when
there are none: a match inside a body takes visible characters that no part gets back.
-/

namespace CognitiveTree.Llm

open Str

/-- The space. -/
def space : CodePoint := 32

/-- An item at column zero: its number, a point or a parenthesis, a space and a body. -/
structure NumberedItem where
  digits : Str
  delimiter : CodePoint
  body : Str
  number : digits ≠ [] ∧ ∀ c ∈ digits, isDecimal c = true
  delimits : isDelimiter delimiter = true
  visible : strip body ≠ []

/-- The item as it stands in the completion. -/
def NumberedItem.text (i : NumberedItem) : Str := i.digits ++ i.delimiter :: space :: i.body

/-- A completion made of numbered items. -/
def numberedText (items : List NumberedItem) : Str :=
  join (lit "\n") (items.map NumberedItem.text)

/-- The line end in front of these items. -/
def lineEnd : List NumberedItem → Str
  | [] => []
  | _ :: _ => [newline]

/-- A numbered line inside a body: a line behind the first visible character, or the first visible
line itself at column zero, at which the pattern matches with a number of the body. -/
def Nested (body behind : Str) : Prop :=
  ∃ before after, body = before ++ newline :: after ∧
    (strip before ≠ [] ∨ after.head?.any isSpace = false) ∧
    isNumbered (lstrip (after ++ behind)) = true

/-- The text of the items behind a body. -/
def following (items : List NumberedItem) : Str := items.flatMap fun i => newline :: i.text

/-- Each further item follows on a line of its own. -/
theorem following_cons (i : NumberedItem) (items : List NumberedItem) :
    following (i :: items) = newline :: (i.text ++ following items) := rfl

/-- The first item begins the text. -/
theorem numberedText_cons (i : NumberedItem) (items : List NumberedItem) :
    numberedText (i :: items) = i.text ++ following items := by
  have hline : lit "\n" = [newline] := rfl
  rw [numberedText, hline]
  induction items generalizing i with
  | nil => simp [join, following]
  | cons i' items ih =>
    rw [List.map_cons, List.map_cons, join_cons_cons, ← List.map_cons, ih, following_cons]
    simp

section Characters

/-- A digit is neither white space nor a delimiter. -/
theorem of_isDecimal {c : CodePoint} (h : isDecimal c = true) :
    isSpace c = false ∧ isDelimiter c = false := by
  have hblocks : (digitZeros.all fun first => (List.range 10).all fun k =>
      !isSpace (Fin.ofNat 0x110000 (first + k)) &&
        !isDelimiter (Fin.ofNat 0x110000 (first + k))) = true := by decide +kernel
  unfold isDecimal digitValue at h
  rw [Option.isSome_map, List.find?_isSome] at h
  obtain ⟨first, hfirst, hbounds⟩ := h
  rw [Bool.and_eq_true, decide_eq_true_eq, decide_eq_true_eq] at hbounds
  have hblock := List.all_eq_true.mp (List.all_eq_true.mp hblocks first hfirst) (c.val - first)
    (List.mem_range.mpr (by omega))
  have hval : Fin.ofNat 0x110000 (first + (c.val - first)) = c := by
    apply Fin.ext
    rw [Fin.val_ofNat, Nat.add_sub_cancel' hbounds.1]
    exact Nat.mod_eq_of_lt c.isLt
  rw [hval] at hblock
  simpa using hblock

/-- A line feed is no digit. -/
theorem isDecimal_newline : isDecimal newline = false := by decide

/-- A delimiter is visible. -/
theorem isSpace_of_isDelimiter {c : CodePoint} (h : isDelimiter c = true) : isSpace c = false := by
  unfold isDelimiter at h
  rw [Bool.or_eq_true, beq_iff_eq, beq_iff_eq] at h
  unfold isSpace
  rcases h with h | h <;> simp [h]

/-- A delimiter is no digit. -/
theorem isDecimal_of_isDelimiter {c : CodePoint} (h : isDelimiter c = true) : isDecimal c = false := by
  by_contra hdigit
  have hnot := (of_isDecimal (by simpa using hdigit)).2
  rw [h] at hnot
  cases hnot

end Characters

section Pattern

/-- An item begins with its number, whatever white space stands before it. -/
theorem lstrip_text {blank : Str} (hblank : ∀ c ∈ blank, isSpace c = true) (i : NumberedItem)
    (t : Str) : lstrip (blank ++ (i.text ++ t)) = i.text ++ t := by
  obtain ⟨d, digits, hdigits⟩ := List.exists_cons_of_ne_nil i.number.1
  have hd : isDecimal d = true := i.number.2 d (by simp [hdigits])
  rw [lstrip, List.dropWhile_append_of_pos hblank, NumberedItem.text, hdigits]
  exact List.dropWhile_cons_of_neg (by simp [(of_isDecimal hd).1])

/-- The pattern finds an item, with white space in front of it and in front of its body. -/
theorem afterNumber_item {blank : Str} (hblank : ∀ c ∈ blank, isSpace c = true) (i : NumberedItem)
    (t : Str) : afterNumber (blank ++ (i.text ++ t)) = some (lstrip i.body ++ t) := by
  obtain ⟨d, digits, hdigits⟩ := List.exists_cons_of_ne_nil i.number.1
  have hd : isDecimal d = true := i.number.2 d (by simp [hdigits])
  have hbehind : (i.text ++ t).dropWhile isDecimal = i.delimiter :: space :: (i.body ++ t) := by
    rw [NumberedItem.text, List.append_assoc, List.dropWhile_append_of_pos i.number.2]
    exact List.dropWhile_cons_of_neg (by simp [isDecimal_of_isDelimiter i.delimits])
  have hfirst : (i.text ++ t).head? = some d := by
    rw [NumberedItem.text, hdigits]
    rfl
  have hnumbered : isNumbered (i.text ++ t) = true := by
    unfold isNumbered
    rw [hbehind, hfirst]
    have hspace : isSpace space = true := by decide
    simp [hd, i.delimits, hspace]
  unfold afterNumber
  rw [lstrip_text hblank, if_pos hnumbered, hbehind, List.tail_cons, lstrip,
    List.dropWhile_cons_of_pos (by decide)]
  exact congrArg some (lstrip_append i.visible t)

/-- A line end ends a number. -/
theorem dropWhile_isDecimal_newline (v t : Str) :
    (v ++ newline :: t).dropWhile isDecimal = v.dropWhile isDecimal ++ newline :: t := by
  rw [List.dropWhile_append]
  split
  · rename_i hempty
    rw [List.isEmpty_iff.mp hempty]
    exact List.dropWhile_cons_of_neg (by simp [isDecimal_newline])
  · rfl

/-- The number of a visible text does not depend on what follows its line. -/
theorem isNumbered_append_newline {v : Str} (hv : v ≠ []) (t : Str) :
    isNumbered (v ++ newline :: t) = isNumbered (v ++ [newline]) := by
  unfold isNumbered
  rw [dropWhile_isDecimal_newline, dropWhile_isDecimal_newline]
  obtain ⟨c, v', rfl⟩ := List.exists_cons_of_ne_nil hv
  cases (c :: v').dropWhile isDecimal with
  | nil =>
    have hline : isDelimiter newline = false := by decide
    simp [hline]
  | cons d u => cases u <;> rfl

/-- The pattern fails at a line that does not begin with a number behind its indent. -/
theorem afterNumber_eq_none_iff {s : Str} :
    afterNumber s = none ↔ isNumbered (lstrip s) = false := by
  unfold afterNumber
  split <;> simp [*]

/-- The pattern fails at a blank text. -/
theorem afterNumber_blank {s : Str} (h : strip s = []) : afterNumber s = none := by
  have hlstrip : lstrip s = [] := List.dropWhile_eq_nil_iff.mpr (strip_eq_nil_iff.mp h)
  rw [afterNumber_eq_none_iff, hlstrip]
  rfl

/-- Whether a visible line begins with a number does not depend on what follows the line end. -/
theorem afterNumber_following {s : Str} (h : strip s ≠ []) (items : List NumberedItem) :
    afterNumber (s ++ following items) = none ↔ afterNumber (s ++ lineEnd items) = none := by
  cases items with
  | nil => exact Iff.rfl
  | cons i items =>
    have hne := lstrip_ne_nil h
    rw [afterNumber_eq_none_iff, afterNumber_eq_none_iff, lstrip_append h, lstrip_append h,
      following_cons, isNumbered_append_newline hne]
    rfl

end Pattern

section Items

/-- Whether a line starts at the first visible character of a body, behind its number. -/
def opens (body : Str) : Bool := numberedLine.startAfter false (body.takeWhile isSpace)

/-- An item is a match: what is left is its body and the items behind it. -/
theorem parts_item {blank : Str} (hblank : ∀ c ∈ blank, isSpace c = true) (i : NumberedItem)
    (t : Str) : numberedLine.parts true 0 (blank ++ (i.text ++ t)) =
      [] :: numberedLine.parts (opens i.body) 0 (lstrip i.body ++ t) := by
  have hsplit : blank ++ (i.text ++ t) =
      (blank ++ (i.digits ++ i.delimiter :: space :: i.body.takeWhile isSpace)) ++
        (lstrip i.body ++ t) := by
    have hbody : i.body.takeWhile isSpace ++ lstrip i.body = i.body :=
      List.takeWhile_append_dropWhile
    conv_lhs => rw [NumberedItem.text, ← hbody]
    simp
  have hmatch := afterNumber_item hblank i t
  rw [hsplit] at hmatch ⊢
  have hparts := Pattern.parts_anchored (· = newline) afterNumber afterNumber_append hmatch
  change numberedLine.parts true 0 _ = [] :: numberedLine.parts (numberedLine.startAfter true _) 0 _
    at hparts
  rw [hparts, Pattern.startAfter_append, Pattern.startAfter_append]
  rfl

/-- White space between a body and the next item stays in front of the match of the item. -/
theorem parts_blank {w : Str} (hw : ∀ c ∈ w, isSpace c = true) (start : Bool) (i : NumberedItem)
    (t : Str) : ∃ x, (∀ c ∈ x, isSpace c = true) ∧
      numberedLine.parts start 0 (w ++ newline :: (i.text ++ t)) =
        x :: numberedLine.parts (opens i.body) 0 (lstrip i.body ++ t) := by
  have hline : isSpace newline = true := by decide
  induction w generalizing start with
  | nil =>
    cases start with
    | true =>
      refine ⟨[], by simp, ?_⟩
      exact parts_item (List.forall_mem_singleton.mpr hline) i t
    | false =>
      refine ⟨[newline], List.forall_mem_singleton.mpr hline, ?_⟩
      have hinside : numberedLine.matchAt false (newline :: (i.text ++ t)) = none := rfl
      have hitem := parts_item (List.forall_mem_nil _) i t
      rw [List.nil_append] at hitem
      rw [List.nil_append, numberedLine.parts_cons hinside]
      change (numberedLine.parts true 0 _).modifyHead _ = _
      rw [hitem]
      rfl
  | cons c w ih =>
    cases start with
    | true =>
      have hall : ∀ d ∈ c :: w ++ [newline], isSpace d = true :=
        List.forall_mem_append.mpr ⟨hw, List.forall_mem_singleton.mpr hline⟩
      refine ⟨[], by simp, ?_⟩
      have hitem := parts_item hall i t
      rwa [List.append_assoc, List.singleton_append] at hitem
    | false =>
      rw [List.forall_mem_cons] at hw
      obtain ⟨x, hx, hparts⟩ := ih hw.2 (numberedLine.breaks c)
      have hinside : numberedLine.matchAt false (c :: (w ++ newline :: (i.text ++ t))) = none := rfl
      refine ⟨c :: x, List.forall_mem_cons.mpr ⟨hw.1, hx⟩, ?_⟩
      rw [List.cons_append, numberedLine.parts_cons hinside, hparts]
      rfl

/-- Nothing matches at the end of a completion. -/
theorem parts_end {w : Str} (hw : ∀ c ∈ w, isSpace c = true) (start : Bool) :
    numberedLine.parts start 0 w = [w] := by
  have hclear : numberedLine.Clear start w [] := by
    intro before behind hsplit _
    rw [List.append_nil]
    cases numberedLine.startAfter start before with
    | false => rfl
    | true =>
      refine (Pattern.anchored_eq_none_iff _ _ _).mpr (afterNumber_blank (strip_eq_nil_iff.mpr ?_))
      intro c hc
      exact hw c (by rw [hsplit]; exact List.mem_append_right _ hc)
  have hparts := numberedLine.parts_append_of_clear hclear
  rw [List.append_nil] at hparts
  simpa [Pattern.parts] using hparts

/-- A position in a visible text has a match exactly when it has one with its line end. -/
theorem matchAt_following {start : Bool} {s : Str} (h : strip s ≠ []) (items : List NumberedItem) :
    numberedLine.matchAt start (s ++ following items) = none ↔
      numberedLine.matchAt start (s ++ lineEnd items) = none := by
  cases start with
  | false => exact Iff.rfl
  | true =>
    exact (Pattern.anchored_eq_none_iff _ _ _).trans
      ((afterNumber_following h items).trans (Pattern.anchored_eq_none_iff _ _ _).symm)

/-- No body of these items has a numbered line inside. -/
def Plain : List NumberedItem → Prop
  | [] => True
  | i :: items =>
    numberedLine.Clear (opens i.body) (lstrip i.body) (lineEnd items) ∧ Plain items

/-- Two texts that differ by white space at their ends. -/
def SameFront (s t : Str) : Prop :=
  ∃ front x y, s = front ++ x ∧ t = front ++ y ∧ (∀ c ∈ x, isSpace c = true) ∧
    ∀ c ∈ y, isSpace c = true

/-- The same character in front keeps the difference at the ends. -/
theorem SameFront.cons {s t : Str} (h : SameFront s t) (c : CodePoint) :
    SameFront (c :: s) (c :: t) := by
  obtain ⟨front, x, y, rfl, rfl, hx, hy⟩ := h
  exact ⟨c :: front, x, y, rfl, rfl, hx, hy⟩

/-- White space at the ends is stripped. -/
theorem SameFront.strip_eq {s t : Str} (h : SameFront s t) : strip s = strip t := by
  obtain ⟨front, x, y, rfl, rfl, hx, hy⟩ := h
  rw [strip_append_right hx, strip_append_right hy]

/-- Without numbered lines inside, the parts are the bodies. -/
theorem parts_of_plain {items : List NumberedItem} (hplain : Plain items) (s : Str) (start : Bool)
    (hclear : numberedLine.Clear start s (lineEnd items)) :
    ∃ first rest, numberedLine.parts start 0 (s ++ following items) = first :: rest ∧
      SameFront first s ∧ rest.map strip = items.map fun i => strip i.body := by
  induction items generalizing s start with
  | nil =>
    have hparts := numberedLine.parts_append_of_clear hclear
    refine ⟨s, [], ?_, ⟨s, [], [], by simp, by simp, by simp, by simp⟩, rfl⟩
    rw [show following [] = lineEnd [] from rfl, hparts]
    simp [Pattern.parts, lineEnd]
  | cons i items ih =>
    have hitems : ∀ (w : Str) (start : Bool), strip w = [] → ∃ first rest,
        numberedLine.parts start 0 (w ++ following (i :: items)) = first :: rest ∧
          SameFront first w ∧ rest.map strip = (i :: items).map fun i => strip i.body := by
      intro w start hw
      have hblank := strip_eq_nil_iff.mp hw
      obtain ⟨x, hx, hparts⟩ := parts_blank hblank start i (following items)
      obtain ⟨first, rest, hbody, hfront, hrest⟩ := ih hplain.2 _ _ hplain.1
      refine ⟨x, first :: rest, ?_, ⟨[], x, w, rfl, rfl, hx, hblank⟩, ?_⟩
      · rw [following_cons, hparts, hbody]
      · rw [List.map_cons, List.map_cons, hfront.strip_eq, strip_lstrip, hrest]
    induction s generalizing start with
    | nil => exact hitems [] start rfl
    | cons c s ihs =>
      by_cases hblank : strip (c :: s) = []
      · exact hitems (c :: s) start hblank
      · obtain ⟨hfirst, hbehind⟩ := numberedLine.clear_cons.mp hclear
        obtain ⟨first, rest, hparts, hfront, hrest⟩ := ihs (numberedLine.breaks c) hbehind
        refine ⟨c :: first, rest, ?_, hfront.cons c, hrest⟩
        have hnone := (matchAt_following hblank (i :: items)).mpr hfirst
        rw [List.cons_append] at hnone ⊢
        rw [numberedLine.parts_cons hnone, hparts]
        rfl

/-- The visible characters of a text. -/
def visible (s : Str) : Nat := s.countP fun c => !isSpace c

/-- Two texts have their visible characters together. -/
theorem visible_append (s t : Str) : visible (s ++ t) = visible s + visible t :=
  List.countP_append

/-- The first character counts on its own. -/
theorem visible_cons (c : CodePoint) (s : Str) : visible (c :: s) = visible [c] + visible s :=
  visible_append [c] s

/-- White space is not visible. -/
theorem visible_blank {s : Str} (h : ∀ c ∈ s, isSpace c = true) : visible s = 0 := by
  rw [visible, List.countP_eq_zero]
  intro c hc
  simp [h c hc]

/-- A text that is not blank has a visible character. -/
theorem visible_pos {s : Str} (h : strip s ≠ []) : 0 < visible s := by
  apply Nat.pos_of_ne_zero
  intro hzero
  apply h
  rw [strip_eq_nil_iff]
  intro c hc
  simpa using List.countP_eq_zero.mp hzero c hc

/-- Stripping loses no visible character. -/
theorem visible_strip (s : Str) : visible (strip s) = visible s := by
  have hsplit := congrArg visible (strip_split s)
  rw [visible_append, visible_append, visible_blank fun _ hc => List.mem_takeWhile_imp hc,
    visible_blank fun _ hc => List.mem_rtakeWhile_imp hc] at hsplit
  omega

/-- Stripping the front loses no visible character. -/
theorem visible_lstrip (s : Str) : visible (lstrip s) = visible s := by
  rw [← visible_strip (lstrip s), strip_lstrip, visible_strip]

/-- The visible characters of the bodies. -/
def bodiesVisible (items : List NumberedItem) : Nat :=
  visible (items.flatMap NumberedItem.body)

/-- The first body counts on its own. -/
theorem bodiesVisible_cons (i : NumberedItem) (items : List NumberedItem) :
    bodiesVisible (i :: items) = visible i.body + bodiesVisible items := by
  rw [bodiesVisible, List.flatMap_cons, visible_append]
  rfl

/-- A match that begins in a visible text ends in it, or is one at its end that takes the line end
with it. -/
theorem afterNumber_cases {s r : Str} (h : strip s ≠ []) {items : List NumberedItem}
    (hmatch : afterNumber (s ++ following items) = some r) :
    (∃ m z, s = m ++ z ∧ r = z ++ following items ∧ 0 < visible m) ∨
      ∃ i rest, items = i :: rest ∧ r = i.text ++ following rest := by
  have hnumber : (lstrip s ++ following items).dropWhile isDecimal =
      (lstrip s).dropWhile isDecimal ++ following items := by
    cases items with
    | nil => simp [following]
    | cons i items => exact dropWhile_isDecimal_newline _ _
  unfold afterNumber at hmatch
  rw [lstrip_append h, hnumber] at hmatch
  split at hmatch
  · rename_i hnumbered
    unfold isNumbered at hnumbered
    rw [hnumber] at hnumbered
    obtain ⟨d, u, hu⟩ : ∃ d u, (lstrip s).dropWhile isDecimal = d :: u := by
      cases hbehind : (lstrip s).dropWhile isDecimal with
      | cons d u => exact ⟨d, u, rfl⟩
      | nil =>
        have hline : isDelimiter newline = false := by decide
        rw [hbehind] at hnumbered
        cases items with
        | nil => simp [following] at hnumbered
        | cons i items => simp [following_cons, hline] at hnumbered
    have hd : isSpace d = false := by
      apply isSpace_of_isDelimiter
      rw [hu] at hnumbered
      simp only [List.cons_append, List.head?_cons, Option.any_some, Bool.and_eq_true] at hnumbered
      exact hnumbered.1.2
    rw [hu, List.cons_append, List.tail_cons] at hmatch
    by_cases hblank : strip u = []
    · rw [lstrip_append_of_blank hblank] at hmatch
      cases items with
      | nil =>
        cases hmatch
        exact .inl ⟨s, [], by simp, rfl, visible_pos h⟩
      | cons i items =>
        have hline : ∀ c ∈ [newline], isSpace c = true := List.forall_mem_singleton.mpr (by decide)
        have htext := lstrip_text hline i (following items)
        rw [following_cons, ← List.singleton_append, htext] at hmatch
        exact .inr ⟨i, items, rfl, (Option.some.inj hmatch).symm⟩
    · rw [lstrip_append hblank] at hmatch
      refine .inl ⟨s.takeWhile isSpace ++ (lstrip s).takeWhile isDecimal ++ d :: u.takeWhile isSpace,
        lstrip u, ?_, (Option.some.inj hmatch).symm, ?_⟩
      · have hafter : u.takeWhile isSpace ++ lstrip u = u := List.takeWhile_append_dropWhile
        have hlead : (lstrip s).takeWhile isDecimal ++ d :: u = lstrip s := by
          rw [← hu, List.takeWhile_append_dropWhile]
        rw [List.append_assoc, List.cons_append, hafter, List.append_assoc, hlead, lstrip,
          List.takeWhile_append_dropWhile]
      · rw [visible_append, visible_cons]
        have hone : visible [d] = 1 := by simp [visible, hd]
        omega
  · cases hmatch

/-- What is left of the visible characters, and what follows when all are. -/
def Bound (items : List NumberedItem) (s : Str) (start : Bool) : Prop :=
  visible (numberedLine.parts start 0 (s ++ following items)).flatten ≤
      visible s + bodiesVisible items ∧
    (visible (numberedLine.parts start 0 (s ++ following items)).flatten =
        visible s + bodiesVisible items →
      numberedLine.Clear start s (lineEnd items) ∧ Plain items)

/-- The pattern matches nowhere in a blank text in front of an item. -/
theorem clear_blank {w : Str} (hw : strip w = []) (start : Bool) (items : List NumberedItem) :
    numberedLine.Clear start w (lineEnd items) := by
  intro before behind hsplit _
  cases numberedLine.startAfter start before with
  | false => rfl
  | true =>
    refine (Pattern.anchored_eq_none_iff _ _ _).mpr (afterNumber_blank (strip_eq_nil_iff.mpr ?_))
    rw [List.forall_mem_append]
    constructor
    · intro c hc
      exact strip_eq_nil_iff.mp hw c (by rw [hsplit]; exact List.mem_append_right _ hc)
    · cases items with
      | nil => simp [lineEnd]
      | cons i items => exact List.forall_mem_singleton.mpr (by decide)

/-- From white space to any text: a match inside takes visible characters, and the rest is
shorter. -/
theorem bound_of_blank {items : List NumberedItem}
    (hblank : ∀ w start, strip w = [] → Bound items w start)
    (hitem : ∀ i rest, items = i :: rest →
      visible (numberedLine.parts (opens i.body) 0 (lstrip i.body ++ following rest)).flatten ≤
        bodiesVisible items)
    (s : Str) (start : Bool) : Bound items s start := by
  induction hn : s.length using Nat.strong_induction_on generalizing s start with
  | _ n ih =>
    subst hn
    by_cases hs : strip s = []
    · exact hblank s start hs
    have hvisible := visible_pos hs
    cases hmatch : numberedLine.matchAt start (s ++ following items) with
    | none =>
      have hnone := (matchAt_following hs items).mp hmatch
      cases s with
      | nil => exact absurd rfl hs
      | cons c s =>
        obtain ⟨hle, heq⟩ := ih s.length (by simp) s (numberedLine.breaks c) rfl
        rw [List.cons_append] at hmatch hnone
        obtain ⟨first, rest, hparts⟩ := List.exists_cons_of_ne_nil
          (numberedLine.parts_ne_nil (numberedLine.breaks c) 0 (s ++ following items))
        unfold Bound
        rw [hparts, List.flatten_cons] at hle heq
        rw [List.cons_append, numberedLine.parts_cons hmatch, hparts, List.modifyHead_cons,
          List.flatten_cons, List.cons_append, visible_cons c, visible_cons c s]
        refine ⟨by omega, fun hall => ?_⟩
        obtain ⟨hclear, hplain⟩ := heq (by omega)
        exact ⟨numberedLine.clear_cons.mpr ⟨hnone, hclear⟩, hplain⟩
    | some length =>
      cases start with
      | false => cases hmatch
      | true =>
        obtain ⟨r, hr, -⟩ := Option.map_eq_some_iff.mp hmatch
        -- a match inside leaves less than there is
        have hless : visible (numberedLine.parts true 0 (s ++ following items)).flatten <
            visible s + bodiesVisible items := by
          rcases afterNumber_cases hs hr with ⟨m, z, rfl, rfl, hm⟩ | ⟨i, rest, rfl, rfl⟩
          · have hne : 0 < m.length := by
              apply List.length_pos_of_ne_nil
              rintro rfl
              cases hm
            rw [List.append_assoc] at hr ⊢
            have hparts := Pattern.parts_anchored (· = newline) afterNumber afterNumber_append hr
            change numberedLine.parts true 0 _ =
              [] :: numberedLine.parts (numberedLine.startAfter true m) 0 _ at hparts
            have hle := (ih z.length (by simp; omega) z (numberedLine.startAfter true m) rfl).1
            rw [hparts, visible_append m z]
            change visible (numberedLine.parts _ 0 (z ++ following items)).flatten < _
            omega
          · have htext : s ++ following (i :: rest) =
                (s ++ [newline]) ++ (i.text ++ following rest) := by
              rw [following_cons]
              simp
            have hstart : numberedLine.startAfter true (s ++ [newline]) = true := by
              rw [Pattern.startAfter_append]
              rfl
            rw [htext] at hr ⊢
            have hparts := Pattern.parts_anchored (· = newline) afterNumber afterNumber_append hr
            change numberedLine.parts true 0 _ =
              [] :: numberedLine.parts (numberedLine.startAfter true (s ++ [newline])) 0 _ at hparts
            have hown := parts_item (List.forall_mem_nil _) i (following rest)
            rw [List.nil_append] at hown
            rw [hparts, hstart, hown]
            have hle := hitem i rest rfl
            change visible (numberedLine.parts _ 0 (lstrip i.body ++ following rest)).flatten < _
            omega
        exact ⟨hless.le, fun hall => absurd hall hless.ne⟩

/-- Matches only take visible characters away, and inside of a body some. -/
theorem visible_parts_le (items : List NumberedItem) (s : Str) (start : Bool) :
    Bound items s start := by
  induction items generalizing s start with
  | nil =>
    refine bound_of_blank (fun w start hw => ?_) (fun i rest h => by cases h) s start
    have hblank := strip_eq_nil_iff.mp hw
    have hend : w ++ following [] = w := List.append_nil w
    unfold Bound
    rw [hend, parts_end hblank, List.flatten_singleton, visible_blank hblank]
    exact ⟨Nat.zero_le _, fun _ => ⟨clear_blank hw start [], trivial⟩⟩
  | cons i items ih =>
    obtain ⟨hle, heq⟩ := ih (lstrip i.body) (opens i.body)
    rw [visible_lstrip] at hle heq
    refine bound_of_blank (fun w start hw => ?_) (fun i' rest h => ?_) s start
    · have hblank := strip_eq_nil_iff.mp hw
      obtain ⟨x, hx, hparts⟩ := parts_blank hblank start i (following items)
      unfold Bound
      rw [following_cons, hparts, List.flatten_cons, visible_append, visible_blank hx,
        visible_blank hblank, bodiesVisible_cons]
      refine ⟨by omega, fun hall => ?_⟩
      obtain ⟨hclear, hplain⟩ := heq (by omega)
      exact ⟨clear_blank hw start (i :: items), hclear, hplain⟩
    · obtain ⟨rfl, rfl⟩ := List.cons.inj h
      rw [bodiesVisible_cons]
      exact hle

/-- A text behind which a line starts ends with a line feed. -/
theorem startAfter_eq_true {s : Str} (h : numberedLine.startAfter false s = true) :
    ∃ front, s = front ++ [newline] := by
  induction s using List.reverseRecOn with
  | nil => cases h
  | append_singleton front c _ =>
    rw [Pattern.startAfter_append] at h
    have hc : c = newline := of_decide_eq_true h
    exact ⟨front, by rw [hc]⟩

/-- Behind its leading white space a body is clear when no numbered line is inside of it. -/
theorem clear_iff_not_nested (i : NumberedItem) (items : List NumberedItem) :
    numberedLine.Clear (opens i.body) (lstrip i.body) (lineEnd items) ↔
      ¬ Nested i.body (lineEnd items) := by
  have hbody : i.body.takeWhile isSpace ++ lstrip i.body = i.body :=
    List.takeWhile_append_dropWhile
  have hstart : ∀ s, numberedLine.startAfter (opens i.body) s =
      numberedLine.startAfter false (i.body.takeWhile isSpace ++ s) := by
    intro s
    rw [Pattern.startAfter_append]
    rfl
  constructor
  · rintro hclear ⟨before, after, hsplit, hplace, hnumbered⟩
    have hmatch : ¬ numberedLine.matchAt true (after ++ lineEnd items) = none := by
      rw [numberedLine, Pattern.anchored_eq_none_iff, afterNumber_eq_none_iff, hnumbered]
      simp
    have hafter : after ≠ [] := by
      rintro rfl
      cases items with
      | nil => cases hnumbered
      | cons i items => cases hnumbered
    -- the line starts behind the leading white space
    obtain ⟨u, hlead, hrest⟩ : ∃ u, before ++ [newline] = i.body.takeWhile isSpace ++ u ∧
        lstrip i.body = u ++ after := by
      have hsame : (before ++ [newline]) ++ after = i.body.takeWhile isSpace ++ lstrip i.body := by
        rw [hbody, hsplit]
        simp
      rcases List.append_eq_append_iff.mp hsame with ⟨u, hlead, hrest⟩ | ⟨u, hlead, hrest⟩
      · have hspaces : ∀ c ∈ before ++ [newline] ++ u, isSpace c = true := by
          rw [← hlead]
          exact fun c hc => List.mem_takeWhile_imp hc
        rw [List.forall_mem_append, List.forall_mem_append] at hspaces
        have hhead := hplace.resolve_left (not_not_intro (strip_eq_nil_iff.mpr hspaces.1.1))
        cases u with
        | nil => exact ⟨[], by rw [hlead]; simp, by rw [hrest]; rfl⟩
        | cons c u =>
          have hc := hspaces.2 c (by simp)
          rw [hrest] at hhead
          simp [hc] at hhead
      · exact ⟨u, hlead, hrest⟩
    have hnone := hclear u after hrest hafter
    rw [hstart, ← hlead, Pattern.startAfter_append] at hnone
    exact hmatch hnone
  · intro hnested before behind hsplit hbehind
    by_contra hmatch
    apply hnested
    rw [hstart] at hmatch
    cases hflag : numberedLine.startAfter false (i.body.takeWhile isSpace ++ before) with
    | false =>
      rw [hflag] at hmatch
      exact absurd rfl hmatch
    | true =>
      rw [hflag, numberedLine, Pattern.anchored_eq_none_iff, afterNumber_eq_none_iff,
        Bool.not_eq_false] at hmatch
      obtain ⟨front, hfront⟩ := startAfter_eq_true hflag
      refine ⟨front, behind, ?_, ?_, hmatch⟩
      · rw [← hbody, hsplit, ← List.append_assoc, hfront]
        simp
      · obtain ⟨c, y, hy⟩ := List.exists_cons_of_ne_nil (lstrip_ne_nil i.visible)
        have hc := isSpace_of_lstrip hy
        rw [hy] at hsplit
        cases before with
        | nil =>
          refine .inr ?_
          rw [← List.nil_append behind, ← hsplit]
          exact hc
        | cons d before =>
          obtain ⟨rfl, -⟩ := List.cons.inj hsplit
          refine .inl fun hblank => ?_
          have hmem : c ∈ front ++ [newline] := by
            rw [← hfront]
            simp
          have hspace : isSpace c = true := by
            rcases List.mem_append.mp hmem with hmem | hmem
            · exact strip_eq_nil_iff.mp hblank c hmem
            · rw [List.mem_singleton.mp hmem]
              decide
          rw [hc] at hspace
          cases hspace

/-- The bodies are plain when none of them has a numbered line inside. -/
theorem plain_iff (items : List NumberedItem) : Plain items ↔
    ∀ before i after, items = before ++ i :: after → ¬ Nested i.body (lineEnd after) := by
  induction items with
  | nil => simp [Plain]
  | cons i items ih =>
    rw [Plain, ih, clear_iff_not_nested]
    constructor
    · rintro ⟨hfirst, hrest⟩ before j after hsplit
      cases before with
      | nil =>
        obtain ⟨rfl, rfl⟩ := List.cons.inj hsplit
        exact hfirst
      | cons _ before => exact hrest before j after (List.cons.inj hsplit).2
    · intro h
      refine ⟨h [] i items rfl, fun before j after hsplit => ?_⟩
      exact h (i :: before) j after (by rw [hsplit]; rfl)

end Items

section Splitting

/-- The blocks are what stands between the matches. -/
theorem numberedBlocks_eq (text : Str) (last : Nat) (found : List Match) :
    numberedBlocks text found = (Pattern.between text last found).tail := by
  induction found generalizing last with
  | nil => rfl
  | cons m found ih =>
    cases found with
    | nil => rfl
    | cons next found =>
      rw [numberedBlocks, ih m.stop]
      rfl

/-- The numbered items are the parts behind the first match. -/
theorem splitNumbered_eq (text : Str) : splitNumbered text =
    if (numberedLine.parts true 0 text).length < 3 then []
    else cleaned (numberedLine.parts true 0 text).tail := by
  have hcount := numberedLine.length_parts true 0 0 text
  unfold splitNumbered
  dsimp only
  rw [numberedBlocks_eq text 0, ← Pattern.split, Pattern.split_eq, hcount]
  change (if (numberedLine.finditer text).length < 2 then _ else _) =
    if (numberedLine.finditer text).length + 1 < 3 then _ else _
  simp only [Nat.add_lt_add_iff_right, show 3 = 2 + 1 from rfl]

/-- Stripping the parts loses no visible character. -/
theorem visible_map_strip (parts : List Str) :
    visible (parts.map strip).flatten = visible parts.flatten := by
  induction parts with
  | nil => rfl
  | cons part parts ih =>
    rw [List.map_cons, List.flatten_cons, List.flatten_cons, visible_append, visible_append, ih,
      visible_strip]

/-- Leaving out empty parts loses no character. -/
theorem flatten_filter_ne_nil (parts : List Str) :
    (parts.filter fun part => part ≠ []).flatten = parts.flatten := by
  induction parts with
  | nil => rfl
  | cons part parts ih =>
    by_cases hpart : part = []
    · subst hpart
      exact ih
    · rw [List.filter_cons_of_pos (by simp [hpart]), List.flatten_cons, ih]
      rfl

/-- Cleaning the parts loses no visible character. -/
theorem visible_cleaned (parts : List Str) :
    visible (cleaned parts).flatten = visible parts.flatten := by
  rw [cleaned, flatten_filter_ne_nil, visible_map_strip]

/-- A completion of numbered items without a marker is split into the bodies exactly when no body
has a numbered line inside. -/
theorem splitCandidates_numbered_iff (alnum : CodePoint → Bool) (items : List NumberedItem)
    (hitems : 2 ≤ items.length)
    (hmarker : (markerLine alnum).search (numberedText items) = false) :
    splitCandidates alnum (numberedText items) = items.map (fun i => strip i.body) ↔
      ∀ before i after, items = before ++ i :: after → ¬ Nested i.body (lineEnd after) := by
  rw [← plain_iff]
  have hmap : items.map (fun i => strip i.body) = (items.map NumberedItem.body).map strip := by
    simp
  have hvisible : ∀ body ∈ items.map NumberedItem.body, strip body ≠ [] := by
    intro body hbody
    obtain ⟨i, -, rfl⟩ := List.mem_map.mp hbody
    exact i.visible
  obtain ⟨i, rest, rfl⟩ : ∃ i rest, items = i :: rest :=
    List.exists_cons_of_ne_nil (List.ne_nil_of_length_pos (by omega))
  have hparts : numberedLine.parts true 0 (numberedText (i :: rest)) =
      [] :: numberedLine.parts (opens i.body) 0 (lstrip i.body ++ following rest) := by
    rw [numberedText_cons]
    exact parts_item (List.forall_mem_nil _) i (following rest)
  have hsplit := splitNumbered_eq (numberedText (i :: rest))
  rw [hparts, List.tail_cons] at hsplit
  unfold splitCandidates
  rw [hmarker, if_neg (by simp)]
  constructor
  · intro hresult
    -- the fallback to the whole text has one candidate at most
    have hnumbered : splitNumbered (numberedText (i :: rest)) ≠ [] := by
      intro hnone
      rw [if_neg (not_not_intro hnone)] at hresult
      have hlength := congrArg List.length hresult
      have hshort : ∀ s : Str, (if s ≠ [] then [s] else []).length ≤ 1 := by
        intro s
        split <;> simp
      rw [List.length_map] at hlength
      have hone := hshort (strip (numberedText (i :: rest)))
      omega
    rw [if_pos hnumbered, hsplit] at hresult
    split at hresult
    · cases hresult
    · have hall := congrArg (fun parts => visible parts.flatten) hresult
      rw [visible_cleaned, hmap, visible_map_strip, ← List.flatMap_def] at hall
      change _ = bodiesVisible (i :: rest) at hall
      rw [bodiesVisible_cons, ← visible_lstrip i.body] at hall
      exact (visible_parts_le rest (lstrip i.body) (opens i.body)).2 hall
  · rintro ⟨hfirst, hrest⟩
    obtain ⟨first, others, hbodies, hfront, hothers⟩ :=
      parts_of_plain hrest (lstrip i.body) (opens i.body) hfirst
    have hstrip : (first :: others).map strip = ((i :: rest).map NumberedItem.body).map strip := by
      rw [← hmap, List.map_cons, List.map_cons, hfront.strip_eq, strip_lstrip, hothers]
    have hcount := congrArg List.length hstrip
    rw [List.length_map, List.length_map, List.length_map] at hcount
    have hlong : ¬ (([] : Str) :: first :: others).length < 3 := by
      rw [List.length_cons]
      omega
    rw [hbodies, if_neg hlong, cleaned_of_visible hstrip hvisible, ← hmap] at hsplit
    rw [hsplit, if_pos (by simp)]

/-- Every line of a body but the first does not begin with a number, a delimiter and a space. -/
def TopLevel (body : Str) : Prop :=
  ∀ line ∈ (body.splitOn newline).tail,
    (isNumbered line && (line.dropWhile isDecimal).tail.head? = some space) = false

instance (body : Str) : Decidable (TopLevel body) :=
  inferInstanceAs (Decidable (∀ line ∈ _, _))

/-- The numeral 1 is a digit. -/
theorem isDecimal_one : ∀ c ∈ lit "1", isDecimal c = true := List.forall_mem_singleton.mpr (by decide)

/-- The numeral 2 is a digit. -/
theorem isDecimal_two : ∀ c ∈ lit "2", isDecimal c = true := List.forall_mem_singleton.mpr (by decide)

/-- A step of a plan with an indented list. -/
def planItem : NumberedItem where
  digits := lit "1"
  delimiter := 46
  body := lit "Plan:\n   1. read\n   2. write"
  number := ⟨List.cons_ne_nil _ _, isDecimal_one⟩
  delimits := rfl
  visible := strip_ne_nil rfl

/-- An item on one line. -/
def shortItem : NumberedItem where
  digits := lit "2"
  delimiter := 41
  body := lit "Search."
  number := ⟨List.cons_ne_nil _ _, isDecimal_two⟩
  delimits := rfl
  visible := strip_ne_nil rfl

/-- An item that goes on for two lines, one of which begins with a number. -/
def continuedItem : NumberedItem where
  digits := lit "1"
  delimiter := 46
  body := lit "Read the file.\n   It has two parts.\n2 of them are long."
  number := ⟨List.cons_ne_nil _ _, isDecimal_one⟩
  delimits := rfl
  visible := strip_ne_nil rfl

/-- Where a body has a numbered line inside can be looked for. -/
theorem nested_iff {body behind : Str} : Nested body behind ↔ ∃ k < body.length,
    body[k]? = some newline ∧
      (strip (body.take k) ≠ [] ∨ (body.drop (k + 1)).head?.any isSpace = false) ∧
      isNumbered (lstrip (body.drop (k + 1) ++ behind)) = true := by
  constructor
  · rintro ⟨before, after, rfl, hplace, hnumbered⟩
    have hdrop : (before ++ newline :: after).drop (before.length + 1) = after := by simp
    refine ⟨before.length, by simp, by simp, ?_, ?_⟩
    · rw [List.take_left, hdrop]
      exact hplace
    · rw [hdrop]
      exact hnumbered
  · rintro ⟨k, hk, hline, hplace, hnumbered⟩
    refine ⟨body.take k, body.drop (k + 1), ?_, hplace, hnumbered⟩
    obtain ⟨_, hget⟩ := List.getElem?_eq_some_iff.mp hline
    rw [← hget, ← List.drop_eq_getElem_cons hk, List.take_append_drop]

instance (body behind : Str) : Decidable (Nested body behind) := decidable_of_iff' _ nested_iff

/-- The lines of the first item stay together. -/
theorem splitCandidates_numbered_small :
    splitCandidates (fun _ => false) (numberedText [continuedItem, shortItem]) =
      [lit "Read the file.\n   It has two parts.\n2 of them are long.", lit "Search."] := by
  have hiff := splitCandidates_numbered_iff (fun _ => false) [continuedItem, shortItem]
    (Nat.le_refl 2) (by decide +kernel)
  refine (hiff.mpr ((plain_iff _).mp ⟨?_, ?_, trivial⟩)).trans (by decide +kernel)
  · exact (clear_iff_not_nested _ _).mpr (by decide +kernel)
  · exact (clear_iff_not_nested _ _).mpr (by decide +kernel)

/-- An indented list inside of a body is split like the items themselves. -/
theorem splitCandidates_splits_nested :
    (markerLine fun _ => false).search (numberedText [planItem, shortItem]) = false ∧
      (∀ i ∈ [planItem, shortItem], TopLevel i.body) ∧
      splitCandidates (fun _ => false) (numberedText [planItem, shortItem]) =
        [lit "Plan:", lit "read", lit "write", lit "Search."] ∧
      splitCandidates (fun _ => false) (numberedText [planItem, shortItem]) ≠
        [planItem, shortItem].map (fun i => strip i.body) := by
  refine ⟨by decide +kernel, ?_, by decide +kernel, by decide +kernel⟩
  rw [List.forall_mem_cons, List.forall_mem_singleton]
  exact ⟨by decide +kernel, by decide +kernel⟩

end Splitting

end CognitiveTree.Llm
