import CognitiveTree.Search.JsonCompact

/-!
# How deep a value nests

An encoder raises a `RecursionError` only for values that nest deeper than the interpreter allows,
and such values have no text.
-/

namespace CognitiveTree.Search

open Json

variable {K : Type}

namespace PyVal

mutual

/-- The containers around the innermost part of a value. -/
def nesting : PyVal K → Nat
  | .list vs => nestingElements vs + 1
  | .dict items => nestingItems items + 1
  | _ => 0

def nestingElements : List (PyVal K) → Nat
  | [] => 0
  | v :: vs => max v.nesting (nestingElements vs)

def nestingItems : List (Str × PyVal K) → Nat
  | [] => 0
  | (_, v) :: items => max v.nesting (nestingItems items)

end

/-- Elements nest no deeper than the deepest of them. -/
theorem nestingElements_le {vs : List (PyVal K)} {n : Nat} :
    nestingElements vs ≤ n ↔ ∀ v ∈ vs, v.nesting ≤ n := by
  induction vs with
  | nil => simp [nestingElements]
  | cons v vs ih => rw [nestingElements, max_le_iff, List.forall_mem_cons, ih]

/-- Items nest no deeper than the deepest of their values. -/
theorem nestingItems_le {items : List (Str × PyVal K)} {n : Nat} :
    nestingItems items ≤ n ↔ ∀ item ∈ items, item.2.nesting ≤ n := by
  induction items with
  | nil => simp [nestingItems]
  | cons item items ih => rw [nestingItems, max_le_iff, List.forall_mem_cons, ih]

/-- A list nests one deeper than its elements. -/
theorem nesting_list_le {vs : List (PyVal K)} {n : Nat} :
    (PyVal.list vs).nesting ≤ n + 1 ↔ ∀ v ∈ vs, v.nesting ≤ n := by
  rw [nesting, Nat.add_le_add_iff_right, nestingElements_le]

/-- A dictionary nests one deeper than its values. -/
theorem nesting_dict_le {items : List (Str × PyVal K)} {n : Nat} :
    (PyVal.dict items).nesting ≤ n + 1 ↔ ∀ item ∈ items, item.2.nesting ≤ n := by
  rw [nesting, Nat.add_le_add_iff_right, nestingItems_le]

end PyVal

/-- So many containers, the first of them at this level, are within the recursion limit. -/
def Fits (limits : Limits) (level nesting : Nat) : Prop :=
  ∀ limit ∈ limits.depth, level + nesting ≤ limit

section Levels

variable {limits : Limits} {level m n : Nat}

/-- Fewer containers fit as well. -/
theorem Fits.mono (h : Fits limits level n) (hle : m ≤ n) : Fits limits level m :=
  fun limit hlimit => (Nat.add_le_add_left hle level).trans (h limit hlimit)

/-- Where a container fits, it may be entered. -/
theorem Fits.admits (h : Fits limits level (n + 1)) : Admits limits level :=
  fun limit hlimit => by
    have := h limit hlimit
    omega

/-- Inside a container one container less fits. -/
theorem Fits.below (h : Fits limits level (n + 1)) : Fits limits (level + 1) n :=
  fun limit hlimit => by
    have := h limit hlimit
    omega

/-- Two values fit when the deeper one does. -/
theorem Fits.max (h : Fits limits level (max m n)) : Fits limits level m ∧ Fits limits level n :=
  ⟨h.mono (Nat.le_max_left m n), h.mono (Nat.le_max_right m n)⟩

/-- The limit of a level is the one error that says so. -/
theorem enterLevel_recursion {e : Exc} (h : enterLevel limits level = .error e) :
    ¬ Admits limits level := by
  intro hadmits
  rw [(enterLevel_ok_iff level).mpr hadmits] at h
  cases h

end Levels

/-- A `TypeError` is no `RecursionError`. -/
theorem typeName_typeError (text : Str) :
    (typeError text).typeName ≠ recursionError.typeName := by
  change lit "TypeError" ≠ lit "RecursionError"
  decide

section Encoders

variable [PyDecimal K] {limits : Limits} {ascii : Bool}

omit [PyDecimal K] in
/-- An integer is not refused for its depth. -/
theorem encodeInt_recursion {i : Int} {e : Exc} (h : encodeInt limits i = .error e) :
    e.typeName ≠ recursionError.typeName := by
  unfold encodeInt at h
  split at h <;> cases h
  decide

mutual

/-- A value that fits is not refused for its depth. -/
theorem encode_recursion (level : Nat) : ∀ (v : PyVal K) {e : Exc},
    encode limits ascii level v = .error e → Fits limits level v.nesting →
      e.typeName ≠ recursionError.typeName
  | .none, _, h, _ => by cases h
  | .bool _, _, h, _ => by cases h
  | .int _, _, h, _ => encodeInt_recursion h
  | .float _, _, h, _ => by cases h
  | .str _, _, h, _ => by cases h
  | .list [], _, h, hfits => by
    rcases error_of_bind h with h | ⟨_, _, h⟩
    · exact absurd hfits.admits (enterLevel_recursion h)
    · cases h
  | .list (v :: vs), _, h, hfits => by
    obtain ⟨hv, hvs⟩ := hfits.below.max
    rcases error_of_bind h with h | ⟨_, _, h⟩
    · exact absurd hfits.admits (enterLevel_recursion h)
    rcases error_of_bind h with h | ⟨_, _, h⟩
    · exact encode_recursion (level + 1) v h hv
    rcases error_of_bind h with h | ⟨_, _, h⟩
    · exact encodeElements_recursion (level + 1) vs h hvs
    · cases h
  | .dict [], _, h, hfits => by
    rcases error_of_bind h with h | ⟨_, _, h⟩
    · exact absurd hfits.admits (enterLevel_recursion h)
    · cases h
  | .dict ((_, v) :: items), _, h, hfits => by
    obtain ⟨hv, hitems⟩ := hfits.below.max
    rcases error_of_bind h with h | ⟨_, _, h⟩
    · exact absurd hfits.admits (enterLevel_recursion h)
    rcases error_of_bind h with h | ⟨_, _, h⟩
    · exact encode_recursion (level + 1) v h hv
    rcases error_of_bind h with h | ⟨_, _, h⟩
    · exact encodeItems_recursion (level + 1) items h hitems
    · cases h
  | .object _, _, h, _ => by
    cases h
    exact typeName_typeError _

/-- Elements that fit are not refused for their depth. -/
theorem encodeElements_recursion (level : Nat) : ∀ (vs : List (PyVal K)) {e : Exc},
    encodeElements limits ascii level vs = .error e →
      Fits limits level (PyVal.nestingElements vs) → e.typeName ≠ recursionError.typeName
  | [], _, h, _ => by cases h
  | v :: vs, _, h, hfits => by
    obtain ⟨hv, hvs⟩ := hfits.max
    rcases error_of_bind h with h | ⟨_, _, h⟩
    · exact encode_recursion level v h hv
    rcases error_of_bind h with h | ⟨_, _, h⟩
    · exact encodeElements_recursion level vs h hvs
    · cases h

/-- Items that fit are not refused for their depth. -/
theorem encodeItems_recursion (level : Nat) : ∀ (items : List (Str × PyVal K)) {e : Exc},
    encodeItems limits ascii level items = .error e →
      Fits limits level (PyVal.nestingItems items) → e.typeName ≠ recursionError.typeName
  | [], _, h, _ => by cases h
  | (_, v) :: items, _, h, hfits => by
    obtain ⟨hv, hitems⟩ := hfits.max
    rcases error_of_bind h with h | ⟨_, _, h⟩
    · exact encode_recursion level v h hv
    rcases error_of_bind h with h | ⟨_, _, h⟩
    · exact encodeItems_recursion level items h hitems
    · cases h

end

mutual

/-- The same for texts on one line. -/
theorem compact_recursion (level : Nat) : ∀ (v : PyVal K) {e : Exc},
    compact limits level v = .error e → Fits limits level v.nesting →
      e.typeName ≠ recursionError.typeName
  | .none, _, h, _ => by cases h
  | .bool _, _, h, _ => by cases h
  | .int _, _, h, _ => encodeInt_recursion h
  | .float _, _, h, _ => by cases h
  | .str _, _, h, _ => by cases h
  | .list vs, _, h, hfits => by
    rcases error_of_bind h with h | ⟨_, _, h⟩
    · exact absurd hfits.admits (enterLevel_recursion h)
    rcases error_of_bind h with h | ⟨_, _, h⟩
    · exact compactElements_recursion (level + 1) vs h hfits.below
    · cases h
  | .dict items, _, h, hfits => by
    rcases error_of_bind h with h | ⟨_, _, h⟩
    · exact absurd hfits.admits (enterLevel_recursion h)
    rcases error_of_bind h with h | ⟨_, _, h⟩
    · exact compactItems_recursion (level + 1) items h hfits.below
    · cases h
  | .object _, _, h, _ => by
    cases h
    exact typeName_typeError _

/-- Written without indents, elements that fit are not refused for their depth. -/
theorem compactElements_recursion (level : Nat) : ∀ (vs : List (PyVal K)) {e : Exc},
    compactElements limits level vs = .error e →
      Fits limits level (PyVal.nestingElements vs) → e.typeName ≠ recursionError.typeName
  | [], _, h, _ => by cases h
  | v :: vs, _, h, hfits => by
    obtain ⟨hv, hvs⟩ := hfits.max
    rcases error_of_bind h with h | ⟨_, _, h⟩
    · exact compact_recursion level v h hv
    rcases error_of_bind h with h | ⟨_, _, h⟩
    · exact compactElements_recursion level vs h hvs
    · cases h

/-- Written without indents, items that fit are not refused for their depth. -/
theorem compactItems_recursion (level : Nat) : ∀ (items : List (Str × PyVal K)) {e : Exc},
    compactItems limits level items = .error e →
      Fits limits level (PyVal.nestingItems items) → e.typeName ≠ recursionError.typeName
  | [], _, h, _ => by cases h
  | (_, v) :: items, _, h, hfits => by
    obtain ⟨hv, hitems⟩ := hfits.max
    rcases error_of_bind h with h | ⟨_, _, h⟩
    · exact compact_recursion level v h hv
    rcases error_of_bind h with h | ⟨_, _, h⟩
    · exact compactItems_recursion level items h hitems
    · cases h

end

end Encoders

section Limits

variable {limits reading : Limits}

mutual

/-- A value with a text has one under other limits, when it fits there and integers may be as
long. -/
theorem PyVal.Shaped.of_fits (hdigits : reading.digits = limits.digits) (level : Nat) :
    ∀ v : PyVal K, v.Shaped limits level → Fits reading level v.nesting → v.Shaped reading level
  | .none, _, _ => trivial
  | .bool _, _, _ => trivial
  | .int i, h, _ => by
    change Prints reading i
    rw [Prints, hdigits]
    exact h
  | .float _, _, _ => trivial
  | .str _, _, _ => trivial
  | .list vs, h, hfits =>
    ⟨hfits.admits, shapedElements_of_fits hdigits (level + 1) vs h.2 hfits.below⟩
  | .dict items, h, hfits =>
    ⟨hfits.admits, shapedItems_of_fits hdigits (level + 1) items h.2 hfits.below⟩
  | .object _, h, _ => h.elim

/-- Elements that were written are within a reader's limits when they fit there. -/
theorem shapedElements_of_fits (hdigits : reading.digits = limits.digits) (level : Nat) :
    ∀ vs : List (PyVal K), PyVal.ShapedElements limits level vs →
      Fits reading level (PyVal.nestingElements vs) → PyVal.ShapedElements reading level vs
  | [], _, _ => trivial
  | v :: vs, h, hfits => ⟨PyVal.Shaped.of_fits hdigits level v h.1 hfits.max.1,
    shapedElements_of_fits hdigits level vs h.2 hfits.max.2⟩

/-- Items that were written are within a reader's limits when they fit there. -/
theorem shapedItems_of_fits (hdigits : reading.digits = limits.digits) (level : Nat) :
    ∀ items : List (Str × PyVal K), PyVal.ShapedItems limits level items →
      Fits reading level (PyVal.nestingItems items) → PyVal.ShapedItems reading level items
  | [], _, _ => trivial
  | (_, v) :: items, h, hfits => ⟨PyVal.Shaped.of_fits hdigits level v h.1 hfits.max.1,
    shapedItems_of_fits hdigits level items h.2 hfits.max.2⟩

end

end Limits

end CognitiveTree.Search
