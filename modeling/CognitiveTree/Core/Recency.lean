import Mathlib.Data.List.DropRight
import Mathlib.Data.List.Forall2
import CognitiveTree.Core.Lru

/-!
# The reference of a recency-ordered store

The history of a store ranks the keys that were assigned since it was cleared by their last use. A
store of a limited size has to hold the most recent of them. The steps of the recency-ordered list
keep it in agreement with this reference.
-/

namespace CognitiveTree.Lru

/-- An operation on a store. -/
inductive Op (κ ν : Type) where
  | get (k : κ)
  | put (k : κ) (v : ν)
  | clear

/-- The uses and the assignments since the last clear, in their order. -/
structure History (κ ν : Type) where
  uses : List κ
  puts : List (κ × ν)

variable {κ ν : Type} [BEq κ]

/-- The distinct keys of a list, in the order of their last occurrences. -/
def lastOccurrences : List κ → List κ
  | [] => []
  | k :: ks => if ks.any (· == k) then lastOccurrences ks else k :: lastOccurrences ks

namespace History

/-- A history before the first operation. -/
def empty : History κ ν := ⟨[], []⟩

/-- The keys that a store of this size has to hold, the most recently used one last. -/
def held (h : History κ ν) (limit : Nat) : List κ := (lastOccurrences h.uses).rtake limit

/-- The value that was assigned to a key most recently. -/
def latest (h : History κ ν) (k : κ) : Option ν :=
  (h.puts.reverse.find? fun p => p.1 == k).map Prod.snd

/-- The answer that a store of this size has to give. -/
def answer (h : History κ ν) (limit : Nat) (k : κ) : Option ν :=
  if (h.held limit).any (· == k) then h.latest k else none

/-- The history after an operation: an assignment and a lookup that is answered use their key. -/
def after (h : History κ ν) (limit : Nat) : Op κ ν → History κ ν
  | .get k => if (h.held limit).any (· == k) then { h with uses := h.uses ++ [k] } else h
  | .put k v => ⟨h.uses ++ [k], h.puts ++ [(k, v)]⟩
  | .clear => empty

/-- The answers to the lookups among these operations, and the history after them. -/
def replay (limit : Nat) (h : History κ ν) : List (Op κ ν) → List (Option ν) × History κ ν
  | [] => ([], h)
  | op :: ops =>
    let rest := replay limit (h.after limit op) ops
    match op with
    | .get k => (h.answer limit k :: rest.1, rest.2)
    | _ => rest

end History

/-- An entry holds the latest value of the key in its place. -/
def Holds (h : History κ ν) (entry : κ × ν) (k : κ) : Prop :=
  (entry.1 == k) = true ∧ h.latest k = some entry.2

/-- A store holds, in its order, what the reference says. -/
def Mirrors (h : History κ ν) (limit : Nat) (entries : List (κ × ν)) : Prop :=
  List.Forall₂ (Holds h) entries (h.held limit)

omit [BEq κ] in
theorem trim_eq_rtake (limit : Nat) (entries : List (κ × ν)) :
    trim limit entries = entries.rtake limit := by
  induction entries with
  | nil => simp [trim]
  | cons entry rest ih =>
    rw [trim]
    split
    · rename_i h
      have hlen : rest.length + 1 - limit = rest.length - limit + 1 := by
        rw [List.length_cons] at h
        omega
      rw [ih, List.rtake, List.rtake, List.length_cons, hlen, List.drop_succ_cons]
    · rename_i h
      rw [List.rtake, Nat.sub_eq_zero_of_le (Nat.not_lt.mp h), List.drop_zero]

/-- After an assignment the first entry of the key has the new value and the last place. -/
theorem moveToEnd_assign [ReflBEq κ] (entries : List (κ × ν)) (k : κ) (v : ν) :
    ∃ key, (key == k) = true ∧
      moveToEnd (assign entries k v) k =
        entries.eraseP (fun entry => entry.1 == k) ++ [(key, v)] := by
  have hassign : ∃ key, (key == k) = true ∧
      (assign entries k v).eraseP (fun entry => entry.1 == k) =
        entries.eraseP (fun entry => entry.1 == k) ∧
      (assign entries k v).find? (fun entry => entry.1 == k) = some (key, v) := by
    induction entries with
    | nil => exact ⟨k, BEq.rfl, by simp [assign], by simp [assign]⟩
    | cons entry rest ih =>
      by_cases hk : (entry.1 == k) = true
      · exact ⟨entry.1, hk, by simp [assign, hk], by simp [assign, hk]⟩
      · obtain ⟨key, hkey, herase, hfind⟩ := ih
        exact ⟨key, hkey, by simp [assign, hk, herase], by simp [assign, hk, hfind]⟩
  obtain ⟨key, hkey, herase, hfind⟩ := hassign
  refine ⟨key, hkey, ?_⟩
  rw [moveToEnd, herase, hfind]
  rfl

section Ranking

variable [EquivBEq κ]

theorem any_lastOccurrences (uses : List κ) (k : κ) :
    (lastOccurrences uses).any (· == k) = uses.any (· == k) := by
  induction uses with
  | nil => rfl
  | cons u uses ih =>
    rw [lastOccurrences, List.any_cons]
    split
    · rename_i hu
      rw [ih]
      cases huk : u == k with
      | false => simp
      | true =>
        rw [Bool.true_or, List.any_eq_true]
        obtain ⟨u', hmem, hu'⟩ := List.any_eq_true.mp hu
        exact ⟨u', hmem, PartialEquivBEq.trans hu' huk⟩
    · rw [List.any_cons, ih]

/-- The ranking lists no key twice. -/
theorem distinct_lastOccurrences (uses : List κ) :
    (lastOccurrences uses).Pairwise fun a b => (b == a) = false := by
  induction uses with
  | nil => exact .nil
  | cons u uses ih =>
    rw [lastOccurrences]
    split
    · exact ih
    · rename_i hu
      rw [List.pairwise_cons]
      refine ⟨fun a ha => ?_, ih⟩
      by_contra hau
      apply hu
      rw [← any_lastOccurrences, List.any_eq_true]
      exact ⟨a, ha, by simpa using hau⟩

/-- A use moves its key to the end of the ranking. -/
theorem lastOccurrences_concat (uses : List κ) (k : κ) : lastOccurrences (uses ++ [k]) =
    (lastOccurrences uses).filter (fun u => !(u == k)) ++ [k] := by
  induction uses with
  | nil => simp [lastOccurrences]
  | cons u uses ih =>
    rw [List.cons_append, lastOccurrences, List.any_append, ih, lastOccurrences]
    have hsym : ([k].any fun x => x == u) = (u == k) := by
      simp [BEq.comm]
    rw [hsym]
    cases hany : uses.any fun x => x == u <;> cases huk : u == k <;> simp [huk]

/-- Of distinct keys a filter removes at most one. -/
theorem filter_eq_eraseP {keys : List κ} (h : keys.Pairwise fun a b => (b == a) = false) (k : κ) :
    keys.filter (fun u => !(u == k)) = keys.eraseP fun u => u == k := by
  induction keys with
  | nil => rfl
  | cons u keys ih =>
    rw [List.pairwise_cons] at h
    cases huk : u == k with
    | false => simp [huk, ih h.2]
    | true =>
      rw [List.eraseP_cons_of_pos (by simp [huk]), List.filter_cons_of_neg (by simp [huk]),
        List.filter_eq_self]
      intro a ha
      cases hak : a == k with
      | false => rfl
      | true =>
        have := h.1 a ha
        rw [PartialEquivBEq.trans hak (PartialEquivBEq.symm huk)] at this
        cases this

/-- A use changes the keys to be held as it changes the whole ranking. -/
theorem held_concat {limit : Nat} (hlimit : 1 ≤ limit) (h h' : History κ ν) (k : κ)
    (huses : h'.uses = h.uses ++ [k]) : h'.held limit =
      ((h.held limit).eraseP (fun u => u == k) ++ [k]).rtake limit := by
  have hdistinct := distinct_lastOccurrences h.uses
  rw [History.held, huses, lastOccurrences_concat, History.held]
  generalize lastOccurrences h.uses = ranking at hdistinct
  have hsplit := List.take_append_drop (ranking.length - limit) ranking
  rw [← List.rtake] at hsplit
  have hlast : (ranking.rtake limit).Pairwise fun a b => (b == a) = false :=
    hdistinct.sublist (List.drop_sublist _ _)
  rw [← filter_eq_eraseP hlast]
  -- what is not held is dropped again, since the filter removes at most one key that is held
  have hone := List.le_length_eraseP (p := fun u => u == k) (l := ranking.rtake limit)
  rw [← filter_eq_eraseP hlast] at hone
  have hheld : (ranking.rtake limit).length = ranking.length - (ranking.length - limit) :=
    List.length_drop
  conv_lhs => rw [← hsplit, List.filter_append, List.append_assoc]
  by_cases hall : ranking.length ≤ limit
  · rw [Nat.sub_eq_zero_of_le hall, List.take_zero, List.filter_nil, List.nil_append]
  · generalize ((ranking.take (ranking.length - limit)).filter fun u => !(u == k)) = dropped
    generalize hkept : (ranking.rtake limit).filter (fun u => !(u == k)) = kept at hone
    rw [List.rtake, List.length_append, List.rtake]
    have hlen : dropped.length + (kept ++ [k]).length - limit =
        dropped.length + ((kept ++ [k]).length - limit) := by
      rw [List.length_append, List.length_singleton]
      omega
    rw [hlen, List.drop_length_add_append]

theorem latest_congr (h : History κ ν) {k k' : κ} (hk : (k == k') = true) :
    h.latest k = h.latest k' := by
  unfold History.latest
  congr 2
  funext p
  exact BEq.congr_right hk

omit [EquivBEq κ] in
/-- The latest value of a key after an assignment. -/
theorem latest_put (h : History κ ν) (limit : Nat) (k k' : κ) (v : ν) :
    (h.after limit (.put k v)).latest k' = if k == k' then some v else h.latest k' := by
  unfold History.after History.latest
  rw [List.reverse_concat, List.find?_cons]
  cases k == k' <;> rfl

/-- A related pair stands in both lists in the same place, so both sides lose it together. -/
theorem forall₂_eraseP {α β : Type} {R : α → β → Prop} {p : α → Bool} {q : β → Bool} {as : List α}
    {bs : List β} (h : List.Forall₂ R as bs) (hpq : ∀ a b, R a b → p a = q b) :
    List.Forall₂ R (as.eraseP p) (bs.eraseP q) := by
  induction h with
  | nil => exact .nil
  | cons hab htail ih =>
    rw [List.eraseP_cons, List.eraseP_cons, hpq _ _ hab]
    cases q _ with
    | true => exact htail
    | false => exact .cons hab ih

/-- A lookup answers as the reference does. -/
theorem Mirrors.get? {h : History κ ν} {limit : Nat} {entries : List (κ × ν)}
    (hm : Mirrors h limit entries) (k : κ) : get? entries k = h.answer limit k := by
  unfold Mirrors at hm
  unfold Lru.get? History.answer
  generalize h.held limit = held at hm
  induction hm with
  | nil => rfl
  | @cons entry u _ _ hentry _ ih =>
    have hkey : (entry.1 == k) = (u == k) := BEq.congr_left hentry.1
    rw [List.find?_cons, List.any_cons, hkey]
    cases huk : u == k with
    | true =>
      have hlatest := latest_congr h huk
      rw [hentry.2] at hlatest
      simp [← hlatest]
    | false => simpa using ih

/-- Moving the entry of a key to the end is what a use demands. -/
theorem Mirrors.touch {h h' : History κ ν} {limit : Nat} (hlimit : 1 ≤ limit)
    {entries : List (κ × ν)} (hm : Mirrors h limit entries) {k : κ} {entry : κ × ν}
    (huses : h'.uses = h.uses ++ [k]) (hlatest : ∀ k', (k == k') = false → h'.latest k' = h.latest k')
    (hentry : Holds h' entry k) :
    Mirrors h' limit (trim limit (entries.eraseP (fun e => e.1 == k) ++ [entry])) := by
  have herase : List.Forall₂ (Holds h) (entries.eraseP fun e => e.1 == k)
      ((h.held limit).eraseP fun u => u == k) :=
    forall₂_eraseP hm fun e u he => BEq.congr_left he.1
  have hothers : ∀ u ∈ (h.held limit).eraseP fun u => u == k, (k == u) = false := by
    have hdistinct : (h.held limit).Pairwise fun a b => (b == a) = false :=
      (distinct_lastOccurrences h.uses).sublist (List.drop_sublist _ _)
    intro u hu
    rw [← filter_eq_eraseP hdistinct, List.mem_filter] at hu
    rw [BEq.comm]
    simpa using hu.2
  have hkept : List.Forall₂ (Holds h') (entries.eraseP fun e => e.1 == k)
      ((h.held limit).eraseP fun u => u == k) := by
    generalize ((h.held limit).eraseP fun u => u == k) = held at herase hothers
    generalize (entries.eraseP fun e => e.1 == k) = others at herase
    induction herase with
    | nil => exact .nil
    | cons he _ ih =>
      rw [List.forall_mem_cons] at hothers
      exact .cons ⟨he.1, by rw [hlatest _ hothers.1, he.2]⟩ (ih hothers.2)
  have hall := List.rel_append hkept (.cons hentry .nil)
  unfold Mirrors
  rw [held_concat hlimit h h' k huses, trim_eq_rtake, List.rtake, List.rtake, hall.length_eq]
  exact List.forall₂_drop _ hall

/-- An assignment keeps the store in agreement. -/
theorem Mirrors.put {h : History κ ν} {limit : Nat} (hlimit : 1 ≤ limit) {entries : List (κ × ν)}
    (hm : Mirrors h limit entries) (k : κ) (v : ν) :
    Mirrors (h.after limit (.put k v)) limit
      (trim limit (moveToEnd (assign entries k v) k)) := by
  obtain ⟨key, hkey, hmove⟩ := moveToEnd_assign entries k v
  rw [hmove]
  refine hm.touch hlimit rfl (fun k' hk' => ?_) ⟨hkey, ?_⟩
  · rw [latest_put, hk']
    rfl
  · rw [latest_put, BEq.rfl]
    rfl

/-- A lookup that is answered keeps the store in agreement. -/
theorem Mirrors.hit {h : History κ ν} {limit : Nat} (hlimit : 1 ≤ limit) {entries : List (κ × ν)}
    (hm : Mirrors h limit entries) {k : κ} {v : ν} (hfound : Lru.get? entries k = some v) :
    Mirrors (h.after limit (.get k)) limit (moveToEnd entries k) := by
  have hbound : entries.length ≤ limit := by
    rw [hm.length_eq, History.held, List.rtake, List.length_drop]
    omega
  have hanswer := hm.get? k
  rw [hfound, History.answer] at hanswer
  have hheld : ((h.held limit).any fun u => u == k) = true := by
    by_contra hnone
    rw [if_neg hnone] at hanswer
    cases hanswer
  rw [if_pos hheld] at hanswer
  obtain ⟨entry, hfind, rfl⟩ := Option.map_eq_some_iff.mp hfound
  have hkey : (entry.1 == k) = true := List.find?_some (p := fun e : κ × ν => e.1 == k) hfind
  have hafter : h.after limit (.get k) = { h with uses := h.uses ++ [k] } := if_pos hheld
  have htouch : Mirrors (h.after limit (.get k)) limit
      (trim limit (entries.eraseP (fun e => e.1 == k) ++ [entry])) :=
    hm.touch hlimit (by rw [hafter]) (fun k' _ => by rw [hafter]; rfl)
      ⟨hkey, by rw [hafter]; exact hanswer.symm⟩
  have hmove : moveToEnd entries k = entries.eraseP (fun e => e.1 == k) ++ [entry] := by
    rw [moveToEnd, hfind]
    rfl
  rw [← hmove, trim_eq_rtake, List.rtake, length_moveToEnd, Nat.sub_eq_zero_of_le hbound,
    List.drop_zero] at htouch
  exact htouch

/-- A lookup without an answer changes neither the store nor the reference. -/
theorem Mirrors.miss {h : History κ ν} {limit : Nat} {entries : List (κ × ν)}
    (hm : Mirrors h limit entries) {k : κ} (hmissing : Lru.get? entries k = none) :
    h.after limit (.get k) = h := by
  unfold Mirrors at hm
  have hnone := List.find?_eq_none.mp (Option.map_eq_none_iff.mp hmissing)
  refine if_neg ?_
  generalize h.held limit = held at hm
  induction hm with
  | nil => simp
  | @cons entry u _ _ hentry _ ih =>
    have hkey : (entry.1 == k) = (u == k) := BEq.congr_left hentry.1
    rw [List.forall_mem_cons, hkey] at hnone
    rw [List.any_cons, Bool.or_eq_true, not_or]
    refine ⟨hnone.1, ih ?_ hnone.2⟩
    rw [Lru.get?, List.find?_eq_none.mpr hnone.2]
    rfl

omit [EquivBEq κ] in
theorem mirrors_empty (limit : Nat) : Mirrors (History.empty : History κ ν) limit [] := by
  simp [Mirrors, History.held, History.empty, lastOccurrences]

end Ranking

end CognitiveTree.Lru
