import CognitiveTree.Core.Firsts
import CognitiveTree.Core.Splitting
import CognitiveTree.Feedback.Reopening

/-!
# Revision notes along a run

The notes list each guidance of a node's children once, in the order of the children. A child that
failed keeps its critique, and new children stand behind the old ones, so the notes of a later
grant continue those of an earlier one.
-/

namespace CognitiveTree.Feedback

open Search

variable {K W : Type} [PyFloat K]

section Entries

/-- The guidance and the failure class of a node's critique, unless the guidance is blank. -/
def guidanceOf (text : PyVal K → Str) (metadata : Metadata K) : Option (Str × Str) :=
  match Dict.get? metadata critiqueMetadataKey with
  | some (.dict fields) =>
    match (Dict.get? fields (lit "guidance")).getD (.str []) with
    | .str guidance =>
      if Str.strip guidance = [] then none
      else some (Str.strip guidance,
        formatted text ((Dict.get? fields (lit "failure_class")).getD (.str (lit "unknown"))))
    | _ => none
  | _ => none

/-- The entry of a guidance in the notes. -/
def noteEntry (note : Str × Str) : Str := lit "- [" ++ note.2 ++ lit "] " ++ note.1

/-- The guidance among these children. -/
def guidanceAmong (text : PyVal K → Str) (metadata : Nat → Metadata K) (children : List Nat) :
    List (Str × Str) := children.filterMap fun c => guidanceOf text (metadata c)

/-- Compiled lines are the entries of the guidance that was not seen before. -/
theorem noteLines_eq {text : PyVal K → Str} {metadata : Nat → Metadata K} {children : List Nat}
    {seen lines : List Str} (h : noteLines text metadata children seen = .ok lines) :
    lines = (firsts Prod.fst (guidanceAmong text metadata children) seen).map noteEntry := by
  induction children generalizing seen lines with
  | nil =>
    cases h
    rfl
  | cons c children ih =>
    have hskip : guidanceOf text (metadata c) = none →
        guidanceAmong text metadata (c :: children) = guidanceAmong text metadata children :=
      fun hnone => List.filterMap_cons_none hnone
    rw [noteLines] at h
    cases hcritique : Dict.get? (metadata c) critiqueMetadataKey with
    | none =>
      rw [hcritique] at h
      rw [hskip (by rw [guidanceOf, hcritique])]
      exact ih h
    | some critique =>
      rw [hcritique] at h
      dsimp only at h
      split at h
      · obtain ⟨fields, hfields, hread⟩ := exists_of_bind_eq_ok h
        obtain ⟨guidance, hguidance, hrest⟩ := exists_of_bind_eq_ok hread
        obtain ⟨value, hvalue, rfl⟩ : ∃ value,
            (Dict.get? fields (lit "guidance")).getD (.str []) = .str value ∧
              Str.strip value = guidance := by
          cases hfield : (Dict.get? fields (lit "guidance")).getD (.str []) with
          | str value =>
            rw [hfield] at hguidance
            exact ⟨value, rfl, Except.ok.inj hguidance⟩
          | _ =>
            rw [hfield] at hguidance
            cases hguidance
        obtain rfl : critique = .dict fields := by
          cases critique with
          | dict items =>
            cases hfields
            rfl
          | _ => cases hfields
        have hnote : guidanceOf text (metadata c) = if Str.strip value = [] then none
            else some (Str.strip value, formatted text
              ((Dict.get? fields (lit "failure_class")).getD (.str (lit "unknown")))) := by
          rw [guidanceOf, hcritique]
          dsimp only
          rw [hvalue]
        by_cases hblank : Str.strip value = []
        · rw [if_pos (.inl hblank)] at hrest
          rw [if_pos hblank] at hnote
          rw [hskip hnote]
          exact ih hrest
        · rw [if_neg hblank] at hnote
          have hcons : guidanceAmong text metadata (c :: children) =
              (Str.strip value, formatted text
                ((Dict.get? fields (lit "failure_class")).getD (.str (lit "unknown")))) ::
                guidanceAmong text metadata children := List.filterMap_cons_some hnote
          rw [hcons, firsts]
          by_cases hknown : Str.strip value ∈ seen
          · rw [if_pos (.inr hknown)] at hrest
            rw [if_pos hknown]
            exact ih hrest
          · rw [if_neg (not_or.mpr ⟨hblank, hknown⟩)] at hrest
            rw [if_neg hknown]
            obtain ⟨others, hothers, hlines⟩ := exists_of_bind_eq_ok hrest
            cases hlines
            rw [ih hothers]
            rfl
      · rename_i hfalsy
        rw [hskip ?_]
        · exact ih h
        · rw [guidanceOf, hcritique]
          cases critique with
          | dict items =>
            cases items with
            | nil => rfl
            | cons item items => exact absurd rfl hfalsy
          | _ => rfl

/-- Compiled notes have one entry for each guidance of the children's critiques, in the order in
which it is first seen. -/
theorem notes_of_compile {text : PyVal K → Str} {arena : Arena K} {metadata : Nat → Metadata K}
    {n : Nat} {notes : Str} (h : compileRevisionNotes text arena metadata n = .ok notes) :
    notes = Str.join (lit "\n")
      ((firsts Prod.fst (guidanceAmong text metadata (arena.node n).children) []).map noteEntry) := by
  obtain ⟨lines, hlines, h⟩ := exists_of_bind_eq_ok h
  cases h
  rw [noteLines_eq hlines]

omit [PyFloat K] in
/-- Joined entries of visible guidance begin with a dash and end as the last guidance does. -/
theorem exists_of_noteEntries {notes : List (Str × Str)} (hne : notes ≠ [])
    (hstripped : ∀ note ∈ notes, Str.strip note.1 = note.1 ∧ note.1 ≠ []) :
    ∃ middle last, Str.join (lit "\n") (notes.map noteEntry) = 45 :: middle ++ last ∧
      Str.strip last = last ∧ last ≠ [] := by
  induction notes with
  | nil => exact absurd rfl hne
  | cons note notes ih =>
    cases notes with
    | nil =>
      obtain ⟨hstrip, hvisible⟩ := hstripped note (List.mem_cons_self ..)
      exact ⟨lit " [" ++ note.2 ++ lit "] ", note.1, rfl, hstrip, hvisible⟩
    | cons next notes =>
      obtain ⟨middle, last, hjoin, hlast⟩ := ih (List.cons_ne_nil _ _) fun note hmem =>
        hstripped note (List.mem_cons_of_mem _ hmem)
      refine ⟨lit " [" ++ note.2 ++ lit "] " ++ note.1 ++ lit "\n" ++ 45 :: middle, last, ?_, hlast⟩
      rw [List.map_cons, List.map_cons, Str.join_cons_cons, ← List.map_cons, hjoin]
      simp [noteEntry, lit, CodePoint.ofChar]


omit [PyFloat K] in
/-- Guidance is stripped, and not blank. -/
theorem stripped_of_mem_guidance {text : PyVal K → Str} {metadata : Nat → Metadata K}
    {children : List Nat} {note : Str × Str} (h : note ∈ guidanceAmong text metadata children) :
    Str.strip note.1 = note.1 ∧ note.1 ≠ [] := by
  obtain ⟨c, -, hnote⟩ := List.mem_filterMap.mp h
  unfold guidanceOf at hnote
  split at hnote
  · split at hnote
    · split at hnote
      · cases hnote
      · rename_i hvisible
        cases hnote
        exact ⟨Str.strip_strip _, hvisible⟩
    · cases hnote
  · cases hnote

/-- Compiled notes have no white space at their ends. -/
theorem strip_of_compile {text : PyVal K → Str} {arena : Arena K} {metadata : Nat → Metadata K}
    {n : Nat} {notes : Str} (h : compileRevisionNotes text arena metadata n = .ok notes) :
    Str.strip notes = notes := by
  have hnotes := notes_of_compile h
  by_cases hne : firsts Prod.fst (guidanceAmong text metadata (arena.node n).children) [] = []
  · rw [hnotes, hne]
    rfl
  · obtain ⟨middle, last, hjoin, hstrip, hlast⟩ := exists_of_noteEntries hne fun note hmem =>
      stripped_of_mem_guidance ((firsts_sublist Prod.fst _ _).subset hmem)
    rw [hnotes, hjoin]
    exact Str.strip_eq_self (by decide) hstrip hlast middle

/-- The later notes of a node continue the earlier ones on a new line. A policy that asks for no
guidance may have granted a revision without notes, which any notes continue. -/
def Continues (p : BoundedRevisionPolicy) (earlier later : Str) : Prop :=
  later = earlier ∨ (∃ more, later = earlier ++ lit "\n" ++ more) ∨
    p.requireGuidance = false ∧ earlier = []

theorem join_append (separator : Str) {lines more : List Str} (hlines : lines ≠ [])
    (hmore : more ≠ []) : Str.join separator (lines ++ more) =
      Str.join separator lines ++ separator ++ Str.join separator more := by
  induction lines with
  | nil => exact absurd rfl hlines
  | cons line lines ih =>
    cases lines with
    | nil =>
      obtain ⟨next, more, rfl⟩ := List.exists_cons_of_ne_nil hmore
      rfl
    | cons line' lines =>
      have hrest := ih (by simp)
      rw [List.cons_append] at hrest
      change line ++ separator ++ Str.join separator (line' :: (lines ++ more)) =
        (line ++ separator ++ Str.join separator (line' :: lines)) ++ separator ++ _
      rw [hrest]
      simp

/-- Notes over more lines continue those over fewer, when the policy allows these to be empty. -/
theorem continues_of_prefix {p : BoundedRevisionPolicy} {lines lines' : List Str}
    (h : lines <+: lines')
    (hguided : p.requireGuidance = true → Str.join (lit "\n") lines ≠ []) :
    Continues p (Str.join (lit "\n") lines) (Str.join (lit "\n") lines') := by
  obtain ⟨more, rfl⟩ := h
  by_cases hlines : lines = []
  · subst hlines
    exact .inr (.inr ⟨Bool.eq_false_iff.mpr fun htrue => hguided htrue rfl, rfl⟩)
  · by_cases hmore : more = []
    · subst hmore
      exact .inl (by rw [List.append_nil])
    · exact .inr (.inl ⟨_, join_append _ hlines hmore⟩)

end Entries

section Children

variable {ctl : TreeSearchController K W} {rt : Runtime K W}

/-- A child is diagnosed when it was just judged, and then it was pending. -/
theorem Step.pending_of_examined {c c' : Stage K × RunState K W} (hs : Step ctl rt c c')
    (hi : Inv ctl rt c) {d : Nat} (h : examined c'.1 = some d) :
    (c.2.tree.arena.node d).status = .pending := by
  cases hs
  case judge =>
    cases h
    exact (hi.working _ rfl).pending _ (List.mem_cons_self ..)
  case advance edge _ _ => cases edge <;> cases h
  case advanceRaised edge _ _ => cases edge <;> cases h
  case revise granted _ _ _ _ _ _ => cases granted <;> cases h
  case pollCancel | pollDeadline =>
    dsimp only at h
    split at h <;> cases h
  all_goals cases h

/-- A critique is stored for the child under diagnosis only. -/
theorem Step.critique_kept {c c' : Stage K × RunState K W} (hs : Step ctl rt c c')
    (hi : Inv ctl rt c) (hspares : ∀ policy, ctl.Spares critiqueMetadataKey policy) {r : Nat}
    (hr : r < c.2.tree.arena.size) (hexamined : examined c.1 ≠ some r) :
    c'.2.entry r critiqueMetadataKey = c.2.entry r critiqueMetadataKey := by
  rcases hs.metadata_cases hi with ⟨policy, hask⟩ | hquiet
  · by_cases hcritic : policy = .critic
    · subst hcritic
      cases hask with
      | critic hpolicy hreply => exact hreply ▸ hspares .critic _ hpolicy _ _ _ _ r
      | @critique s n d v todo solution valued st critic reply critique hpolicy hreply answer =>
        have hne : r ≠ d := fun he => hexamined (by rw [he]; rfl)
        have hkept : Dict.get? (reply.metadata r) critiqueMetadataKey =
            Dict.get? (s.metadata r) critiqueMetadataKey :=
          hreply ▸ hspares .critic _ hpolicy _ _ _ _ r
        change Dict.get? (if r = d then _ else reply.metadata r) critiqueMetadataKey = _
        rw [if_neg hne]
        exact hkept
    · exact hask.entry_eq (hspares policy) (fun he => absurd he hcritic) r
  · exact congrArg (Dict.get? · critiqueMetadataKey) (hquiet.old r hr)

/-- What stays as it was of a node whose children have failed. -/
structure Kept (n : Nat) (c₀ c : Stage K × RunState K W) : Prop where
  children : (c₀.2.tree.arena.node n).children <+: (c.2.tree.arena.node n).children
  alloc : n < c.2.tree.arena.size
  failed : ∀ d ∈ (c₀.2.tree.arena.node n).children, d < c.2.tree.arena.size ∧
    (c.2.tree.arena.node d).isLive = false ∧ examined c.1 ≠ some d ∧
    c.2.entry d critiqueMetadataKey = c₀.2.entry d critiqueMetadataKey

theorem Kept.step {n : Nat} {c₀ c c' : Stage K × RunState K W} (h : Kept n c₀ c)
    (hs : Step ctl rt c c') (hi : Inv ctl rt c)
    (hspares : ∀ policy, ctl.Spares critiqueMetadataKey policy) : Kept n c₀ c' where
  children := h.children.trans (hs.children_prefix hi h.alloc)
  alloc := h.alloc.trans_le (hs.frozen hi).size_le
  failed d hd := by
    obtain ⟨hsize, hdead, hexamined, hentry⟩ := h.failed d hd
    refine ⟨hsize.trans_le (hs.frozen hi).size_le, ?_, fun he => ?_, ?_⟩
    · have hstatus := (hs.frozen hi).status d hsize hdead
      change (c'.2.tree.arena.node d).status.isLive = false
      rw [hstatus]
      exact hdead
    · have hpending := Step.pending_of_examined hs hi he
      change (c.2.tree.arena.node d).status.isLive = false at hdead
      rw [hpending] at hdead
      cases hdead
    · rw [Step.critique_kept hs hi hspares hsize hexamined, hentry]

theorem Kept.steps {task : Str} {draws n : Nat} {c₀ c c' : Stage K × RunState K W}
    (h : Kept n c₀ c) (hr : Reach ctl rt task draws c) (hs : Steps ctl rt c c')
    (hspares : ∀ policy, ctl.Spares critiqueMetadataKey policy) : Kept n c₀ c' := by
  induction hs with
  | refl => exact h
  | @tail b c' hb hbc ih =>
    obtain ⟨world, hstart⟩ := hr
    exact ih.step hbc (Reach.inv ⟨world, hstart.trans hb⟩) hspares

/-- The guidance of the failed children is read again, in front of that of new children. -/
theorem Kept.guidance {n : Nat} {c₀ c : Stage K × RunState K W} (h : Kept n c₀ c)
    (text : PyVal K → Str) :
    guidanceAmong text c₀.2.metadata (c₀.2.tree.arena.node n).children <+:
      guidanceAmong text c.2.metadata (c.2.tree.arena.node n).children := by
  obtain ⟨new, hnew⟩ := h.children
  have hsame : guidanceAmong text c₀.2.metadata (c₀.2.tree.arena.node n).children =
      guidanceAmong text c.2.metadata (c₀.2.tree.arena.node n).children := by
    apply List.filterMap_congr
    intro d hd
    have hentry := (h.failed d hd).2.2.2
    unfold RunState.entry at hentry
    unfold guidanceOf
    rw [hentry]
  rw [hsame, ← hnew, guidanceAmong, guidanceAmong, List.filterMap_append]
  exact List.prefix_append _ _

end Children

section Grants

variable {ctl : TreeSearchController K W} {rt : Runtime K W} {task : Str} {draws : Nat}

variable [PyNumber K] {p : BoundedRevisionPolicy} {text : PyVal K → Str}

/-- A granted revision: the notes that were compiled in front of it stand in the node's metadata
behind it. -/
structure Grant (ctl : TreeSearchController K W) (rt : Runtime K W) (p : BoundedRevisionPolicy)
    (text : PyVal K → Str) (n : Nat) (notes : Str) (c c' : Stage K × RunState K W) : Prop where
  step : Step ctl rt c c'
  logged : c'.2.log = .revise n (.ok true) :: c.2.log
  compiled : compileRevisionNotes text c.2.tree.arena c.2.metadata n = .ok notes
  stored : c'.2.entry n revisionNotesKey = some (.str notes)
  others : ∀ x ≠ n, c'.2.metadata x = c.2.metadata x
  alloc : n < c.2.tree.arena.size
  selecting : c.1 = .selecting
  failed : ∀ d ∈ (c.2.tree.arena.node n).children, (c.2.tree.arena.node d).isLive = false
  guided : p.requireGuidance = true → notes ≠ []

/-- A request is refused, and then the metadata are what they were, or it is a grant. -/
theorem Step.revise_cases {c c' : Stage K × RunState K W} (hs : Step ctl rt c c')
    {newest : List (Obs K)} {n : Nat} {answer : Except Exc Bool}
    (hlog : c'.2.log = newest ++ .revise n answer :: c.2.log)
    (hp : ctl.revisionPolicy = some (p.revise text)) :
    newest = [] ∧ (answer ≠ .ok true ∧ c'.2.metadata = c.2.metadata ∨
      answer = .ok true ∧ ∃ notes, Grant ctl rt p text n notes c c') := by
  obtain ⟨hstage, alloc, -, -, policy, hpolicy, hanswer, hmetadata, -, hnil⟩ :=
    hs.revise_written hlog
  cases hp.symm.trans hpolicy
  refine ⟨hnil, ?_⟩
  rcases p.revise_cases text n c.2.tree.arena c.2.metadata c.2.world with
    ⟨reply, hne, hrun⟩ | ⟨notes, attempts, heligible, hrun⟩
  · rw [hrun] at hmetadata hanswer
    exact .inl ⟨hanswer ▸ hne, hmetadata⟩
  · rw [hrun] at hmetadata hanswer
    obtain ⟨-, hfailed, -, -, hcompiled, hguided⟩ := BoundedRevisionPolicy.eligible_eq_some.mp heligible
    subst hnil
    subst hanswer
    refine .inr ⟨rfl, notes, hs, hlog, hcompiled, ?_, fun x hx => ?_, alloc, hstage,
      fun d hd => (hfailed d hd).1, fun htrue hnil => hguided ⟨htrue, hnil⟩⟩
    case refine_2 =>
      rw [hmetadata]
      exact if_neg hx
    have hentry : Dict.get? (BoundedRevisionPolicy.commit c.2.metadata n notes attempts n)
        revisionNotesKey = some (.str notes) := by
      rw [BoundedRevisionPolicy.commit, if_pos rfl, Dict.get?_set, if_neg (by decide),
        Dict.get?_set, if_pos rfl]
    rw [RunState.entry, hmetadata]
    exact hentry

/-- A grant in the log was made by a step of the run. -/
theorem Grant.of_log (hp : ctl.revisionPolicy = some (p.revise text))
    {c : Stage K × RunState K W} (h : Reach ctl rt task draws c) {newer older : List (Obs K)}
    {n : Nat} (hlog : c.2.log = newer ++ .revise n (.ok true) :: older) :
    ∃ c₀ c₁ notes, Reach ctl rt task draws c₀ ∧ c₀.2.log = older ∧
      Grant ctl rt p text n notes c₀ c₁ ∧ Steps ctl rt c₁ c := by
  obtain ⟨c₀, c₁, newest, h₀, rfl, hlog₁, -, hs, hrest⟩ := h.trace_step hlog (by simp)
  obtain ⟨-, hcases⟩ := Step.revise_cases hs hlog₁ hp
  rcases hcases with ⟨hne, -⟩ | ⟨-, notes, hgrant⟩
  · exact absurd rfl hne
  · exact ⟨c₀, c₁, notes, h₀, rfl, hgrant, hrest⟩

/-- The notes of a grant stay in the metadata of its node until the next grant. -/
theorem Grant.stored_until (hp : ctl.revisionPolicy = some (p.revise text))
    (hsole : ctl.SoleWriter revisionNotesKey .revision) {n : Nat} {notes : Str}
    {c₀ c₁ c : Stage K × RunState K W} (hgrant : Grant ctl rt p text n notes c₀ c₁)
    (h : Reach ctl rt task draws c₀) (hs : Steps ctl rt c₁ c)
    (hlast : ∀ newer, c.2.log = newer ++ c₁.2.log → .revise n (.ok true) ∉ newer) :
    n < c.2.tree.arena.size ∧ c.2.entry n revisionNotesKey = some (.str notes) := by
  have halloc : n < c₁.2.tree.arena.size :=
    hgrant.alloc.trans_le (hgrant.step.frozen h.inv).size_le
  replace h := h.step hgrant.step
  induction hs with
  | refl => exact ⟨halloc, hgrant.stored⟩
  | @tail b c hb hbc ih =>
    have hreach := h.steps hb
    obtain ⟨newer, hnewer⟩ := h.log_extends hb
    obtain ⟨newest, hnewest⟩ := hbc.log_extends hreach.inv
    have hold : .revise n (.ok true) ∉ newest ++ newer := by
      apply hlast
      rw [hnewest, hnewer, List.append_assoc]
    obtain ⟨hsize, hentry⟩ := ih fun newer' hnewer' hmem => by
      obtain rfl : newer' = newer := List.append_cancel_right (hnewer'.symm.trans hnewer)
      exact hold (List.mem_append_right _ hmem)
    refine ⟨hsize.trans_le (hbc.frozen hreach.inv).size_le, ?_⟩
    rw [← hentry]
    by_cases hask : Asked ctl .revision b c
    · obtain ⟨m, answer, hlog⟩ : ∃ m answer, c.2.log = [] ++ .revise m answer :: b.2.log := by
        cases hask
        exact ⟨_, _, rfl⟩
      obtain ⟨-, ⟨-, hmetadata⟩ | ⟨rfl, later, hlater⟩⟩ := Step.revise_cases hbc hlog hp
      · rw [RunState.entry, hmetadata]
        rfl
      · have hne : n ≠ m := by
          rintro rfl
          have hsame : newest ++ b.2.log = [.revise n (.ok true)] ++ b.2.log := hnewest.symm.trans hlog
          apply hold
          rw [List.append_cancel_right hsame]
          exact List.mem_append_left _ (List.mem_singleton_self _)
        rw [RunState.entry, hlater.others n hne]
        rfl
    · exact (hbc.entry_eq hreach.inv hsole (.inr (by decide)) hask).1 n hsize

/-- Behind the last grant of a node in the log its notes are the ones that are stored. -/
theorem Grant.last_of_log (hp : ctl.revisionPolicy = some (p.revise text))
    (hsole : ctl.SoleWriter revisionNotesKey .revision) {c : Stage K × RunState K W}
    (h : Reach ctl rt task draws c) {recent oldest : List (Obs K)} {n : Nat}
    (hlog : c.2.log = recent ++ .revise n (.ok true) :: oldest)
    (hnone : .revise n (.ok true) ∉ recent) :
    ∃ c₀ c₁ notes, Reach ctl rt task draws c₀ ∧ c₀.2.log = oldest ∧
      Grant ctl rt p text n notes c₀ c₁ ∧ c.2.entry n revisionNotesKey = some (.str notes) := by
  obtain ⟨c₀, c₁, notes, h₀, hlog₀, hgrant, hsteps⟩ := Grant.of_log hp h hlog
  refine ⟨c₀, c₁, notes, h₀, hlog₀, hgrant, (hgrant.stored_until hp hsole h₀ hsteps ?_).2⟩
  intro newer hnewer
  rw [hgrant.logged, hlog₀] at hnewer
  obtain rfl : newer = recent := List.append_cancel_right (hnewer.symm.trans hlog)
  exact hnone

omit [PyNumber K] in
/-- The notes of a later grant of a node continue those of an earlier one. -/
theorem Grant.continues (hspares : ∀ policy, ctl.Spares critiqueMetadataKey policy) {n : Nat}
    {earlier later : Str} {c₁ c₁' c₂ c₂' : Stage K × RunState K W}
    (h : Reach ctl rt task draws c₁) (h₁ : Grant ctl rt p text n earlier c₁ c₁')
    (hs : Steps ctl rt c₁' c₂) (h₂ : Grant ctl rt p text n later c₂ c₂') :
    Continues p earlier later := by
  have hguided := notes_of_compile h₁.compiled ▸ h₁.guided
  have hstart : Kept n c₁ c₁ := by
    refine ⟨List.prefix_rfl, h₁.alloc, fun d hd => ⟨?_, h₁.failed d hd, ?_, rfl⟩⟩
    · exact (Arena.mem_children.mp hd).1
    · rw [h₁.selecting]
      exact fun he => by cases he
  have hkept := (hstart.step h₁.step h.inv hspares).steps (h.step h₁.step) hs hspares
  obtain ⟨new, hnew⟩ := hkept.guidance text
  rw [notes_of_compile h₁.compiled, notes_of_compile h₂.compiled, ← hnew]
  refine continues_of_prefix ?_ hguided
  obtain ⟨more, hmore⟩ := firsts_prefix_append Prod.fst
    (guidanceAmong text c₁.2.metadata (c₁.2.tree.arena.node n).children) new []
  rw [← hmore, List.map_append]
  exact List.prefix_append _ _

omit [PyNumber K] in
/-- A stored critique was an answer of the critic. -/
theorem critique_logged (hspares : ∀ policy, ctl.Spares critiqueMetadataKey policy)
    {c : Stage K × RunState K W} (h : Reach ctl rt task draws c) :
    ∀ d, d < c.2.tree.arena.size → c.2.entry d critiqueMetadataKey ≠ none →
      ∃ critique, .critique d (.ok (some critique)) ∈ c.2.log := by
  refine h.strengthen (P := fun c => ∀ d, d < c.2.tree.arena.size →
    c.2.entry d critiqueMetadataKey ≠ none → ∃ critique, .critique d (.ok (some critique)) ∈ c.2.log)
    (fun world d _ hentry => absurd rfl hentry) fun c c' hr hc hs d hd hentry => ?_
  have hi := hr.inv
  obtain ⟨newer, hlog⟩ := hs.log_extends hi
  have hold : d < c.2.tree.arena.size →
      c'.2.entry d critiqueMetadataKey = c.2.entry d critiqueMetadataKey →
      ∃ critique, .critique d (.ok (some critique)) ∈ c'.2.log := by
    intro hsize hsame
    rw [hsame] at hentry
    obtain ⟨critique, hmem⟩ := hc d hsize hentry
    exact ⟨critique, by rw [hlog]; exact List.mem_append_right _ hmem⟩
  rcases hs.metadata_cases hi with ⟨policy, hask⟩ | hquiet
  · have hsize : d < c.2.tree.arena.size := by rwa [hask.tree_eq] at hd
    by_cases hexamined : examined c.1 = some d
    · cases hask
      case critique critique _ _ answer =>
        cases hexamined
        exact ⟨critique, by rw [← answer]; exact List.mem_cons_self ..⟩
      case critic hpolicy hreply _ =>
        exact hold hsize (hreply ▸ hspares .critic _ hpolicy _ _ _ _ d)
      all_goals cases hexamined
    · exact hold hsize (Step.critique_kept hs hi hspares hsize hexamined)
  · by_cases hsize : d < c.2.tree.arena.size
    · exact hold hsize (congrArg (Dict.get? · critiqueMetadataKey) (hquiet.old d hsize))
    · rw [RunState.entry, hquiet.new d (Nat.not_lt.mp hsize) hd] at hentry
      exact absurd rfl hentry

/-- Stored notes are those of a grant. -/
theorem notes_granted (hp : ctl.revisionPolicy = some (p.revise text))
    (hsole : ctl.SoleWriter revisionNotesKey .revision) {c : Stage K × RunState K W}
    (h : Reach ctl rt task draws c) : ∀ n, n < c.2.tree.arena.size →
      ∀ value, c.2.entry n revisionNotesKey = some value → ∃ c₀ c₁ notes,
        Reach ctl rt task draws c₀ ∧ Grant ctl rt p text n notes c₀ c₁ ∧ Steps ctl rt c₁ c ∧
          value = .str notes := by
  refine h.strengthen (P := fun c => ∀ n, n < c.2.tree.arena.size →
    ∀ value, c.2.entry n revisionNotesKey = some value → ∃ c₀ c₁ notes,
      Reach ctl rt task draws c₀ ∧ Grant ctl rt p text n notes c₀ c₁ ∧ Steps ctl rt c₁ c ∧
        value = .str notes) (fun world n _ value hentry => by cases hentry)
    fun c c' hr hc hs n hn value hentry => ?_
  have hi := hr.inv
  have hold : n < c.2.tree.arena.size →
      c'.2.entry n revisionNotesKey = c.2.entry n revisionNotesKey → ∃ c₀ c₁ notes,
        Reach ctl rt task draws c₀ ∧ Grant ctl rt p text n notes c₀ c₁ ∧ Steps ctl rt c₁ c' ∧
          value = .str notes := by
    intro hsize hsame
    obtain ⟨c₀, c₁, notes, h₀, hgrant, hsteps, hvalue⟩ := hc n hsize value (hsame ▸ hentry)
    exact ⟨c₀, c₁, notes, h₀, hgrant, hsteps.tail hs, hvalue⟩
  by_cases hask : Asked ctl .revision c c'
  · have hsize : n < c.2.tree.arena.size := by rwa [hask.tree_eq] at hn
    obtain ⟨m, answer, hlog⟩ : ∃ m answer, c'.2.log = [] ++ .revise m answer :: c.2.log := by
      cases hask
      exact ⟨_, _, rfl⟩
    obtain ⟨-, ⟨-, hmetadata⟩ | ⟨-, notes, hgrant⟩⟩ := Step.revise_cases hs hlog hp
    · exact hold hsize (by rw [RunState.entry, hmetadata]; rfl)
    · by_cases hnm : n = m
      · subst hnm
        refine ⟨c, c', notes, hr, hgrant, .refl, ?_⟩
        rw [hgrant.stored] at hentry
        exact (Option.some.inj hentry).symm
      · exact hold hsize (by rw [RunState.entry, hgrant.others n hnm]; rfl)
  · obtain ⟨hkept, hnew⟩ := hs.entry_eq hi hsole (.inr (by decide)) hask
    by_cases hsize : n < c.2.tree.arena.size
    · exact hold hsize (hkept n hsize)
    · rw [hnew n (Nat.not_lt.mp hsize) hn] at hentry
      cases hentry

/-- The entry is an answer of the critic with a critique. -/
def Obs.isDiagnosis : Obs K → Bool
  | .critique _ (.ok (some _)) => true
  | _ => false

omit [PyNumber K] in
/-- Without a critique in the log the notes are empty. -/
theorem Grant.notes_eq_nil (hspares : ∀ policy, ctl.Spares critiqueMetadataKey policy) {n : Nat}
    {notes : Str} {c c' : Stage K × RunState K W} (h : Reach ctl rt task draws c)
    (hgrant : Grant ctl rt p text n notes c c')
    (hsilent : (c.2.log.all fun o => !Obs.isDiagnosis o) = true) : notes = [] := by
  have hnone : guidanceAmong text c.2.metadata (c.2.tree.arena.node n).children = [] := by
    apply List.filterMap_eq_nil_iff.mpr
    intro d hd
    by_cases hentry : c.2.entry d critiqueMetadataKey = none
    · unfold RunState.entry at hentry
      rw [guidanceOf, hentry]
    · obtain ⟨critique, hmem⟩ := critique_logged hspares h d (Arena.mem_children.mp hd).1 hentry
      have hsays := List.all_eq_true.mp hsilent _ hmem
      cases hsays
  rw [notes_of_compile hgrant.compiled, hnone]
  rfl

variable (ctl rt p text) (task : Str) (draws : Nat) (world : W)

/-- In every run with bounded revision, compiled notes have one entry for each guidance of the
children's critiques in the order in which it is first seen; a refused request leaves the metadata
as they are, a granted one stores the notes; and the notes of a later grant of a node continue those
of an earlier one. -/
theorem run_notes_grow (hp : ctl.revisionPolicy = some (p.revise text))
    (hspares : ∀ policy, ctl.Spares critiqueMetadataKey policy) :
    (∀ (arena : Arena K) (metadata : Nat → Metadata K) n notes,
      compileRevisionNotes text arena metadata n = .ok notes →
        ∃ entries, notes = Str.join (lit "\n") (entries.map noteEntry) ∧
          FirstOfEach Prod.fst entries (guidanceAmong text metadata (arena.node n).children)) ∧
    (∀ newer n answer older,
      (finalState (ctl.run rt task draws world)).log = newer ++ .revise n answer :: older →
      ∃ c c', Reach ctl rt task draws c ∧ c.2.log = older ∧ Step ctl rt c c' ∧
        c'.2.log = .revise n answer :: older ∧
        (answer ≠ .ok true → c'.2.metadata = c.2.metadata) ∧
        (answer = .ok true → ∃ notes, Grant ctl rt p text n notes c c')) ∧
    ∀ newer n between older,
      (finalState (ctl.run rt task draws world)).log =
        newer ++ .revise n (.ok true) :: (between ++ .revise n (.ok true) :: older) →
      ∃ c₁ c₁' c₂ c₂' earlier later, Reach ctl rt task draws c₁ ∧ c₁.2.log = older ∧
        Grant ctl rt p text n earlier c₁ c₁' ∧ Steps ctl rt c₁' c₂ ∧
        c₂.2.log = between ++ .revise n (.ok true) :: older ∧
        Grant ctl rt p text n later c₂ c₂' ∧
        (∃ st, Steps ctl rt c₂' (st, finalState (ctl.run rt task draws world))) ∧
        Continues p earlier later := by
  obtain ⟨st, hreach, -⟩ := run_between ctl rt task draws world
  refine ⟨fun arena metadata n notes hnotes => ?_, fun newer n answer older hlog => ?_,
    fun newer n between older hlog => ?_⟩
  · exact ⟨_, notes_of_compile hnotes, firstOfEach_firsts Prod.fst _⟩
  · obtain ⟨c, c', newest, hc, rfl, hlog', -, hs, -⟩ := hreach.trace_step hlog (by simp)
    obtain ⟨rfl, hcases⟩ := Step.revise_cases hs hlog' hp
    refine ⟨c, c', hc, rfl, hs, hlog', fun hne => ?_, fun heq => ?_⟩
    · exact (hcases.resolve_right fun hgrant => hne hgrant.1).2
    · exact (hcases.resolve_left fun hrefused => hrefused.1 heq).2
  · obtain ⟨c₂, c₂', later, h₂, hlog₂, hgrant₂, hend⟩ := Grant.of_log hp hreach hlog
    obtain ⟨c₁, c₁', earlier, h₁, hlog₁, hgrant₁, hsteps⟩ := Grant.of_log hp h₂ hlog₂
    exact ⟨c₁, c₁', c₂, c₂', earlier, later, h₁, hlog₁, hgrant₁, hsteps, hlog₂, hgrant₂, ⟨st, hend⟩,
      hgrant₁.continues hspares h₁ hsteps hgrant₂⟩

end Grants

section Small

/-- A diagnosis with guidance. -/
def sortCritique : Critique ℚ := ⟨.assertion, [], lit "Sort.", 0, inUnit_zero⟩

/-- Two attempts, with or without notes. -/
def twoAttempts : BoundedRevisionPolicy := ⟨2, false, by decide⟩

def growingConfig : SearchConfig ℚ := { smallConfig with
  maxIterations := 3
  checked := by decide +kernel }

/-- Every candidate is rejected, and only the second one is diagnosed. -/
def growingController : TreeSearchController ℚ Unit where
  __ := pathController growingConfig (fun _ => []) fun _ => ⟨0, false, [], inUnit_zero⟩
  generator node _ arena metadata world :=
    ⟨.ok [if (arena.node node).children = [] then lit "first" else lit "second"], metadata, world⟩
  critic := some fun d arena metadata world =>
    ⟨.ok (if (arena.node d).content = lit "second" then some sortCritique else none), metadata, world⟩
  revisionPolicy := some (twoAttempts.revise fun _ => [])

/-- Only bounded revision writes metadata, and it leaves other keys than its own alone. -/
theorem growingController_spares {key : Str} {policy : Policy}
    (h : policy = .revision → key ≠ revisionNotesKey ∧ key ≠ revisionAttemptsKey) :
    growingController.Spares key policy := by
  cases policy with
  | generator => exact fun _ _ _ _ _ _ => rfl
  | evaluator => exact fun _ _ _ _ _ => rfl
  | critic =>
    intro critic hcritic
    cases hcritic
    exact fun _ _ _ _ _ => rfl
  | revision =>
    intro policy hpolicy n
    cases hpolicy
    exact BoundedRevisionPolicy.revise_leaves _ _ n (h rfl).1 (h rfl).2
  | reward =>
    intro model hmodel
    cases hmodel

theorem growingController_spares_critique (policy : Policy) :
    growingController.Spares critiqueMetadataKey policy :=
  growingController_spares fun _ => ⟨by decide, by decide⟩

/-- The end of a run with two grants for the root. -/
def growingEnd : RunState ℚ Unit :=
  finalState (growingController.run (Runtime.still fun _ _ => 0) (lit "task") 0 ())

theorem grantedIn_growingEnd : grantedIn growingEnd.log = [0, 0] := by decide +kernel

/-- The second grant of the small run continues the notes of the first one. -/
theorem run_notes_grow_small : ∃ c₁ c₁' c₂ c₂' earlier later,
    Grant growingController (Runtime.still fun _ _ => 0) twoAttempts (fun _ => []) 0 earlier c₁ c₁' ∧
      Grant growingController (Runtime.still fun _ _ => 0) twoAttempts (fun _ => []) 0 later c₂ c₂' ∧
      Continues twoAttempts earlier later := by
  obtain ⟨newer, rest, hlog, hrest⟩ := log_of_granted grantedIn_growingEnd
  obtain ⟨between, older, rfl, -⟩ := log_of_granted hrest
  obtain ⟨c₁, c₁', c₂, c₂', earlier, later, -, -, hgrant₁, -, -, hgrant₂, -, hcontinues⟩ :=
    (run_notes_grow growingController (Runtime.still fun _ _ => 0) twoAttempts (fun _ => [])
      (lit "task") 0 () rfl growingController_spares_critique).2.2 newer 0 between older hlog
  exact ⟨c₁, c₁', c₂, c₂', earlier, later, hgrant₁, hgrant₂, hcontinues⟩

/-- Without notes to begin with, the second notes do not follow a line end. -/
theorem run_notes_from_nothing : ∃ c₁ c₁' c₂ c₂',
    Reach growingController (Runtime.still fun _ _ => 0) (lit "task") 0 c₁ ∧
      Grant growingController (Runtime.still fun _ _ => 0) twoAttempts (fun _ => []) 0 [] c₁ c₁' ∧
      Steps growingController (Runtime.still fun _ _ => 0) c₁' c₂ ∧
      Grant growingController (Runtime.still fun _ _ => 0) twoAttempts (fun _ => []) 0
        (lit "- [assertion] Sort.") c₂ c₂' ∧
      ¬ (lit "- [assertion] Sort." = ([] : Str) ∨
        ∃ more, lit "- [assertion] Sort." = ([] : Str) ++ lit "\n" ++ more) := by
  have hp : growingController.revisionPolicy =
      some (twoAttempts.revise (W := Unit) fun _ : PyVal ℚ => []) := rfl
  have hsole : growingController.SoleWriter revisionNotesKey .revision := fun other hne =>
    growingController_spares fun he => absurd he hne
  obtain ⟨st, hreach, -⟩ : ∃ st, Reach growingController (Runtime.still fun _ _ => 0) (lit "task") 0
      (st, growingEnd) ∧ st.between = true :=
    run_between growingController (Runtime.still fun _ _ => 0) (lit "task") 0 ()
  have halloc : 0 < growingEnd.tree.arena.size := by decide +kernel
  have hstored : (growingEnd.entry 0 revisionNotesKey).map (formatted fun _ => []) =
      some (lit "- [assertion] Sort.") := by decide +kernel
  have hearly : (growingEnd.log.tails.all fun log =>
      !(grantedIn log).isEmpty || log.all fun o => !Obs.isDiagnosis o) = true := by decide +kernel
  have hsilent : ∀ newer older, growingEnd.log = newer ++ older → grantedIn older = [] →
      (older.all fun o => !Obs.isDiagnosis o) = true := by
    intro newer older hlog hnone
    have hcheck := List.all_eq_true.mp hearly older
      ((List.mem_tails _ _).mpr ⟨newer, hlog.symm⟩)
    simpa [hnone] using hcheck
  cases hentry : growingEnd.entry 0 revisionNotesKey with
  | none =>
    rw [hentry] at hstored
    cases hstored
  | some value =>
    obtain ⟨c₂, c₂', later, h₂, hgrant₂, hend, rfl⟩ :=
      notes_granted hp hsole hreach 0 halloc value hentry
    rw [hentry] at hstored
    obtain rfl : later = lit "- [assertion] Sort." := Option.some.inj hstored
    obtain ⟨newer, hlog⟩ := (h₂.step hgrant₂.step).log_extends hend
    rw [hgrant₂.logged] at hlog
    change growingEnd.log = _ at hlog
    have hgranted : grantedIn newer ++ 0 :: grantedIn c₂.2.log = [0, 0] := by
      have happend : grantedIn (newer ++ .revise 0 (.ok true) :: c₂.2.log) =
          grantedIn newer ++ grantedIn (.revise 0 (.ok true) :: c₂.2.log) := by
        unfold grantedIn
        exact List.filterMap_append
      rw [← grantedIn_growingEnd, hlog, happend]
      rfl
    cases hrest : grantedIn c₂.2.log with
    | nil =>
      -- the first grant has no notes
      have hlate : growingEnd.log = (newer ++ [.revise 0 (.ok true)]) ++ c₂.2.log := by
        rw [List.append_assoc]
        exact hlog
      have hnil := hgrant₂.notes_eq_nil growingController_spares_critique h₂
        (hsilent _ _ hlate hrest)
      exact absurd hnil (by decide)
    | cons n others =>
      have hlength := congrArg List.length hgranted
      rw [hrest, List.length_append, List.length_cons, List.length_cons] at hlength
      obtain ⟨hnewer, hothers⟩ : grantedIn newer = [] ∧ others = [] := by
        simp only [List.length_cons, List.length_nil] at hlength
        exact ⟨List.eq_nil_of_length_eq_zero (by omega), List.eq_nil_of_length_eq_zero (by omega)⟩
      obtain rfl : n = 0 := by
        rw [hrest, hnewer] at hgranted
        exact (List.cons.inj (List.cons.inj hgranted).2).1
      obtain ⟨between, older, hlog₂, holder⟩ := log_of_granted hrest
      obtain ⟨c₁, c₁', earlier, h₁, hlog₁, hgrant₁, hsteps⟩ := Grant.of_log hp h₂ hlog₂
      have hlate : growingEnd.log =
          (newer ++ .revise 0 (.ok true) :: (between ++ [.revise 0 (.ok true)])) ++ c₁.2.log := by
        rw [hlog₁]
        simpa [hlog₂] using hlog
      obtain rfl := hgrant₁.notes_eq_nil growingController_spares_critique h₁
        (hsilent _ _ hlate (by rw [hlog₁, holder, hothers]))
      refine ⟨c₁, c₁', c₂, c₂', h₁, hgrant₁, hsteps, hgrant₂, ?_⟩
      rintro (hempty | ⟨more, hmore⟩)
      · exact absurd hempty (by decide)
      · have hhead := congrArg List.head? hmore
        exact absurd hhead (by simp [lit, CodePoint.ofChar])

end Small

end CognitiveTree.Feedback
