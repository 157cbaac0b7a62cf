import CognitiveTree.Core.Lines
import CognitiveTree.Search.Controller
import CognitiveTree.Search.Conversion

/-!
# Bounded revision

The revision policy reads the critiques of a node's children and commits a grant by writing
the compiled notes and the new attempt counter into the node's metadata. `str` of a float or a
container is left to the runtime.
-/

namespace CognitiveTree.Feedback

open Search

/-- `REVISION_NOTES_KEY`. -/
def revisionNotesKey : Str := lit "revision_notes"

/-- `REVISION_ATTEMPTS_KEY`. -/
def revisionAttemptsKey : Str := lit "revision_attempts"

section Values

variable {K : Type}

/-- `bool(x)`. -/
def truthy [PyFloat K] : PyVal K → Bool
  | .none => false
  | .bool b => b
  | .int i => i ≠ 0
  | .float x => !PyFloat.eq x PyFloat.zero
  | .str s => s ≠ []
  | .list xs => !xs.isEmpty
  | .dict items => !items.isEmpty
  | .object _ => true

/-- `x.get`, which only a dictionary has. -/
def itemsOf : PyVal K → Except Exc (Dict Str (PyVal K))
  | .dict items => .ok items
  | v => .error (attributeError (lit "'" ++ v.typeName ++ lit "' object has no attribute 'get'"))

/-- `x.strip()`, which only a text has. -/
def stripped : PyVal K → Except Exc Str
  | .str s => .ok (Str.strip s)
  | v => .error (attributeError (lit "'" ++ v.typeName ++ lit "' object has no attribute 'strip'"))

/-- `str(x)`. -/
def formatted (text : PyVal K → Str) : PyVal K → Str
  | .none => lit "None"
  | .bool b => if b then lit "True" else lit "False"
  | .int i => Str.ofInt i
  | .str s => s
  | v => text v

end Values

variable {K W : Type} [PyFloat K]

/-- The loop of `compile_revision_notes` over the remaining children. -/
def noteLines (text : PyVal K → Str) (metadata : Nat → Metadata K) :
    List Nat → List Str → Except Exc (List Str)
  | [], _ => .ok []
  | child :: children, seen =>
    match Dict.get? (metadata child) critiqueMetadataKey with
    | none => noteLines text metadata children seen
    | some critique =>
      if truthy critique then do
        let fields ← itemsOf critique
        let guidance ← stripped ((Dict.get? fields (lit "guidance")).getD (.str []))
        if guidance = [] ∨ guidance ∈ seen then noteLines text metadata children seen
        else do
          let failureClass := (Dict.get? fields (lit "failure_class")).getD (.str (lit "unknown"))
          let lines ← noteLines text metadata children (guidance :: seen)
          pure ((lit "- [" ++ formatted text failureClass ++ lit "] " ++ guidance) :: lines)
      else noteLines text metadata children seen

/-- `compile_revision_notes(node)`. -/
def compileRevisionNotes (text : PyVal K → Str) (arena : Arena K) (metadata : Nat → Metadata K)
    (node : Nat) : Except Exc Str := do
  let lines ← noteLines text metadata (arena.node node).children []
  pure (Str.join (lit "\n") lines)

/-- A limited number of revisions for each node. -/
structure BoundedRevisionPolicy where
  maxAttempts : Int
  requireGuidance : Bool
  positive : 1 ≤ maxAttempts

namespace BoundedRevisionPolicy

/-- `BoundedRevisionPolicy(max_attempts, require_guidance)`. -/
def create (maxAttempts : Int) (requireGuidance : Bool) : Except Exc BoundedRevisionPolicy :=
  if positive : 1 ≤ maxAttempts then .ok ⟨maxAttempts, requireGuidance, positive⟩
  else .error (valueError (lit "max_attempts must be a positive integer"))

/-- The policy asks for guidance when it was told to. -/
theorem requireGuidance_of_create {maxAttempts : Int} {required : Bool} {p : BoundedRevisionPolicy}
    (h : create maxAttempts required = .ok p) : p.requireGuidance = required := by
  unfold create at h
  split at h
  · cases h
    rfl
  · cases h

/-- The attempts a node has used. -/
def attemptsOf [PyNumber K] (metadata : Metadata K) : Except Exc Int :=
  ((Dict.get? metadata revisionAttemptsKey).getD (.int 0)).toInt

/-- The checks of `revise`: the notes and the attempts used, when a revision is granted. -/
def eligible [PyNumber K] (p : BoundedRevisionPolicy) (text : PyVal K → Str) (arena : Arena K)
    (metadata : Nat → Metadata K) (node : Nat) : Except Exc (Option (Str × Int)) :=
  let children := (arena.node node).children
  if children = [] then .ok none
  else if children.any fun c => (arena.node c).isLive then .ok none
  else if children.any fun c => (arena.node c).status = .terminal then .ok none
  else do
    let attempts ← attemptsOf (metadata node)
    if p.maxAttempts ≤ attempts then pure none
    else do
      let notes ← compileRevisionNotes text arena metadata node
      pure (if p.requireGuidance = true ∧ notes = [] then none else some (notes, attempts))

/-- The metadata of a node that was granted a revision. -/
def commit (metadata : Nat → Metadata K) (node : Nat) (notes : Str) (attempts : Int) :
    Nat → Metadata K := fun x =>
  if x = node then
    Dict.set (Dict.set (metadata x) revisionNotesKey (.str notes)) revisionAttemptsKey
      (.int (attempts + 1))
  else metadata x

/-- `policy.revise(node)`. -/
def revise [PyNumber K] (p : BoundedRevisionPolicy) (text : PyVal K → Str) (node : Nat) :
    Call K W Bool := fun arena metadata world =>
  match p.eligible text arena metadata node with
  | .error e => ⟨.error e, metadata, world⟩
  | .ok none => ⟨.ok false, metadata, world⟩
  | .ok (some (notes, attempts)) => ⟨.ok true, commit metadata node notes attempts, world⟩

/-- A node is eligible when all children failed, attempts are left, and there are notes to learn
from. -/
theorem eligible_eq_some [PyNumber K] {p : BoundedRevisionPolicy} {text : PyVal K → Str}
    {arena : Arena K} {metadata : Nat → Metadata K} {node : Nat} {notes : Str} {attempts : Int} :
    p.eligible text arena metadata node = .ok (some (notes, attempts)) ↔
      (arena.node node).children ≠ [] ∧
      (∀ c ∈ (arena.node node).children,
        (arena.node c).isLive = false ∧ (arena.node c).status ≠ .terminal) ∧
      attemptsOf (metadata node) = .ok attempts ∧ attempts < p.maxAttempts ∧
      compileRevisionNotes text arena metadata node = .ok notes ∧
      ¬ (p.requireGuidance = true ∧ notes = []) := by
  unfold eligible
  dsimp only
  constructor
  · intro h
    split at h
    · cases h
    rename_i hne
    split at h
    · cases h
    rename_i hlive
    split at h
    · cases h
    rename_i hterminal
    obtain ⟨used, hused, h⟩ := exists_of_bind_eq_ok h
    split at h
    · cases h
    rename_i hleft
    obtain ⟨compiled, hcompiled, h⟩ := exists_of_bind_eq_ok h
    by_cases hguided : p.requireGuidance = true ∧ compiled = []
    · rw [if_pos hguided] at h
      cases h
    · rw [if_neg hguided] at h
      cases h
      refine ⟨hne, fun c hc => ?_, hused, by omega, hcompiled, hguided⟩
      simp only [List.any_eq_true, not_exists, not_and, decide_eq_true_eq] at hlive hterminal
      exact ⟨by simpa using hlive c hc, hterminal c hc⟩
  · rintro ⟨hne, hdead, hused, hleft, hcompiled, hguided⟩
    have hlive : ((arena.node node).children.any fun c => (arena.node c).isLive) = false := by
      rw [List.any_eq_false]
      intro c hc
      simp [(hdead c hc).1]
    have hterminal : ((arena.node node).children.any
        fun c => decide ((arena.node c).status = .terminal)) = false := by
      rw [List.any_eq_false]
      intro c hc
      simp [(hdead c hc).2]
    rw [if_neg hne, hlive, hterminal, hused]
    change (if p.maxAttempts ≤ attempts then _ else _ : Except Exc _) = _
    rw [if_neg (by omega), hcompiled]
    change Except.ok (if p.requireGuidance = true ∧ notes = [] then none else some _) = _
    rw [if_neg hguided]

/-- What a call does: it refuses and leaves everything as it is, or it commits a grant. -/
theorem revise_cases [PyNumber K] (p : BoundedRevisionPolicy) (text : PyVal K → Str) (node : Nat)
    (arena : Arena K) (metadata : Nat → Metadata K) (world : W) :
    (∃ answer, answer ≠ .ok true ∧
      p.revise text node arena metadata world = ⟨answer, metadata, world⟩) ∨
    ∃ notes attempts, p.eligible text arena metadata node = .ok (some (notes, attempts)) ∧
      p.revise text node arena metadata world =
        ⟨.ok true, commit metadata node notes attempts, world⟩ := by
  unfold revise
  cases p.eligible text arena metadata node with
  | error e => exact Or.inl ⟨_, by simp, rfl⟩
  | ok grant =>
    cases grant with
    | none => exact Or.inl ⟨_, by simp, rfl⟩
    | some grant => exact Or.inr ⟨grant.1, grant.2, rfl, rfl⟩

omit [PyFloat K] in
/-- A grant writes the attempts of its node alone. -/
theorem commit_attempts (metadata : Nat → Metadata K) (node x : Nat) (notes : Str) (attempts : Int) :
    Dict.get? (commit metadata node notes attempts x) revisionAttemptsKey =
      if x = node then some (.int (attempts + 1)) else Dict.get? (metadata x) revisionAttemptsKey := by
  unfold commit
  by_cases hx : x = node
  · rw [if_pos hx, if_pos hx, Dict.get?_set, if_pos rfl]
  · rw [if_neg hx, if_neg hx]

omit [PyFloat K] in
/-- A grant writes no other key than its two. -/
theorem commit_other (metadata : Nat → Metadata K) (node x : Nat) (notes : Str) (attempts : Int)
    {key : Str} (hnotes : key ≠ revisionNotesKey) (hattempts : key ≠ revisionAttemptsKey) :
    Dict.get? (commit metadata node notes attempts x) key = Dict.get? (metadata x) key := by
  unfold commit
  split
  · rw [Dict.get?_set, if_neg hattempts, Dict.get?_set, if_neg hnotes]
  · rfl

/-- The policy leaves every other key alone. -/
theorem revise_leaves [PyNumber K] (p : BoundedRevisionPolicy) (text : PyVal K → Str) (node : Nat)
    {key : Str} (hnotes : key ≠ revisionNotesKey) (hattempts : key ≠ revisionAttemptsKey)
    (arena : Arena K) (metadata : Nat → Metadata K) (world : W) (x : Nat) :
    Dict.get? ((p.revise text node arena metadata world).metadata x) key =
      Dict.get? (metadata x) key := by
  rcases p.revise_cases text node arena metadata world with ⟨answer, -, hrun⟩ | ⟨notes, attempts, -, hrun⟩
  · rw [hrun]
  · rw [hrun]
    exact commit_other metadata node x notes attempts hnotes hattempts

end BoundedRevisionPolicy

end CognitiveTree.Feedback
