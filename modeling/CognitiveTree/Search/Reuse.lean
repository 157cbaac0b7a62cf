import CognitiveTree.Search.PathPolicy
import CognitiveTree.Search.Synchrony

/-!
# Reusing a controller

What outlives a run is the position of the controller's RNG. A later run draws from
where the earlier ones stopped, so it repeats the run of a new controller as long as the
later draws make the same choices.
-/

namespace CognitiveTree.Search

variable {K W : Type} [PyFloat K]

/-- Where the RNG and the world stand after these runs. -/
def TreeSearchController.serve (ctl : TreeSearchController K W) (rt : Runtime K W) :
    List Str → Nat → W → Nat × W
  | [], draws, world => (draws, world)
  | task :: tasks, draws, world =>
    let s := finalState (ctl.run rt task draws world)
    ctl.serve rt tasks s.draws s.world

/-- Both runs return the same result or raise the same exception. -/
def SameEnd {W' : Type} (x : EStateM.Result Signal (RunState K W) (SearchResult K))
    (y : EStateM.Result Signal (RunState K W') (SearchResult K)) : Prop :=
  (∃ r r' s t, x = .ok r s ∧ y = .ok r' t ∧ SameResult r r') ∨
    ∃ e s t, x = .error e s ∧ y = .error e t

/-- The results have the same node metadata too. -/
def SameRun (x y : EStateM.Result Signal (RunState K W) (SearchResult K)) : Prop :=
  (∃ r r' s t, x = .ok r s ∧ y = .ok r' t ∧ SameResult r r' ∧ r'.metadata = r.metadata) ∨
    ∃ e s t, x = .error e s ∧ y = .error e t

/-- The result of a run carries the metadata of its final state. -/
theorem metadata_of_run {ctl : TreeSearchController K W} {rt : Runtime K W} {task : Str}
    {draws : Nat} {world : W} {r : SearchResult K} {s : RunState K W}
    (h : ctl.run rt task draws world = .ok r s) : r.metadata = s.metadata := by
  have hspec := run_spec ctl rt task draws world
  rw [h] at hspec
  exact hspec.metadata

section Self

variable {ctl : TreeSearchController K W} {rt : Runtime K W}

omit [PyFloat K] in
theorem callsAgree_self {α : Type} (f : Call K W α) : CallsAgree (· = ·) f f := by
  rintro arena metadata w _ rfl
  exact ⟨rfl, rfl, rfl⟩

theorem optionRel_self {α : Type} {r : α → α → Prop} (h : ∀ a, r a a) (x : Option α) :
    Option.Rel r x x := by
  cases x with
  | none => exact .none
  | some a => exact .some (h a)

/-- A controller in the same surroundings agrees with itself. -/
theorem Agreeing.self : Agreeing (· = ·) ctl ctl rt rt where
  maxDepth := rfl
  branchingFactor := rfl
  explorationWeight := rfl
  acceptThreshold := rfl
  pruneThreshold := rfl
  generator _ _ := callsAgree_self _
  critic := optionRel_self (fun _ _ => callsAgree_self _) _
  revisionPolicy := optionRel_self (fun _ _ => callsAgree_self _) _
  rewardModel := optionRel_self (fun _ _ _ _ => callsAgree_self _) _
  clock := by
    rintro w _ rfl
    rfl
  sink := by
    rintro iteration phase node detail tree tree' w _ - htree rfl
    rw [htree rfl]
    exact ⟨rfl, rfl⟩

theorem SameWorkers.self : SameWorkers (· = ·) ctl ctl rt rt where
  evaluator _ := callsAgree_self _
  workers := rfl
  schedule := by
    rintro arena batch w _ rfl
    rfl

theorem Synchronous.self : Synchronous (· = ·) ctl ctl rt rt where
  maxIterations := rfl
  maxWallSeconds := rfl
  reading := by
    rintro w _ rfl
    rfl
  cancelled := optionRel_self (fun f => by rintro w _ rfl; exact ⟨rfl, rfl⟩) _
  stopCondition := optionRel_self (fun f => by rintro w _ rfl; exact ⟨rfl, rfl⟩) _

end Self

/-- The choices in a log: live children, their UCT scores and the RNG's position. -/
def picksIn (log : List (Obs K)) : List (List Nat × List K × Nat) :=
  log.filterMap fun
    | .pick live scores position => some (live, scores, position)
    | _ => none

theorem mem_picksIn {log : List (Obs K)} {live : List Nat} {scores : List K} {position : Nat}
    (h : .pick live scores position ∈ log) : (live, scores, position) ∈ picksIn log :=
  List.mem_filterMap.mpr ⟨_, h, rfl⟩

section Repetition

variable (ctl : TreeSearchController K W) (rt : Runtime K W) (earlier : List Str) (task : Str)
  (world : W)

/-- A run after earlier ones repeats the run of a new controller when the RNG, `draws`
values ahead, makes the choices that a new one would have made. -/
theorem run_repeats_fresh_of_same_choices
    (choices : ∀ p ∈ picksIn (finalState (ctl.run rt task (ctl.serve rt earlier 0 world).1
        (ctl.serve rt earlier 0 world).2)).log,
      pickFrom (rt.random ctl.config.seed) p.1 p.2.1 p.2.2 =
        pickFrom (rt.random ctl.config.seed) p.1 p.2.1
          (p.2.2 - (ctl.serve rt earlier 0 world).1)) :
    SameRun (ctl.run rt task (ctl.serve rt earlier 0 world).1 (ctl.serve rt earlier 0 world).2)
      (ctl.run rt task 0 (ctl.serve rt earlier 0 world).2) := by
  generalize (ctl.serve rt earlier 0 world).1 = draws at *
  generalize (ctl.serve rt earlier 0 world).2 = world at *
  have hrun : Astray draws ctl ctl rt rt (finalState (ctl.run rt task draws world)) ∨
      (∃ r r' s t, ctl.run rt task draws world = .ok r s ∧ ctl.run rt task 0 world = .ok r' t ∧
        SameResult r r' ∧ Twins (· = ·) SameMetadata draws False rt rt s t) ∨
      ∃ e s t, ctl.run rt task draws world = .error e s ∧ ctl.run rt task 0 world = .error e t :=
    Synchronous.self.run Agreeing.self
      (fun n batch => SameWorkers.self.collectVerdicts n batch fun _ _ h => h) (fun _ _ h => h) rfl
      (Nat.zero_add draws).symm
  rcases hrun with ⟨live, scores, position, hm, hne⟩ | ⟨r, r', s, t, hr, hr', hsame, htwins⟩ | hraised
  · exact absurd (choices _ (mem_picksIn hm)) hne
  · refine Or.inl ⟨r, r', s, t, hr, hr', hsame, ?_⟩
    rw [metadata_of_run hr, metadata_of_run hr', htwins.metadata]
  · exact Or.inr hraised

end Repetition

/-- The first values of `random.Random(1).random()`, in units of `2 ** -53`. -/
def seedOne : List ℚ :=
  [1210245519433057, 7633004523783416, 6879470178836243, 2297457538547630].map (· / 2 ^ 53)

/-- A runtime whose RNG produces these values. -/
def seedOneRuntime : Runtime ℚ Unit := .still fun _ i => seedOne.getD i 0

/-- Two candidates below every node that nothing tells apart. -/
def tiedController : TreeSearchController ℚ Unit :=
  pathController smallConfig (fun _ => [lit "left", lit "right"]) fun _ => halfway

/-- And a single one. -/
def plainController : TreeSearchController ℚ Unit :=
  pathController smallConfig (fun _ => [lit "go on"]) fun _ => halfway

/-- With a single candidate the position of the RNG does not matter. -/
theorem run_repeats_fresh_of_same_choices_single :
    SameRun (plainController.run seedOneRuntime (lit "second")
        (plainController.serve seedOneRuntime [lit "first"] 0 ()).1
        (plainController.serve seedOneRuntime [lit "first"] 0 ()).2)
      (plainController.run seedOneRuntime (lit "second") 0
        (plainController.serve seedOneRuntime [lit "first"] 0 ()).2) :=
  run_repeats_fresh_of_same_choices plainController seedOneRuntime [lit "first"] (lit "second") ()
    (by decide +kernel)

/-- The second run of a controller expands the other of two tied candidates. -/
theorem run_differs_after_first_run :
    ¬ SameEnd (tiedController.run seedOneRuntime (lit "second")
        (tiedController.serve seedOneRuntime [lit "first"] 0 ()).1
        (tiedController.serve seedOneRuntime [lit "first"] 0 ()).2)
      (tiedController.run seedOneRuntime (lit "second") 0
        (tiedController.serve seedOneRuntime [lit "first"] 0 ()).2) := by
  obtain ⟨r, s, hr, hchildren⟩ := exists_ok_of_returned (show (returned (tiedController.run
      seedOneRuntime (lit "second") (tiedController.serve seedOneRuntime [lit "first"] 0 ()).1
        (tiedController.serve seedOneRuntime [lit "first"] 0 ()).2)).map
    (fun r => (r.tree.arena.node 1).children) = some [3, 4] by decide +kernel)
  obtain ⟨r', t, hr', hchildren'⟩ := exists_ok_of_returned (show (returned (tiedController.run
      seedOneRuntime (lit "second") 0 (tiedController.serve seedOneRuntime [lit "first"] 0 ()).2)).map
    (fun r => (r.tree.arena.node 1).children) = some [] by decide +kernel)
  rw [hr, hr']
  rintro (⟨_, _, _, _, hx, hy, hsame⟩ | ⟨e, _, _, hx, -⟩)
  · cases hx
    cases hy
    rw [← hsame.arena, hchildren'] at hchildren
    cases hchildren
  · cases hx

end CognitiveTree.Search
