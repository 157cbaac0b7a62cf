import CognitiveTree.Benchmark.Runner
import CognitiveTree.Core.Rational
import CognitiveTree.Persistence.Archive
import CognitiveTree.Search.JsonCompact
import CognitiveTree.Search.PathPolicy

/-!
# Archives of a benchmark

Every run of a benchmark is saved under a name made of the label, the name of its task and its
seed. Two runs share a file exactly when they share that name, as a path, and an unseeded task
gives all its repeats the same one.
-/

namespace CognitiveTree.Benchmark

open Search Observability Persistence Json

section Names

/-- A seed as a format string prints it. -/
def seedText : Option Int → Str
  | none => lit "None"
  | some seed => Str.ofInt seed

/-- `f"{seed}"`, which refuses integers with too many digits. -/
def formatSeed (limits : Limits) : Option Int → Except Exc Str
  | none => .ok (lit "None")
  | some seed => encodeInt limits seed

/-- `f"-seed{seed}.json"`, printed. -/
def archiveSuffix (text : Str) : Str := lit "-seed" ++ text ++ lit ".json"

/-- `destination / f"{label}-{name}-seed{seed}.json"`. -/
def archivePath (limits : Limits) (destination : PurePath) (label name : Str) (seed : Option Int) :
    Except Exc PurePath := do
  let text ← formatSeed limits seed
  pure (destination.join (label ++ lit "-" ++ name ++ archiveSuffix text))

/-- Where the archives of a task go: the place of their folder, and how their names begin. -/
def stem (cwd : List Str) (destination : PurePath) (label name : Str) : List Str × Str :=
  let text := label ++ lit "-" ++ name
  ((destination.join (PurePath.folder text)).locate cwd, PurePath.fileName text)

/-- A printed integer consists of digits and a sign. -/
theorem of_mem_ofInt {i : Int} {c : CodePoint} (h : c ∈ Str.ofInt i) :
    c = minus ∨ 48 ≤ c.val ∧ c.val ≤ 57 := by
  rw [ofInt_eq, List.mem_append] at h
  rcases h with h | h
  · split at h
    · exact .inl (List.mem_singleton.mp h)
    · cases h
  · exact .inr (Str.digit_of_mem_ofNat h)

/-- Different integers are printed differently. -/
theorem ofInt_injective : Function.Injective Str.ofInt := by
  intro i j h
  have hnumeral : intNumeral i = intNumeral j := by rw [intNumeral, intNumeral, h]
  rw [← toInt_intNumeral i, hnumeral, toInt_intNumeral]

/-- Different seeds are printed differently. -/
theorem seedText_injective : Function.Injective seedText := by
  have hletter : ∀ i, Str.ofInt i ≠ lit "None" := by
    intro i h
    have hmem : (78 : CodePoint) ∈ Str.ofInt i := by
      rw [h]
      decide
    rcases of_mem_ofInt hmem with h | h
    · exact absurd h (by decide)
    · exact absurd h (by decide)
  intro a b h
  cases a with
  | none =>
    cases b with
    | none => rfl
    | some j => exact absurd h.symm (hletter j)
  | some i =>
    cases b with
    | none => exact absurd h (hletter i)
    | some j => rw [ofInt_injective h]

/-- Neither the letter `d` nor a slash is part of a printed seed. -/
theorem notMem_seedText (seed : Option Int) {c : CodePoint} (hc : c = 100 ∨ c = slash) :
    c ∉ seedText seed := by
  intro h
  cases seed with
  | none => rcases hc with rfl | rfl <;> exact absurd h (by decide)
  | some i =>
    rcases of_mem_ofInt h with h | h <;> rcases hc with rfl | rfl <;>
      exact absurd h (by decide)

/-- The name of an archive has no slash. -/
theorem slash_notMem_archiveSuffix (seed : Option Int) : slash ∉ archiveSuffix (seedText seed) := by
  have hseed := notMem_seedText seed (.inr rfl)
  have hfront : slash ∉ lit "-seed" := by decide
  have hback : slash ∉ lit ".json" := by decide
  simp [archiveSuffix, hseed, hfront, hback]

/-- What stands behind the last of a kind of characters is determined. -/
theorem append_cons_inj_of_notMem_right {c : CodePoint} {l l' s s' : Str} (hs : c ∉ s) (hs' : c ∉ s')
    (h : l ++ c :: s = l' ++ c :: s') : l = l' ∧ s = s' := by
  have hbehind : ∀ {l s : Str}, c ∉ s → (l ++ c :: s).rtakeWhile (fun d => d ≠ c) = s := by
    intro l s hs
    have hall : ∀ d ∈ s.reverse, decide (d ≠ c) = true := by
      intro d hd
      rw [decide_eq_true_eq]
      rintro rfl
      exact hs (List.mem_reverse.mp hd)
    rw [List.rtakeWhile, List.reverse_append, List.reverse_cons, List.append_assoc,
      List.takeWhile_append_of_pos hall]
    simp
  have heq : s = s' := by rw [← hbehind (l := l) hs, h, hbehind hs']
  subst heq
  exact ⟨List.append_cancel_right h, rfl⟩

/-- The name of a file tells how it begins and the seed. -/
theorem append_archiveSuffix_inj {base base' : Str} {seed seed' : Option Int}
    (h : base ++ archiveSuffix (seedText seed) = base' ++ archiveSuffix (seedText seed')) :
    base = base' ∧ seed = seed' := by
  have hsplit : ∀ (base : Str) (seed : Option Int), base ++ archiveSuffix (seedText seed) =
      (base ++ lit "-see") ++ 100 :: (seedText seed ++ lit ".json") := by
    intro base seed
    have hseed : lit "-seed" = lit "-see" ++ [100] := rfl
    simp [archiveSuffix, hseed]
  have hmem : ∀ seed, (100 : CodePoint) ∉ seedText seed ++ lit ".json" := by
    intro seed
    have hback : (100 : CodePoint) ∉ lit ".json" := by decide
    simp [notMem_seedText seed (.inl rfl), hback]
  rw [hsplit, hsplit] at h
  obtain ⟨hbase, htail⟩ := append_cons_inj_of_notMem_right (hmem seed) (hmem seed') h
  exact ⟨List.append_cancel_right hbase, seedText_injective (List.append_cancel_right htail)⟩

/-- The path of an archive. -/
def printedPath (destination : PurePath) (label name : Str) (seed : Option Int) : PurePath :=
  destination.join (label ++ lit "-" ++ name ++ archiveSuffix (seedText seed))

/-- The path of an archive is the printed one. -/
theorem archivePath_ok {limits : Limits} {destination path : PurePath} {label name : Str}
    {seed : Option Int} (h : archivePath limits destination label name seed = .ok path) :
    path = printedPath destination label name seed := by
  obtain ⟨text, htext, h⟩ := exists_of_bind_eq_ok h
  cases h
  cases seed with
  | none =>
    cases htext
    rfl
  | some i =>
    change encodeInt limits i = .ok text at htext
    rw [encodeInt] at htext
    split at htext <;> cases htext
    rfl

/-- Two archives share a place exactly when stem and seed are the same. -/
theorem locate_printedPath_inj {cwd : List Str} {destination : PurePath} {label name name' : Str}
    {seed seed' : Option Int} : (printedPath destination label name seed).locate cwd =
      (printedPath destination label name' seed').locate cwd ↔
        stem cwd destination label name = stem cwd destination label name' ∧ seed = seed' := by
  have hlength : ∀ seed, 2 < (archiveSuffix (seedText seed)).length := by
    intro seed
    have hfront : (lit "-seed").length = 5 := rfl
    simp only [archiveSuffix, List.length_append, hfront]
    omega
  rw [printedPath, printedPath, PurePath.locate_join_append _ _ _ (slash_notMem_archiveSuffix seed)
    (hlength seed), PurePath.locate_join_append _ _ _ (slash_notMem_archiveSuffix seed')
    (hlength seed'), List.cons.injEq, stem, stem, Prod.mk.injEq]
  constructor
  · rintro ⟨hname, hfolder⟩
    obtain ⟨hbase, hseed⟩ := append_archiveSuffix_inj hname
    exact ⟨⟨hfolder, hbase⟩, hseed⟩
  · rintro ⟨⟨hfolder, hbase⟩, rfl⟩
    exact ⟨by rw [hbase], hfolder⟩

end Names

section Programs

variable {α β : Type}

/-- A pass over a list does to what is seen of the state what the elements do, in order. -/
theorem foldl_of_forEach {ε σ δ γ : Type} {f : α → EStateM ε σ β} (view : σ → δ) {step : δ → γ → δ}
    {R : α → γ → Prop} {xs : List α} {ys : List β} {s t : σ}
    (h : ∀ x ∈ xs, ∀ u y v, f x u = .ok y v → ∃ e, view v = step (view u) e ∧ R x e)
    (hrun : forEach f xs s = .ok ys t) :
    ∃ es, view t = es.foldl step (view s) ∧ List.Forall₂ R xs es := by
  induction xs generalizing ys s with
  | nil =>
    cases hrun
    exact ⟨[], rfl, .nil⟩
  | cons x xs ih =>
    rw [List.forall_mem_cons] at h
    obtain ⟨y, u, hy, hrest⟩ := exists_ok_of_bind hrun
    obtain ⟨zs, v, hzs, hpure⟩ := exists_ok_of_bind hrest
    cases hpure
    obtain ⟨e, hview, he⟩ := h.1 _ _ _ hy
    obtain ⟨es, hviews, hes⟩ := ih h.2 hzs
    refine ⟨e :: es, ?_, .cons he hes⟩
    rw [hviews, hview, List.foldl_cons]

/-- Lists that agree element by element under two functions have the same images. -/
theorem map_eq_of_forall₂ {γ : Type} {f : α → γ} {g : β → γ} {xs : List α} {ys : List β}
    (h : List.Forall₂ (fun x y => f x = g y) xs ys) : xs.map f = ys.map g := by
  induction h with
  | nil => rfl
  | cons hxy _ ih => rw [List.map_cons, List.map_cons, hxy, ih]

end Programs

section Runs

variable {K W : Type} [PyFloat K] [PyNumber K] [PyDecimal K] (env : BenchRuntime K W)
  (st : Storage W)

omit [PyNumber K] [PyDecimal K] in
/-- One repeat of a task, with the result of the run. -/
def measureTask (task : BenchmarkTask K W) (base : SearchConfig K) (repeatIndex : Nat) :
    Bench W (TaskResult K × SearchResult K) := do
  let effective ← accepted (seeded base repeatIndex)
  let setup ← task.build effective
  let started ← readCounter env
  let result ← runController env setup.controller task.statement
  let finished ← readCounter env
  let world ← get
  pure ({
    task := task.name
    seed := effective.seed
    outcome := result.outcome.value
    solved := task.isSolvedBy (result.outcome == .succeeded) result.solution
    iterations := result.iterations
    nodes := result.nodeCount
    wallSeconds := env.elapsed finished started
    tokens := setup.usage.map fun usage => (usage world).totalTokens }, result)

/-- The run is saved with its metrics. -/
def archiveTask (destination : PurePath) (label : Str) (measured : TaskResult K × SearchResult K) :
    Filed W PurePath := do
  let metrics ← orRaise (RunMetrics.fromResult measured.2 none)
  let path ← orRaise
    (archivePath st.limits destination label measured.1.task measured.1.seed)
  saveRun st measured.2 path metrics.toDict

/-- The body of the inner loop. -/
def repeatTask (archiveDir : Option PurePath) (label : Str) (task : BenchmarkTask K W)
    (base : SearchConfig K) (repeatIndex : Nat) : Filed W (TaskResult K) := do
  let measured ← inWorld (measureTask env task base repeatIndex)
  match archiveDir with
  | none => pure measured.1
  | some destination => do
    let _ ← archiveTask st destination label measured
    pure measured.1

/-- `run_benchmark(config, tasks, label, repeats, archive_dir)`. -/
def runBenchmarkTo (archiveDir : Option PurePath) (config : SearchConfig K)
    (tasks : Option (List (BenchmarkTask K W))) (label : Str) (repeats : Nat) :
    Filed W (BenchmarkReport K) := do
  if repeats < 1 then throw (.raised (valueError (lit "repeats must be a positive integer")))
  else
    let results ← forEach (fun task => do
      let base ← inWorld (accepted (task.resolveConfig config))
      forEach (repeatTask env st archiveDir label task base) (List.range repeats))
        (tasks.getD defaultSuite)
    pure ⟨label, results.flatten⟩

variable {env st}

/-- The seed of a repeat. -/
def offset (seed : Option Int) (repeatIndex : Nat) : Option Int :=
  seed.map fun start => start + (repeatIndex : Int)

omit [PyNumber K] [PyDecimal K] in
/-- A repeat runs with the seed of the task, offset by its index. -/
theorem seed_of_seeded {base effective : SearchConfig K} {i : Nat}
    (h : seeded base i = .ok effective) : effective.seed = offset base.seed i := by
  unfold seeded at h
  cases hseed : base.seed with
  | none =>
    rw [hseed] at h
    cases h
    exact hseed
  | some seed =>
    rw [hseed] at h
    rw [ConfigFields.of_create h]
    rfl

omit [PyNumber K] [PyDecimal K] in
/-- A measured task has its own name. -/
theorem measureTask_ok {task : BenchmarkTask K W} {base : SearchConfig K} {i : Nat}
    {measured : TaskResult K × SearchResult K} {w w' : W}
    (h : measureTask env task base i w = .ok measured w') :
    measured.1.task = task.name ∧ measured.1.seed = offset base.seed i := by
  unfold measureTask at h
  obtain ⟨effective, w₀, hseeded, h⟩ := exists_ok_of_bind h
  obtain ⟨setup, w₁, -, h⟩ := exists_ok_of_bind h
  obtain ⟨started, w₂, -, h⟩ := exists_ok_of_bind h
  obtain ⟨result, w₃, -, h⟩ := exists_ok_of_bind h
  obtain ⟨finished, w₄, -, h⟩ := exists_ok_of_bind h
  obtain ⟨world, w₅, -, h⟩ := exists_ok_of_bind h
  cases h
  exact ⟨rfl, seed_of_seeded (accepted_ok hseeded).1⟩

/-- A repeat that completes has saved one archive, under the name of its task and seed. -/
theorem repeatTask_ok {destination : PurePath} {label : Str} {task : BenchmarkTask K W}
    {base : SearchConfig K} {i : Nat} {r : TaskResult K} {s s' : W × Disk}
    (h : repeatTask env st (some destination) label task base i s = .ok r s') :
    ∃ entry, s'.2 = s.2.save st.cwd entry ∧
      printedPath destination label task.name (offset base.seed i) = entry.1 := by
  unfold repeatTask at h
  obtain ⟨measured, s₁, hmeasured, h⟩ := exists_ok_of_bind h
  obtain ⟨path, s₂, harchive, h⟩ := exists_ok_of_bind h
  obtain ⟨metrics, s₃, hmetrics, harchive⟩ := exists_ok_of_bind harchive
  obtain ⟨path', s₄, hpath, hsave⟩ := exists_ok_of_bind harchive
  cases h
  obtain ⟨⟨w, hrun⟩, hdisk⟩ := inWorld_ok hmeasured
  obtain ⟨htask, hseed⟩ := measureTask_ok hrun
  obtain ⟨-, rfl⟩ := orRaise_ok hmetrics
  obtain ⟨hprinted, rfl⟩ := orRaise_ok hpath
  obtain ⟨bytes, hsaved⟩ := saveRun_ok hsave
  rw [archivePath_ok hprinted, hdisk, htask, hseed] at hsaved
  exact ⟨_, hsaved, rfl⟩

/-- The seed with which the repeats of a task start. -/
def startSeed (config : SearchConfig K) (task : BenchmarkTask K W) : Option Int :=
  task.configOverrides.seed.getD config.seed

/-- The paths of the archives of a task, in the order of its repeats. -/
def archivePathsOf (destination : PurePath) (config : SearchConfig K) (label : Str) (repeats : Nat)
    (task : BenchmarkTask K W) : List PurePath :=
  (List.range repeats).map fun i =>
    printedPath destination label task.name (offset (startSeed config task) i)

/-- The paths of the archives of a benchmark, in the order of its runs. -/
def archivePaths (destination : PurePath) (config : SearchConfig K) (label : Str) (repeats : Nat)
    (tasks : List (BenchmarkTask K W)) : List PurePath :=
  tasks.flatMap (archivePathsOf destination config label repeats)

/-- The repeats of a task that complete have saved one archive each. -/
theorem taskRuns_ok {destination : PurePath} {config : SearchConfig K} {label : Str} {repeats : Nat}
    {task : BenchmarkTask K W} {results : List (TaskResult K)} {s s' : W × Disk}
    (h : (inWorld (accepted (task.resolveConfig config)) >>= fun base =>
      forEach (repeatTask env st (some destination) label task base) (List.range repeats)) s =
        .ok results s') :
    ∃ entries : List (PurePath × Bytes), s'.2 = entries.foldl (Disk.save st.cwd) s.2 ∧
      archivePathsOf destination config label repeats task = entries.map Prod.fst := by
  obtain ⟨base, s₁, hbase, hrepeats⟩ := exists_ok_of_bind h
  obtain ⟨⟨w, hresolved⟩, hs₁⟩ := inWorld_ok hbase
  have hseed : base.seed = startSeed config task := by
    rw [ConfigFields.of_create (accepted_ok hresolved).1]
    rfl
  obtain ⟨entries, hentries, hpaths⟩ := foldl_of_forEach Prod.snd
    (fun i _ _ _ _ hi => repeatTask_ok hi) hrepeats
  refine ⟨entries, by rw [hentries, hs₁], ?_⟩
  rw [archivePathsOf, ← hseed]
  exact map_eq_of_forall₂ hpaths

/-- A benchmark that completes has saved one archive for each of its runs, in their order. -/
theorem runBenchmarkTo_ok {destination : PurePath} {config : SearchConfig K}
    {tasks : Option (List (BenchmarkTask K W))} {label : Str} {repeats : Nat}
    {report : BenchmarkReport K} {s s' : W × Disk}
    (h : runBenchmarkTo env st (some destination) config tasks label repeats s = .ok report s') :
    0 < repeats ∧ ∃ entries : List (PurePath × Bytes),
      s'.2 = entries.foldl (Disk.save st.cwd) s.2 ∧ entries.map Prod.fst =
        archivePaths destination config label repeats (tasks.getD defaultSuite) := by
  unfold runBenchmarkTo at h
  split at h
  · cases h
  · rename_i hpositive
    obtain ⟨results, s₁, hresults, h⟩ := exists_ok_of_bind h
    cases h
    refine ⟨by omega, ?_⟩
    obtain ⟨groups, hdisk, hgroups⟩ := foldl_of_forEach Prod.snd
      (fun task _ _ _ _ htask => taskRuns_ok htask) hresults
    refine ⟨groups.flatten, ?_, ?_⟩
    · rw [hdisk, List.foldl_flatten]
    · rw [List.map_flatten, ← map_eq_of_forall₂ hgroups, archivePaths, List.flatMap_def]

end Runs

section OneFileEach

variable {K W : Type} [PyFloat K]

/-- The repeats of two tasks have no seed in common. -/
def SeedsApart (repeats : Nat) : Option Int → Option Int → Prop
  | some a, some b => a + repeats ≤ b ∨ b + repeats ≤ a
  | none, none => False
  | _, _ => True

/-- Seeds are apart when no two of their repeats agree. -/
theorem seedsApart_iff {repeats : Nat} (hrepeats : 0 < repeats) {a b : Option Int} :
    SeedsApart repeats a b ↔ ∀ i < repeats, ∀ j < repeats, offset a i ≠ offset b j := by
  cases a with
  | none =>
    cases b with
    | none => exact iff_of_false id fun h => h 0 hrepeats 0 hrepeats rfl
    | some b => exact iff_of_true trivial fun i _ j _ h => by cases h
  | some a =>
    cases b with
    | none => exact iff_of_true trivial fun i _ j _ h => by cases h
    | some b =>
      simp only [SeedsApart, offset, Option.map_some, ne_eq, Option.some.injEq]
      constructor
      · intro h i hi j hj
        omega
      · intro h
        by_contra hclose
        rcases le_total a b with hab | hab
        · exact h (b - a).toNat (by omega) 0 hrepeats (by omega)
        · exact h 0 hrepeats (a - b).toNat (by omega) (by omega)

/-- Every task without a seed is run once, and tasks whose archives go to one place under one
beginning of the name have no seed in common. -/
structure KeepsApart (cwd : List Str) (destination : PurePath) (config : SearchConfig K)
    (label : Str) (repeats : Nat) (tasks : List (BenchmarkTask K W)) : Prop where
  once : ∀ task ∈ tasks, startSeed config task = none → repeats = 1
  apart : tasks.Pairwise fun task task' =>
    stem cwd destination label task.name = stem cwd destination label task'.name →
      SeedsApart repeats (startSeed config task) (startSeed config task')

/-- The archives go to different places exactly when the benchmark keeps them apart. -/
theorem nodup_archivePaths_iff {cwd : List Str} {destination : PurePath} {config : SearchConfig K}
    {label : Str} {repeats : Nat} {tasks : List (BenchmarkTask K W)} (hrepeats : 0 < repeats) :
    ((archivePaths destination config label repeats tasks).map (PurePath.locate cwd)).Nodup ↔
      KeepsApart cwd destination config label repeats tasks := by
  have honce : ∀ task : BenchmarkTask K W,
      ((archivePathsOf destination config label repeats task).map (PurePath.locate cwd)).Nodup ↔
        (startSeed config task = none → repeats = 1) := by
    intro task
    rw [archivePathsOf, List.map_map, List.nodup_map_iff_inj_on List.nodup_range]
    simp only [List.mem_range, Function.comp_apply, locate_printedPath_inj, true_and]
    cases startSeed config task with
    | none =>
      refine ⟨fun h _ => ?_, fun h i hi j hj _ => ?_⟩
      · by_contra hne
        exact absurd (h 0 hrepeats 1 (by omega) rfl) (by decide)
      · have hone := h rfl
        omega
    | some seed =>
      refine iff_of_true (fun i _ j _ h => ?_) fun h => by cases h
      have heq : seed + (i : Int) = seed + (j : Int) := Option.some.inj h
      omega
  have hapart : ∀ task task' : BenchmarkTask K W,
      List.Disjoint
        ((archivePathsOf destination config label repeats task).map (PurePath.locate cwd))
        ((archivePathsOf destination config label repeats task').map (PurePath.locate cwd)) ↔
      (stem cwd destination label task.name = stem cwd destination label task'.name →
        SeedsApart repeats (startSeed config task) (startSeed config task')) := by
    intro task task'
    rw [seedsApart_iff hrepeats, archivePathsOf, archivePathsOf, List.map_map, List.map_map,
      List.disjoint_left]
    simp only [List.mem_map, List.mem_range, Function.comp_apply]
    constructor
    · intro h hstem i hi j hj hseed
      exact h ⟨i, hi, rfl⟩ ⟨j, hj, (locate_printedPath_inj.mpr ⟨hstem, hseed⟩).symm⟩
    · rintro h place ⟨i, hi, rfl⟩ ⟨j, hj, heq⟩
      obtain ⟨hstem, hseed⟩ := locate_printedPath_inj.mp heq.symm
      exact h hstem i hi j hj hseed
  rw [archivePaths, List.map_flatMap, List.nodup_flatMap]
  constructor
  · rintro ⟨hnodup, hdisjoint⟩
    exact ⟨fun task htask => (honce task).mp (hnodup task htask),
      hdisjoint.imp fun h => (hapart _ _).mp h⟩
  · rintro ⟨h, h'⟩
    exact ⟨fun task htask => (honce task).mpr (h task htask), h'.imp fun h => (hapart _ _).mpr h⟩

/-- Each of so many runs has written an archive of its own: no two have their path or their place
in common, and every file has the bytes of its archive. -/
def EachRunArchived (cwd : List Str) (runs : Nat) (before after : Disk) : Prop :=
  ∃ entries : List (PurePath × Bytes), after.saves = before.saves ++ entries ∧
    entries.length = runs ∧ (entries.map Prod.fst).Nodup ∧
    (entries.map fun entry => entry.1.locate cwd).Nodup ∧
    ∀ entry ∈ entries, after.files (entry.1.locate cwd) = some entry.2

variable [PyNumber K] [PyDecimal K] (env : BenchRuntime K W) (st : Storage W)

/-- After a benchmark that completes, every run has its own archive exactly when every task without
a seed was run once and tasks with a common stem have no seed in common. -/
theorem each_run_archived_iff {destination : PurePath} {config : SearchConfig K}
    {tasks : Option (List (BenchmarkTask K W))} {label : Str} {repeats : Nat}
    {report : BenchmarkReport K} {s s' : W × Disk}
    (hrun : runBenchmarkTo env st (some destination) config tasks label repeats s = .ok report s') :
    EachRunArchived st.cwd ((tasks.getD defaultSuite).length * repeats) s.2 s'.2 ↔
      KeepsApart st.cwd destination config label repeats (tasks.getD defaultSuite) := by
  obtain ⟨hrepeats, entries, hdisk, hpaths⟩ := runBenchmarkTo_ok hrun
  have hplaces : (entries.map fun entry => entry.1.locate st.cwd) =
      (archivePaths destination config label repeats (tasks.getD defaultSuite)).map
        (PurePath.locate st.cwd) := by
    rw [← hpaths, List.map_map]
    rfl
  rw [← nodup_archivePaths_iff hrepeats, ← hplaces]
  constructor
  · rintro ⟨entries', hsaves, -, -, hnodup, -⟩
    rw [hdisk, Disk.saves_foldl] at hsaves
    rw [List.append_cancel_left hsaves]
    exact hnodup
  · intro hnodup
    refine ⟨entries, ?_, ?_, ?_, hnodup, ?_⟩
    · rw [hdisk, Disk.saves_foldl]
    · rw [← List.length_map (f := Prod.fst), hpaths, archivePaths, List.length_flatMap]
      simp [archivePathsOf]
    · refine List.Nodup.of_map (PurePath.locate st.cwd) ?_
      rw [List.map_map]
      exact hnodup
    · rw [hdisk]
      exact Disk.files_foldl hnodup s.2

end OneFileEach

section Examples

/-- Clocks that stand still. -/
def stillBench : BenchRuntime ℚ Unit where
  runtime := Runtime.still fun _ _ => 0
  perfCounter world := (0, world)
  elapsed a b := a - b

/-- A file system on which nothing fails. -/
def openStorage : Storage Unit where
  limits := .unlimited
  cwd := [lit "home"]
  nodeId := stillBench.runtime.freshId
  utcNow world := (lit "2025-01-01T00:00:00+00:00", world)
  makeDirectory _ world := (none, world)
  openFile _ world := (none, world)
  writeFile _ _ world := (none, world)

def emptyDisk : Disk := ⟨fun _ => none, []⟩

/-- The small configuration without a seed. -/
def unseededConfig : SearchConfig ℚ where
  toConfigFields := { smallConfig.toConfigFields with seed := none }
  checked := by decide +kernel

/-- A suite of one task, whose generator has nothing to propose. -/
def idleSuite : List (BenchmarkTask ℚ Unit) := [{
  name := lit "idle"
  statement := lit "task"
  build config := pure ⟨pathController config (fun _ => []) (fun _ => halfway), none⟩
  configOverrides := ⟨none, none, none, none, none, none, none, none, none⟩
  expectedSolution := none }]

/-- Two repeats of a seeded task have an archive each. -/
theorem seeded_repeats_archived : ∃ report s',
    runBenchmarkTo stillBench openStorage (some (PurePath.ofText (lit "runs"))) smallConfig
      (some idleSuite) (lit "run") 2 ((), emptyDisk) = .ok report s' ∧
    EachRunArchived [lit "home"] 2 emptyDisk s'.2 := by
  obtain ⟨report, s', hrun, -⟩ := exists_ok_of_returned (show (returned
    (runBenchmarkTo stillBench openStorage (some (PurePath.ofText (lit "runs"))) smallConfig
      (some idleSuite) (lit "run") 2 ((), emptyDisk))).map (fun report => report.runs) = some 2
    by decide +kernel)
  refine ⟨report, s', hrun, (each_run_archived_iff _ _ hrun).mpr ⟨?_, ?_⟩⟩
  · simp [idleSuite, startSeed, smallConfig]
  · exact List.pairwise_singleton _ _

/-- Two repeats of a task without a seed are written to one path. -/
theorem unseeded_repeats_share_archive : ∃ report s',
    runBenchmarkTo stillBench openStorage (some (PurePath.ofText (lit "runs"))) unseededConfig
      (some idleSuite) (lit "run") 2 ((), emptyDisk) = .ok report s' ∧
    ¬ EachRunArchived [lit "home"] 2 emptyDisk s'.2 := by
  obtain ⟨report, s', hrun, -⟩ := exists_ok_of_returned (show (returned
    (runBenchmarkTo stillBench openStorage (some (PurePath.ofText (lit "runs"))) unseededConfig
      (some idleSuite) (lit "run") 2 ((), emptyDisk))).map (fun report => report.runs) = some 2
    by decide +kernel)
  refine ⟨report, s', hrun, ?_⟩
  rintro ⟨entries', hsaves, -, hnodup, -⟩
  obtain ⟨-, entries, hdisk, hpaths⟩ := runBenchmarkTo_ok hrun
  rw [hdisk, Disk.saves_foldl] at hsaves
  rw [← List.append_cancel_left hsaves, hpaths] at hnodup
  exact absurd hnodup (by decide +kernel)

end Examples

end CognitiveTree.Benchmark
