import CognitiveTree.Session.Runs

/-!
# Runs whose archive fails

Only an `OSError` is caught where a run is saved. A result whose archive has no JSON text or no
bytes raises something else, and then neither `run` returns it nor does the stream end with it.
-/

namespace CognitiveTree.Session

open Search Observability Persistence Feedback Json Ui

section Survival

variable {V α : Type}

/-- The program returns, or raises an `OSError`. -/
def Survived (x : Filed V α) (s : V × Disk) : Prop := ∃ r t, tolerant x s = .ok r t

/-- Behind a step that returned, the rest survives or not. -/
theorem survived_of_ok {β : Type} {x : Filed V β} {f : β → Filed V α} {s t : V × Disk} {b : β}
    (h : x s = .ok b t) : Survived (x >>= f) s ↔ Survived (f b) t := by
  unfold Survived tolerant
  rw [bind_of_ok h]

/-- A step that raised survives when its exception is an `OSError`. -/
theorem survived_of_raised {β : Type} {x : Filed V β} {f : β → Filed V α} {s t : V × Disk}
    {e : Exc} (h : x s = .error (.raised e) t) : Survived (x >>= f) s ↔ isOsError e = true := by
  unfold Survived tolerant
  rw [bind_of_error h]
  dsimp only
  split
  · rename_i hos
    exact iff_of_true ⟨_, _, rfl⟩ hos
  · rename_i hos
    exact iff_of_false (fun ⟨_, _, h⟩ => by cases h) hos

/-- A value survives. -/
theorem survived_pure (a : α) (s : V × Disk) : Survived (pure a) s := ⟨_, _, rfl⟩

/-- Reading a clock or a generator always goes on. -/
theorem survived_observed {β : Type} (read : V → β × V) {f : β → Filed V α} {s : V × Disk} :
    Survived (observed read >>= f) s ↔ Survived (f (read s.1).1) ((read s.1).2, s.2) :=
  survived_of_ok rfl

/-- A value that was computed goes on. -/
theorem survived_returned {β : Type} (b : β) {f : β → Filed V α} {s : V × Disk} :
    Survived (orRaise (.ok b) >>= f) s ↔ Survived (f b) s :=
  survived_of_ok rfl

/-- An exception survives when it is an `OSError`. -/
theorem survived_raise {β : Type} (e : Exc) {f : β → Filed V α} {s : V × Disk} :
    Survived (orRaise (.error e) >>= f) s ↔ isOsError e = true :=
  survived_of_raised rfl

/-- A change of the disk goes on. -/
theorem survived_onDisk (change : Disk → Disk) {f : Unit → Filed V α} {s : V × Disk} :
    Survived (onDisk change >>= f) s ↔ Survived (f ()) (s.1, change s.2) :=
  survived_of_ok rfl

/-- A step of the file system does nothing worse than raising an `OSError`. -/
def Tolerated (answer : Option Exc) : Prop := ∀ e ∈ answer, isOsError e = true

/-- An operation of the file system survives when its exception is tolerated, and otherwise goes on.
-/
theorem survived_perform (step : V → Option Exc × V) {f : Unit → Filed V α} {s : V × Disk} :
    Survived (perform step >>= f) s ↔ Tolerated (step s.1).1 ∧
      ((step s.1).1 = none → Survived (f ()) ((step s.1).2, s.2)) := by
  rcases hstep : step s.1 with ⟨_ | e, v⟩
  · have hrun : perform step s = .ok () (v, s.2) := by rw [perform, hstep]
    rw [survived_of_ok hrun]
    simp [Tolerated]
  · have hrun : perform step s = .error (.raised e) (v, s.2) := by rw [perform, hstep]
    rw [survived_of_raised hrun]
    simp [Tolerated]

end Survival

section Saving

variable {K V α : Type} [PyFloat K] [PyDecimal K] {st : Storage V}

/-- No exception of the encoder is an `OSError`. -/
theorem isOsError_of_encoder {e : Exc} (h : e.typeName ∈ encoderErrors) : isOsError e = false := by
  have hall : encoderErrors.all fun name => !osErrors.contains name := by decide
  simpa [isOsError] using List.all_eq_true.mp hall _ h

/-- The bytes of a document. -/
def archiveBytes (limits : Limits) (document : PyVal K) : Option Bytes :=
  match dumps limits false document with
  | .ok text => Utf8.encode text
  | .error _ => none

/-- Saving a result to this path loses nothing: no step of the file system raises anything but an
`OSError`, and as long as none has failed the numbers and metadata have a text and the strings are
free of surrogates. -/
def SaveTolerated (st : Storage V) (result : SearchResult K) (metrics : PyVal K) (path : PurePath)
    (world : V) : Prop :=
  let now := st.utcNow world
  let made := st.makeDirectory path.parent now.2
  let opened := st.openFile path made.2
  Tolerated made.1 ∧ (made.1 = none →
    (ShapedResult st.limits result ∧ metrics.Shaped st.limits 1) ∧ Tolerated opened.1 ∧
      (opened.1 = none →
        (CleanResult st.nodeId result ∧ Utf8.Clean now.1 ∧ metrics.Clean) ∧
        ∀ bytes ∈ archiveBytes st.limits (archiveDocument st.nodeId now.1 result metrics),
          Tolerated (st.writeFile path bytes opened.2).1))

omit [PyFloat K] in
/-- Encoding the text of a document. -/
theorem survived_encodeUtf8 [PrintedFloats K] (limits : Limits) {document : PyVal K}
    {f : Bytes → Filed V α} {text : Str} (htext : dumps limits false document = .ok text)
    {s : V × Disk} : Survived (orRaise (encodeUtf8 text) >>= f) s ↔
      document.Clean ∧ ∀ bytes ∈ archiveBytes limits document, Survived (f bytes) s := by
  have hclean := (clean_encode 0 document htext).symm.trans Utf8.encode_isSome_iff.symm
  rw [hclean, archiveBytes, htext, encodeUtf8]
  dsimp only
  cases Utf8.encode text with
  | none =>
    have hname : isOsError ⟨lit "UnicodeEncodeError", lit "surrogates not allowed"⟩ = false := by
      decide
    dsimp only
    rw [survived_raise, hname]
    simp
  | some bytes =>
    dsimp only
    rw [survived_returned]
    simp

/-- Saving a run survives when each fault on its way is tolerated. -/
theorem survived_saveRun [PrintedFloats K] {result : SearchResult K} {path : PurePath}
    {metrics : PyVal K} {s : V × Disk} : Survived (saveRun st result path metrics) s ↔
      SaveTolerated st result metrics path s.1 := by
  unfold saveRun SaveTolerated
  rw [survived_observed, resultToArchiveDocument_eq, survived_returned, survived_perform]
  dsimp only
  have hshaped := (@shaped_archiveDocument K _ st.nodeId st.limits (st.utcNow s.1).1 result
    metrics).symm.trans (@encode_ok_iff K _ st.limits false 0 _).symm
  have hclean := (@clean_archiveDocument K _ st.nodeId (st.utcNow s.1).1 result metrics).symm
  rw [hshaped, hclean]
  refine and_congr_right fun _ => imp_congr_right fun _ => ?_
  generalize archiveDocument st.nodeId (st.utcNow s.1).1 result metrics = document
  cases htext : dumps st.limits false document with
  | error e =>
    rw [survived_raise, isOsError_of_encoder (encode_error 0 _ htext)]
    refine iff_of_false (by simp) ?_
    rintro ⟨⟨text, h⟩, -⟩
    cases htext.symm.trans h
  | ok text =>
    rw [survived_returned, survived_perform]
    refine Iff.trans ?_ (and_iff_right ⟨text, htext⟩).symm
    refine and_congr_right fun _ => imp_congr_right fun _ => ?_
    rw [survived_onDisk, survived_encodeUtf8 st.limits htext]
    refine and_congr_right fun _ => forall_congr' fun bytes => imp_congr_right fun _ => ?_
    rw [survived_perform, survived_onDisk]
    exact and_iff_left fun _ => survived_pure _ _

end Saving

section Keeping

variable {K P E : Type} [PyFloat K] [PyNumber K] [PyDecimal K] (env : SessionRuntime K P E)
  (session : ReasoningSession K P E)

namespace ReasoningSession

/-- A run that ended with this result in this world, from this tally, is not lost: its metrics can
be computed, and if it is to be archived, saving loses nothing. -/
structure Keeps (result : SearchResult K) (baseline : Option TokenUsage) (world : P × E × Queue K) :
    Prop where
  metrics : ∀ n < result.tree.arena.size,
    ∃ i, BoundedRevisionPolicy.attemptsOf (result.metadata n) = .ok i
  archive : ∀ directory ∈ session.archiveDir, ∀ metrics,
    RunMetrics.fromResult result (session.spent baseline world.1) = .ok metrics →
      SaveTolerated env.storage result metrics.toDict
        (directory.join (fileName env result.outcome world.2.1).1)
        (fileName env result.outcome world.2.1).2

variable {env session}

omit [PyNumber K] in
/-- Archiving returns when it saves nothing, or saves with tolerated faults only. -/
theorem archive_ok_iff [PrintedFloats K] {result : SearchResult K} {metrics : RunMetrics K}
    {s : E × Disk} : (∃ path t, session.archive env result metrics s = .ok path t) ↔
      ∀ directory ∈ session.archiveDir, SaveTolerated env.storage result metrics.toDict
        (directory.join (fileName env result.outcome s.1).1)
        (fileName env result.outcome s.1).2 := by
  unfold archive
  cases session.archiveDir with
  | none => exact iff_of_true ⟨_, _, rfl⟩ fun _ h => by cases h
  | some directory =>
    simp only [Option.mem_some_iff, forall_eq']
    rw [← survived_saveRun (s := ((fileName env result.outcome s.1).2, s.2))]
    rfl

omit [PyNumber K] in
/-- Settling a run changes neither the policies nor the queue. -/
theorem settle_eq {result : SearchResult K} {metrics : RunMetrics K} {s : (P × E × Queue K) × Disk} :
    (∃ t : E × Disk, session.settle env result metrics s = .ok () ((s.1.1, t.1, s.1.2.2), t.2) ∧
      ∃ path, session.archive env result metrics (s.1.2.1, s.2) = .ok path t) ∨
    ∃ e, ∃ t : E × Disk, session.settle env result metrics s = .error e ((s.1.1, t.1, s.1.2.2), t.2) ∧
      session.archive env result metrics (s.1.2.1, s.2) = .error e t := by
  cases h : session.archive env result metrics (s.1.2.1, s.2) with
  | ok path t =>
    have hbeside : beside (session.archive env result metrics) s =
        .ok path ((s.1.1, t.1, s.1.2.2), t.2) := by rw [beside, h]
    exact .inl ⟨t, by rw [settle, bind_of_ok hbeside]; rfl, path, rfl⟩
  | error e t =>
    have hbeside : beside (session.archive env result metrics) s =
        .error e ((s.1.1, t.1, s.1.2.2), t.2) := by rw [beside, h]
    exact .inr ⟨e, t, by rw [settle, bind_of_error hbeside], rfl⟩

/-- After the search a run goes through, or it raises and leaves the queue as it was, according to
whether it keeps its result. -/
theorem settled_of_keeps [PrintedFloats K] {α : Type} {result : SearchResult K}
    {baseline : Option TokenUsage} {s : (P × E × Queue K) × Disk}
    (f : RunMetrics K → Work K P E α) :
    (session.Keeps env result baseline s.1 ∧ ∃ metrics, ∃ t : E × Disk,
      (session.metrics result baseline >>= fun metrics =>
        session.settle env result metrics >>= fun _ => f metrics) s =
          f metrics ((s.1.1, t.1, s.1.2.2), t.2)) ∨
    ¬ session.Keeps env result baseline s.1 ∧ ∃ e, ∃ t : E × Disk,
      (session.metrics result baseline >>= fun metrics =>
        session.settle env result metrics >>= fun _ => f metrics) s =
          .error e ((s.1.1, t.1, s.1.2.2), t.2) := by
  have hmetrics := fromResult_ok_iff result (session.spent baseline s.1.1)
  cases hm : RunMetrics.fromResult result (session.spent baseline s.1.1) with
  | error e =>
    refine .inr ⟨fun h => ?_, .raised e, (s.1.2.1, s.2), ?_⟩
    · obtain ⟨m, hm'⟩ := hmetrics.mpr h.metrics
      cases hm.symm.trans hm'
    · refine bind_of_error ?_
      rw [ReasoningSession.metrics, hm]
      rfl
  | ok metrics =>
    have hrun : session.metrics result baseline s = .ok metrics s := by
      rw [ReasoningSession.metrics, hm]
      rfl
    have hkeeps : session.Keeps env result baseline s.1 ↔
        ∃ path t, session.archive env result metrics (s.1.2.1, s.2) = .ok path t := by
      rw [archive_ok_iff]
      refine ⟨fun h directory hdir => h.archive directory hdir metrics hm, fun h => ⟨?_, ?_⟩⟩
      · exact hmetrics.mp ⟨metrics, hm⟩
      · intro directory hdir m hm'
        cases hm.symm.trans hm'
        exact h directory hdir
    rcases @settle_eq K P E _ _ env session result metrics s with
      ⟨t, hsettle, hok⟩ | ⟨e, t, hsettle, herror⟩
    · refine .inl ⟨hkeeps.mpr (hok.imp fun path h => ⟨t, h⟩), metrics, t, ?_⟩
      rw [bind_of_ok hrun, bind_of_ok hsettle]
    · refine .inr ⟨fun h => ?_, e, t, ?_⟩
      · obtain ⟨path, t', h⟩ := hkeeps.mp h
        cases herror.symm.trans h
      · rw [bind_of_ok hrun, bind_of_error hsettle]

/-- The queue ends with the metrics, the result and the end mark, behind what the search has put
there. -/
def EndsWithResult (env : SessionRuntime K P E) (result : SearchResult K) (before after : Queue K) :
    Prop :=
  ∃ (metrics : RunMetrics K) (now later : K), after = before ++
    [some (metricsMessage metrics now), some (resultEnvelope env.freshId result later), none]

/-- What `run` returns is what its search has returned. -/
theorem search_of_run {result : SearchResult K} {s t : (P × E × Queue K) × Disk}
    (h : session.run env s = .ok result t) : ∃ w, session.search env none none s.1 = .ok result w := by
  rw [run, get_bind_run] at h
  obtain ⟨result', s₁, hsearch, h⟩ := exists_ok_of_bind h
  obtain ⟨metrics, s₂, -, h⟩ := exists_ok_of_bind h
  obtain ⟨⟨⟩, s₃, -, h⟩ := exists_ok_of_bind h
  cases h
  exact (inWorld_ok hsearch).1

/-- Once the search has returned, `run` returns its result and the stream ends with it exactly when
the run keeps its result. -/
theorem archive_keeps_run_iff [PrintedFloats K] :
    (∀ s result w, session.search env none none s.1 = .ok result w →
      ((∃ t, session.run env s = .ok result t) ↔
        session.Keeps env result (session.tally s.1.1) w)) ∧
    ∀ cancelled s result w, session.search env (some cancelled) (some (sink env)) s.1 = .ok result w →
      (EndsWithResult env result w.2.2 (finalState (session.work env cancelled s)).1.2.2 ↔
        session.Keeps env result (session.tally s.1.1) w) := by
  constructor
  · intro s result w hsearch
    have hworld : inWorld (session.search env none none) s = .ok result (w, s.2) := by
      rw [inWorld, hsearch]
    rw [run, get_bind_run, bind_of_ok hworld]
    rcases @settled_of_keeps K P E _ _ _ env session _ _ result (session.tally s.1.1) (w, s.2)
      (fun _ => pure result) with ⟨hkeeps, metrics, t, hrun⟩ | ⟨hlost, e, t, hrun⟩
    · exact iff_of_true ⟨_, hrun⟩ hkeeps
    · refine iff_of_false ?_ hlost
      rintro ⟨t', h⟩
      cases hrun.symm.trans h
  · intro cancelled s result w hsearch
    have hworld : inWorld (session.search env (some cancelled) (some (sink env))) s =
        .ok result (w, s.2) := by rw [inWorld, hsearch]
    rw [work, marked, get_bind_run, bind_of_ok hworld]
    rcases @settled_of_keeps K P E _ _ _ env session _ _ result (session.tally s.1.1) (w, s.2)
      (fun metrics => put env (metricsMessage metrics) >>= fun _ =>
        put env (resultEnvelope env.freshId result)) with
      ⟨hkeeps, metrics, t, hrun⟩ | ⟨hlost, e, t, hrun⟩
    · rw [hrun]
      refine iff_of_true ⟨metrics, (env.time t.1).1, (env.time (env.time t.1).2).1, ?_⟩ hkeeps
      rw [bind_of_ok (rfl : put env (metricsMessage metrics) ((w.1, t.1, w.2.2), t.2) = _)]
      simp [put, finalState]
    · rw [hrun]
      refine iff_of_false ?_ hlost
      rintro ⟨metrics, now, later, h⟩
      have hlength := congrArg List.length h
      simp [finalState] at hlength

end ReasoningSession

end Keeping

section Examples

open ReasoningSession

/-- Policies that have nothing to propose. -/
def idlePolicies : Policies ℚ Unit where
  generator _ _ _ metadata world := ⟨.ok [], metadata, world⟩
  evaluator _ _ metadata world := ⟨.ok halfway, metadata, world⟩
  critic := none
  revisionPolicy := none
  rewardModel := none

/-- Surroundings whose file system answers like this when a directory is made. -/
def stillSession (makeDirectory : Option Exc) : SessionRuntime ℚ Unit Unit where
  monotonic _ e := (0, e)
  random _ _ := 0
  freshId n := List.replicate n 110
  schedule _ _ _ := []
  time e := (0, e)
  storage := {
    limits := .unlimited
    cwd := []
    nodeId n := List.replicate n 110
    utcNow e := (lit "2025-01-01T00:00:00+00:00", e)
    makeDirectory _ e := (makeDirectory, e)
    openFile _ e := (none, e)
    writeFile _ _ e := (none, e) }
  stamp e := (lit "20250101T000000Z", e)
  suffix e := (lit "abcdef", e)

/-- A session with these policies that archives its runs. -/
def idleSession (task : Str) (checked : Str.strip task ≠ []) : ReasoningSession ℚ Unit Unit where
  task := task
  config := smallConfig
  policies := idlePolicies
  stopCondition := none
  archiveDir := some (PurePath.ofText (lit "runs"))
  usage := none
  checked := checked

/-- A plain task is not blank. -/
theorem strip_plain : Str.strip (lit "task") ≠ [] := by decide

/-- A surrogate is not blank. -/
theorem strip_surrogate : Str.strip [0xd800] ≠ [] := by decide

/-- The state in which a session starts. -/
def freshStart : (Unit × Unit × Queue ℚ) × Disk := (((), (), []), ⟨fun _ => none, []⟩)

instance : PrintedFloats ℚ where
  ascii x := by
    have hdigits : ∀ n, ∀ c ∈ Str.ofNat n, c.val < 128 := by
      intro n c hc
      have hdigit := Str.digit_of_mem_ofNat hc
      omega
    change ∀ c ∈ showThousandths x, c.val < 128
    simp only [showThousandths, List.forall_mem_append]
    refine ⟨⟨hdigits _, fun c hc => ?_⟩, fun c hc => hdigits _ c (List.mem_of_mem_tail hc)⟩
    rw [List.mem_singleton.mp hc]
    decide

/-- A run whose directory cannot be made returns its result, and it keeps it. -/
theorem archive_keeps_run_unwritable : ∃ result w,
    (idleSession (lit "task") strip_plain).search
      (stillSession (some ⟨lit "PermissionError", []⟩)) none none freshStart.1 = .ok result w ∧
    (idleSession (lit "task") strip_plain).Keeps
      (stillSession (some ⟨lit "PermissionError", []⟩)) result none w := by
  obtain ⟨result, t, hrun, -⟩ := exists_ok_of_returned (show (returned
    ((idleSession (lit "task") strip_plain).run
      (stillSession (some ⟨lit "PermissionError", []⟩)) freshStart)).map
        (fun result => result.outcome) = some .exhausted by decide +kernel)
  obtain ⟨w, hsearch⟩ := search_of_run hrun
  exact ⟨result, w, hsearch, (archive_keeps_run_iff.1 _ _ _ hsearch).mp ⟨t, hrun⟩⟩

/-- A task with a surrogate: the search returns, but `run` raises in place of returning. -/
theorem surrogate_loses_run : ∃ result w,
    (idleSession [0xd800] strip_surrogate).search (stillSession none) none none freshStart.1 =
      .ok result w ∧
    ¬ ∃ t, (idleSession [0xd800] strip_surrogate).run (stillSession none) freshStart =
      .ok result t := by
  obtain ⟨result, w, hsearch, -⟩ := exists_ok_of_returned (show (returned
    ((idleSession [0xd800] strip_surrogate).search (stillSession none) none none
      freshStart.1)).map (fun result => result.outcome) = some .exhausted by decide +kernel)
  refine ⟨result, w, hsearch, ?_⟩
  rintro ⟨t, hrun⟩
  have hraised : (returned ((idleSession [0xd800] strip_surrogate).run (stillSession none)
      freshStart)).isNone = true := by decide +kernel
  rw [hrun] at hraised
  cases hraised

end Examples

end CognitiveTree.Session
