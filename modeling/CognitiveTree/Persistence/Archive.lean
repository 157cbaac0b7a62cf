import CognitiveTree.Core.Paths
import CognitiveTree.Persistence.Serialization
import CognitiveTree.Search.JsonShape
import Mathlib.Logic.Function.Basic

/-!
# Archives of runs

A run is saved as one JSON document. The directory is made first; the text of the document is
computed before the file is opened, its bytes only afterwards.
-/

namespace CognitiveTree.Persistence

open Search Observability Json

/-- `ARCHIVE_FORMAT`. -/
def archiveFormat : Str := lit "cognitivetree-run"

/-- `ARCHIVE_VERSION`. -/
def archiveVersion : Int := 1

section Document

variable {K : Type} [PyFloat K]

/-- One entry of the archived history. -/
def transitionValue (t : PhaseTransition K) : PyVal K :=
  .dict [(lit "source", .str t.source.value), (lit "target", .str t.target.value),
    (lit "note", .str t.note), (lit "timestamp", .float t.timestamp)]

/-- `result_to_archive_document(result, metrics)` at a time. -/
def resultToArchiveDocument (ids : Nat → Str) (savedAt : Str) (result : SearchResult K)
    (metrics : PyVal K) : Except Exc (PyVal K) := do
  let tree ← treeToDict ids result.metadata true result.tree.arena
  pure (.dict [(lit "format", .str archiveFormat), (lit "version", .int archiveVersion),
    (lit "saved_at", .str savedAt), (lit "task", .str (result.tree.arena.node 0).content),
    (lit "outcome", .str result.outcome.value), (lit "iterations", .int result.iterations),
    (lit "node_count", .int result.nodeCount), (lit "error", .str result.error),
    (lit "best_path", .list (result.bestPath.map fun n => .str (ids n))), (lit "tree", tree),
    (lit "phase_history", .list (result.phaseHistory.map transitionValue)),
    (lit "metrics", metrics)])

/-- The archive document, by recursion over the tree. -/
def archiveDocument (ids : Nat → Str) (savedAt : Str) (result : SearchResult K)
    (metrics : PyVal K) : PyVal K :=
  let tree := PyVal.dict [(lit "size", .int result.tree.arena.size),
    (lit "root", subtreePayload ids result.metadata true result.tree.arena 0)]
  .dict [(lit "format", .str archiveFormat), (lit "version", .int archiveVersion),
    (lit "saved_at", .str savedAt), (lit "task", .str (result.tree.arena.node 0).content),
    (lit "outcome", .str result.outcome.value), (lit "iterations", .int result.iterations),
    (lit "node_count", .int result.nodeCount), (lit "error", .str result.error),
    (lit "best_path", .list (result.bestPath.map fun n => .str (ids n))), (lit "tree", tree),
    (lit "phase_history", .list (result.phaseHistory.map transitionValue)),
    (lit "metrics", metrics)]

/-- Every result has a document. -/
theorem resultToArchiveDocument_eq (ids : Nat → Str) (savedAt : Str) (result : SearchResult K)
    (metrics : PyVal K) : resultToArchiveDocument ids savedAt result metrics =
      .ok (archiveDocument ids savedAt result metrics) := by
  rw [resultToArchiveDocument, treeToDict, toDict_eq result.tree.arena.linked.nonempty]
  rfl

/-- The strings of a node are free of surrogates. -/
structure CleanNode (ids : Nat → Str) (metadata : Nat → Metadata K) (a : Arena K) (n : Nat) :
    Prop where
  id : Utf8.Clean (ids n)
  content : Utf8.Clean (a.node n).content
  rationale : Utf8.Clean (a.node n).rationale
  metadata : PyVal.Clean (.dict (metadata n))

/-- The numbers of a node are short enough to be printed, and its metadata have a text below the
level of the node. -/
structure ShapedNode (limits : Limits) (metadata : Nat → Metadata K) (a : Arena K) (n : Nat) :
    Prop where
  depth : Prints limits (a.node n).depth
  visits : Prints limits (a.node n).visits
  metadata : PyVal.Shaped limits (2 * (a.node n).depth + 3) (.dict (metadata n))

/-- The strings of a result are free of surrogates. -/
structure CleanResult (ids : Nat → Str) (result : SearchResult K) : Prop where
  node : ∀ n < result.tree.arena.size, CleanNode ids result.metadata result.tree.arena n
  path : ∀ n ∈ result.bestPath, Utf8.Clean (ids n)
  note : ∀ t ∈ result.phaseHistory, Utf8.Clean t.note
  error : Utf8.Clean result.error

/-- The numbers and the metadata of a result have a text. -/
structure ShapedResult (limits : Limits) (result : SearchResult K) : Prop where
  node : ∀ n < result.tree.arena.size, ShapedNode limits result.metadata result.tree.arena n
  size : Prints limits result.tree.arena.size
  iterations : Prints limits result.iterations
  nodeCount : Prints limits result.nodeCount

variable {ids : Nat → Str} {metadata : Nat → Metadata K} {a : Arena K} {limits : Limits}

omit [PyFloat K] in
/-- What holds below a node holds of the node and below its children. -/
theorem forall_preorder_iff {P : Nat → Prop} {n : Nat} (hn : n < a.size) :
    (∀ m ∈ a.preorder n, P m) ↔ P n ∧ ∀ c ∈ (a.node n).children, ∀ m ∈ a.preorder c, P m := by
  rw [Arena.preorder_eq a hn, List.forall_mem_cons]
  simp only [List.mem_flatMap, forall_exists_index, and_imp]
  exact and_congr_right fun _ => ⟨fun h c hc m hm => h m c hc hm, fun h m c hc hm => h c hc m hm⟩

/-- No status has a surrogate. -/
theorem clean_statusValue (status : NodeStatus) : Utf8.Clean (statusValue status) := by
  cases status <;> exact Utf8.clean_lit _

/-- The payload of a subtree has no surrogate when no node of it has. -/
theorem clean_subtreePayload {n : Nat} (hn : n < a.size) :
    (subtreePayload ids metadata true a n).Clean ↔
      ∀ m ∈ a.preorder n, CleanNode ids metadata a m := by
  refine a.leaf_induction (motive := fun n => (subtreePayload ids metadata true a n).Clean ↔
    ∀ m ∈ a.preorder n, CleanNode ids metadata a m) ?_ n hn
  intro n hn ih
  have hchildren : (∀ v ∈ (a.node n).children.map (subtreePayload ids metadata true a), v.Clean) ↔
      ∀ c ∈ (a.node n).children, ∀ m ∈ a.preorder c, CleanNode ids metadata a m := by
    rw [List.forall_mem_map]
    exact forall_congr' fun c => imp_congr_right fun hc => ih c hc
  rw [forall_preorder_iff hn, subtreePayload_eq hn, payload, ← hchildren]
  simp only [List.cons_append, List.nil_append, if_true, PyVal.Clean, PyVal.CleanItems,
    Utf8.clean_lit, clean_statusValue, true_and, and_true, PyVal.cleanElements_iff]
  constructor
  · rintro ⟨hid, hcontent, hrationale, hbelow, hmetadata⟩
    exact ⟨⟨hid, hcontent, hrationale, hmetadata⟩, hbelow⟩
  · rintro ⟨⟨hid, hcontent, hrationale, hmetadata⟩, hbelow⟩
    exact ⟨hid, hcontent, hrationale, hbelow, hmetadata⟩

/-- A lower level is within the recursion limit too. -/
theorem admits_mono {level level' : Nat} (h : Admits limits level') (hle : level ≤ level') :
    Admits limits level :=
  fun limit hlimit => lt_of_le_of_lt hle (h limit hlimit)

/-- The payload of a subtree is in shape when each node of it is. -/
theorem shaped_subtreePayload {n : Nat} (hn : n < a.size) :
    (subtreePayload ids metadata true a n).Shaped limits (2 * (a.node n).depth + 2) ↔
      ∀ m ∈ a.preorder n, ShapedNode limits metadata a m := by
  refine a.leaf_induction (motive := fun n =>
    (subtreePayload ids metadata true a n).Shaped limits (2 * (a.node n).depth + 2) ↔
      ∀ m ∈ a.preorder n, ShapedNode limits metadata a m) ?_ n hn
  intro n hn ih
  have hchildren : (∀ v ∈ (a.node n).children.map (subtreePayload ids metadata true a),
      v.Shaped limits (2 * (a.node n).depth + 2 + 1 + 1)) ↔
        ∀ c ∈ (a.node n).children, ∀ m ∈ a.preorder c, ShapedNode limits metadata a m := by
    rw [List.forall_mem_map]
    refine forall_congr' fun c => imp_congr_right fun hc => ?_
    have hdepth := a.linked.depth_eq c n (Arena.mem_children.mp hc).1 (Arena.mem_children.mp hc).2
    rw [← ih c hc]
    change PyVal.Shaped limits _ _ ↔ PyVal.Shaped limits (2 * (a.node c).depth + 2) _
    rw [show (a.node c).depth = (a.node n).depth + 1 from hdepth]
    exact Iff.rfl
  rw [forall_preorder_iff hn, subtreePayload_eq hn, payload, ← hchildren]
  simp only [List.cons_append, List.nil_append, if_true, PyVal.Shaped, PyVal.ShapedItems,
    true_and, and_true, PyVal.shapedElements_iff]
  constructor
  · rintro ⟨-, hdepth, hvisits, ⟨-, hbelow⟩, hmetadata⟩
    exact ⟨⟨hdepth, hvisits, hmetadata⟩, hbelow⟩
  · rintro ⟨⟨hdepth, hvisits, hmetadata⟩, hbelow⟩
    exact ⟨admits_mono hmetadata.1 (by omega), hdepth, hvisits, ⟨hmetadata.1, hbelow⟩, hmetadata⟩

/-- No phase has a surrogate. -/
theorem clean_phaseValue (p : SearchPhase) : Utf8.Clean p.value := by
  cases p <;> exact Utf8.clean_lit _

/-- No outcome has a surrogate. -/
theorem clean_outcomeValue (outcome : SearchOutcome) : Utf8.Clean outcome.value := by
  cases outcome <;> exact Utf8.clean_lit _

/-- The document is free of surrogates exactly when its result, the time and the metrics are. -/
theorem clean_archiveDocument {savedAt : Str} {result : SearchResult K} {metrics : PyVal K} :
    (archiveDocument ids savedAt result metrics).Clean ↔
      CleanResult ids result ∧ Utf8.Clean savedAt ∧ metrics.Clean := by
  have hroot := result.tree.arena.linked.nonempty
  have htree : (subtreePayload ids result.metadata true result.tree.arena 0).Clean ↔
      ∀ n < result.tree.arena.size, CleanNode ids result.metadata result.tree.arena n := by
    rw [clean_subtreePayload hroot]
    refine forall_congr' fun m => imp_congr_left ?_
    rw [← Arena.walk_eq_preorder _ hroot]
    exact Arena.mem_walk_root
  simp only [archiveDocument, PyVal.Clean, PyVal.CleanItems, Utf8.clean_lit, clean_outcomeValue,
    true_and, and_true, PyVal.cleanElements_iff, List.forall_mem_map, transitionValue,
    clean_phaseValue, htree]
  constructor
  · rintro ⟨-, hsaved, -, herror, hpath, hnodes, hnotes, hmetrics⟩
    exact ⟨⟨hnodes, hpath, hnotes, herror⟩, hsaved, hmetrics⟩
  · rintro ⟨⟨hnodes, hpath, hnotes, herror⟩, hsaved, hmetrics⟩
    exact ⟨Utf8.clean_lit _, hsaved, (hnodes 0 hroot).content, herror, hpath, hnodes, hnotes,
      hmetrics⟩

/-- The document has a text exactly when its result and the metrics have. -/
theorem shaped_archiveDocument {savedAt : Str} {result : SearchResult K} {metrics : PyVal K} :
    (archiveDocument ids savedAt result metrics).Shaped limits 0 ↔
      ShapedResult limits result ∧ metrics.Shaped limits 1 := by
  have hroot := result.tree.arena.linked.nonempty
  have hdepth : (result.tree.arena.node 0).depth = 0 := result.tree.arena.linked.root_depth
  have htree : (subtreePayload ids result.metadata true result.tree.arena 0).Shaped limits 2 ↔
      ∀ n < result.tree.arena.size, ShapedNode limits result.metadata result.tree.arena n := by
    have hbelow := @shaped_subtreePayload K _ ids result.metadata result.tree.arena limits 0 hroot
    rw [hdepth] at hbelow
    rw [hbelow]
    refine forall_congr' fun m => imp_congr_left ?_
    rw [← Arena.walk_eq_preorder _ hroot]
    exact Arena.mem_walk_root
  simp only [archiveDocument, PyVal.Shaped, PyVal.ShapedItems, true_and, and_true,
    PyVal.shapedElements_iff, List.forall_mem_map, transitionValue, htree]
  constructor
  · rintro ⟨-, -, hiterations, hcount, -, ⟨-, hsize, hnodes⟩, -, hmetrics⟩
    exact ⟨⟨hnodes, hsize, hiterations, hcount⟩, hmetrics⟩
  · rintro ⟨⟨hnodes, hsize, hiterations, hcount⟩, hmetrics⟩
    have hadmits := (hnodes 0 hroot).metadata.1
    have hversion : Prints limits archiveVersion := by
      have hzero := (hnodes 0 hroot).depth
      rw [hdepth] at hzero
      exact hzero
    exact ⟨admits_mono hadmits (by omega), hversion, hiterations, hcount,
      ⟨admits_mono hadmits (by omega), fun _ _ => trivial⟩,
      ⟨admits_mono hadmits (by omega), hsize, hnodes⟩,
      ⟨admits_mono hadmits (by omega), fun _ _ => admits_mono hadmits (by omega)⟩, hmetrics⟩

end Document

/-- The files by their places, and the archives that were written, oldest first. -/
structure Disk where
  files : List Str → Option Bytes
  saves : List (PurePath × Bytes)

namespace Disk

/-- The file of a path has these bytes. -/
def put (cwd : List Str) (d : Disk) (path : PurePath) (bytes : Bytes) : Disk :=
  { d with files := Function.update d.files (path.locate cwd) (some bytes) }

/-- An archive was written. -/
def save (cwd : List Str) (d : Disk) (entry : PurePath × Bytes) : Disk :=
  { d.put cwd entry.1 entry.2 with saves := d.saves ++ [entry] }

/-- A file that was opened before is written over. -/
theorem save_put (cwd : List Str) (d : Disk) (path : PurePath) (bytes bytes' : Bytes) :
    (d.put cwd path bytes).save cwd (path, bytes') = d.save cwd (path, bytes') := by
  simp [save, put]

/-- Saved files are listed in their order. -/
theorem saves_foldl (cwd : List Str) (entries : List (PurePath × Bytes)) (d : Disk) :
    (entries.foldl (save cwd) d).saves = d.saves ++ entries := by
  induction entries generalizing d with
  | nil => simp
  | cons entry entries ih => rw [List.foldl_cons, ih, save, List.append_assoc, List.singleton_append]

/-- Saves elsewhere leave a file as it is. -/
theorem files_foldl_of_notMem {cwd : List Str} {entries : List (PurePath × Bytes)} {place : List Str}
    (h : place ∉ entries.map fun entry => entry.1.locate cwd) (d : Disk) :
    (entries.foldl (save cwd) d).files place = d.files place := by
  induction entries generalizing d with
  | nil => rfl
  | cons entry entries ih =>
    rw [List.map_cons, List.mem_cons, not_or] at h
    rw [List.foldl_cons, ih h.2]
    exact Function.update_of_ne h.1 _ _

/-- After saves in different places every file has the bytes of its own save. -/
theorem files_foldl {cwd : List Str} {entries : List (PurePath × Bytes)}
    (h : (entries.map fun entry => entry.1.locate cwd).Nodup) (d : Disk) :
    ∀ entry ∈ entries, (entries.foldl (save cwd) d).files (entry.1.locate cwd) = some entry.2 := by
  induction entries generalizing d with
  | nil => simp
  | cons entry entries ih =>
    rw [List.map_cons, List.nodup_cons] at h
    rw [List.forall_mem_cons]
    refine ⟨?_, ih h.2 _⟩
    rw [List.foldl_cons, files_foldl_of_notMem h.1]
    exact Function.update_self _ _ _

end Disk

/-- What saving asks of its surroundings. Each step of the file system may fail. -/
structure Storage (W : Type) where
  limits : Limits
  cwd : List Str
  nodeId : Nat → Str
  /-- `datetime.now(timezone.utc).isoformat()` -/
  utcNow : W → Str × W
  /-- `mkdir(parents=True, exist_ok=True)` -/
  makeDirectory : PurePath → W → Option Exc × W
  openFile : PurePath → W → Option Exc × W
  writeFile : PurePath → Bytes → W → Option Exc × W

/-- A program beside a disk. -/
abbrev Filed (W α : Type) := EStateM Signal (W × Disk) α

section Programs

variable {W α β : Type}

/-- A program that leaves the disk alone. -/
def inWorld (x : EStateM Signal W α) : Filed W α := fun s =>
  match x s.1 with
  | .ok a w => .ok a (w, s.2)
  | .error e w => .error e (w, s.2)

/-- A program of the world leaves the disk alone. -/
theorem inWorld_ok {x : EStateM Signal W α} {a : α} {s s' : W × Disk} (h : inWorld x s = .ok a s') :
    (∃ w, x s.1 = .ok a w) ∧ s'.2 = s.2 := by
  unfold inWorld at h
  cases hx : x s.1 with
  | ok b w =>
    rw [hx] at h
    cases h
    exact ⟨⟨w, rfl⟩, rfl⟩
  | error e w =>
    rw [hx] at h
    cases h

end Programs

section Saving

variable {K W α : Type} [PyFloat K] [PyDecimal K] (st : Storage W)

omit [PyFloat K] [PyDecimal K] in
/-- An answer or an exception. -/
def orRaise : Except Exc α → Filed W α
  | .ok a => pure a
  | .error e => throw (.raised e)

/-- A step of the file system. -/
def perform (step : W → Option Exc × W) : Filed W Unit := fun s =>
  match step s.1 with
  | (none, w) => .ok () (w, s.2)
  | (some e, w) => .error (.raised e) (w, s.2)

/-- A value that is read from the surroundings. -/
def observed (read : W → α × W) : Filed W α := fun s => .ok (read s.1).1 ((read s.1).2, s.2)

/-- Something that happens to the disk. -/
def onDisk (f : Disk → Disk) : Filed W Unit := fun s => .ok () (s.1, f s.2)

omit [PyFloat K] [PyDecimal K] in
/-- `text.encode("utf-8")`. -/
def encodeUtf8 (text : Str) : Except Exc Bytes :=
  match Utf8.encode text with
  | some bytes => .ok bytes
  | none => .error ⟨lit "UnicodeEncodeError", lit "surrogates not allowed"⟩

/-- `save_run(result, path, metrics)`. -/
def saveRun (result : SearchResult K) (path : PurePath) (metrics : PyVal K) :
    Filed W PurePath := do
  let savedAt ← observed st.utcNow
  let document ← orRaise (resultToArchiveDocument st.nodeId savedAt result metrics)
  perform (st.makeDirectory path.parent)
  let text ← orRaise (dumps st.limits false document)
  perform (st.openFile path)
  onDisk fun d => d.put st.cwd path []
  let bytes ← orRaise (encodeUtf8 text)
  perform (st.writeFile path bytes)
  onDisk fun d => d.save st.cwd (path, bytes)
  pure path

variable {st}

omit [PyFloat K] [PyDecimal K] in
/-- A computed value changes nothing. -/
theorem orRaise_ok {x : Except Exc α} {a : α} {s s' : W × Disk} (h : orRaise x s = .ok a s') :
    x = .ok a ∧ s' = s := by
  cases x with
  | ok b =>
    cases h
    exact ⟨rfl, rfl⟩
  | error e => cases h

omit [PyFloat K] [PyDecimal K] in
/-- A step of the file system that does not fail leaves the archives alone. -/
theorem perform_ok {step : W → Option Exc × W} {s s' : W × Disk} (h : perform step s = .ok () s') :
    s'.2 = s.2 := by
  unfold perform at h
  split at h
  · cases h
    rfl
  · cases h

/-- A run that was saved has an archive with its own bytes. -/
theorem saveRun_ok {result : SearchResult K} {path path' : PurePath} {metrics : PyVal K}
    {s s' : W × Disk} (h : saveRun st result path metrics s = .ok path' s') :
    ∃ bytes, s'.2 = s.2.save st.cwd (path, bytes) := by
  unfold saveRun at h
  obtain ⟨savedAt, s₁, hclock, h⟩ := exists_ok_of_bind h
  obtain ⟨document, s₂, hdocument, h⟩ := exists_ok_of_bind h
  obtain ⟨⟨⟩, s₃, hmake, h⟩ := exists_ok_of_bind h
  obtain ⟨text, s₄, htext, h⟩ := exists_ok_of_bind h
  obtain ⟨⟨⟩, s₅, hopen, h⟩ := exists_ok_of_bind h
  obtain ⟨⟨⟩, s₆, hput, h⟩ := exists_ok_of_bind h
  cases hclock
  obtain ⟨-, rfl⟩ := orRaise_ok hdocument
  obtain ⟨-, rfl⟩ := orRaise_ok htext
  cases hput
  obtain ⟨bytes, s₇, hbytes, h⟩ := exists_ok_of_bind h
  obtain ⟨⟨⟩, s₈, hwrite, h⟩ := exists_ok_of_bind h
  obtain ⟨⟨⟩, s₉, hsave, h⟩ := exists_ok_of_bind h
  obtain ⟨-, rfl⟩ := orRaise_ok hbytes
  cases hsave
  cases h
  refine ⟨bytes, ?_⟩
  dsimp only
  rw [perform_ok hwrite, perform_ok hopen, perform_ok hmake]
  exact Disk.save_put _ _ _ _ _

end Saving

end CognitiveTree.Persistence
