import CognitiveTree.Persistence.Reloading
import CognitiveTree.Search.JsonDepth

/-!
# The depth of serialized runs

A tree nests two containers for each of its levels. The cap on the depth of a search therefore
bounds the nesting of what is archived, streamed and read back of a run, whatever the search does.
-/

namespace CognitiveTree.Persistence

open Search Observability Feedback Json Ui

variable {K : Type}

section Documents

variable [PyFloat K] {ids : Nat → Str} {metadata : Nat → Metadata K} {withMetadata : Bool}
  {a : Arena K} {height room : Nat}

variable (ids) in
/-- A node nests two containers for each level that is left below it. -/
theorem nesting_subtreePayload (hdepth : ∀ n < a.size, (a.node n).depth ≤ height) (hroom : 1 ≤ room)
    (hmetadata : withMetadata = true → ∀ n < a.size, (PyVal.dict (metadata n)).nesting ≤ room)
    {n : Nat} (hn : n < a.size) :
    (subtreePayload ids metadata withMetadata a n).nesting ≤
      2 * (height - (a.node n).depth) + room + 1 := by
  refine a.leaf_induction (motive := fun n => (subtreePayload ids metadata withMetadata a n).nesting ≤
    2 * (height - (a.node n).depth) + room + 1) ?_ n hn
  intro n hn ih
  have hchildren : (PyVal.list ((a.node n).children.map
      (subtreePayload ids metadata withMetadata a))).nesting ≤
        2 * (height - (a.node n).depth) + room := by
    obtain ⟨k, hk⟩ := Nat.exists_eq_add_of_le' (Nat.le_add_left_of_le hroom)
    rw [hk, PyVal.nesting_list_le, List.forall_mem_map]
    intro c hc
    have hbelow := ih c hc
    have hlevel := a.linked.depth_eq c n (Arena.mem_children.mp hc).1 (Arena.mem_children.mp hc).2
    have hc := hdepth c (Arena.mem_children.mp hc).1
    omega
  rw [subtreePayload_eq hn, payload, PyVal.nesting_dict_le, List.forall_mem_append]
  constructor
  · simp only [List.forall_mem_cons, PyVal.nesting, Nat.zero_le, true_and] at hchildren ⊢
    exact ⟨hchildren, fun _ h => by cases h⟩
  · split
    · rename_i hwith
      rw [List.forall_mem_singleton]
      exact (hmetadata hwith n hn).trans (Nat.le_add_left _ _)
    · simp

variable (ids) in
/-- The root of a tree is at level zero. -/
theorem nesting_tree (hdepth : ∀ n < a.size, (a.node n).depth ≤ height) (hroom : 1 ≤ room)
    (hmetadata : withMetadata = true → ∀ n < a.size, (PyVal.dict (metadata n)).nesting ≤ room) :
    (PyVal.dict [(lit "size", .int a.size),
      (lit "root", subtreePayload ids metadata withMetadata a 0)]).nesting ≤
        2 * height + room + 2 := by
  have hroot := nesting_subtreePayload ids hdepth hroom hmetadata a.linked.nonempty
  rw [show (a.node 0).depth = 0 from a.linked.root_depth, Nat.sub_zero] at hroot
  rw [PyVal.nesting_dict_le]
  simp only [List.forall_mem_cons]
  exact ⟨Nat.zero_le _, hroot, fun _ h => by cases h⟩

/-- The document of a run nests one container more than its tree. -/
theorem nesting_archiveDocument {savedAt : Str} {result : SearchResult K} {metrics : PyVal K}
    (hdepth : ∀ n < result.tree.arena.size, (result.tree.arena.node n).depth ≤ height)
    (hmetadata : ∀ n < result.tree.arena.size, (PyVal.dict (result.metadata n)).nesting ≤ room)
    (hmetrics : metrics.nesting ≤ 2 * height + room + 2) :
    (archiveDocument ids savedAt result metrics).nesting ≤ 2 * height + room + 3 := by
  have hroom : 1 ≤ room :=
    (Nat.le_add_left 1 _).trans (hmetadata 0 result.tree.arena.linked.nonempty)
  have htree := nesting_tree ids hdepth hroom fun _ : true = true => hmetadata
  have hpath : (PyVal.list (result.bestPath.map fun n => (.str (ids n) : PyVal K))).nesting ≤
      2 * height + room + 2 := by
    rw [PyVal.nesting_list_le, List.forall_mem_map]
    exact fun _ _ => Nat.zero_le _
  have hhistory : (PyVal.list (result.phaseHistory.map transitionValue)).nesting ≤
      2 * height + room + 2 := by
    rw [PyVal.nesting_list_le, List.forall_mem_map]
    intro t _
    rw [transitionValue, show 2 * height + room + 1 = 2 * height + room + 0 + 1 from rfl,
      PyVal.nesting_dict_le]
    simp [PyVal.nesting]
  rw [archiveDocument, PyVal.nesting_dict_le]
  simp only [List.forall_mem_cons]
  exact ⟨Nat.zero_le _, Nat.zero_le _, Nat.zero_le _, Nat.zero_le _, Nat.zero_le _, Nat.zero_le _,
    Nat.zero_le _, Nat.zero_le _, hpath, htree, hhistory, hmetrics, fun _ h => by cases h⟩

/-- A snapshot leaves the metadata out. -/
theorem nesting_snapshotEnvelope {ts : K} {envelope : PyVal K}
    (hdepth : ∀ n < a.size, (a.node n).depth ≤ height)
    (h : snapshotEnvelope ids a ts = .ok envelope) : envelope.nesting ≤ 2 * height + 4 := by
  rw [snapshotEnvelope, treeToDict, toDict_eq a.linked.nonempty] at h
  cases h
  have htree : (PyVal.dict [(lit "size", .int a.size),
      (lit "root", subtreePayload ids (fun _ => []) false a 0)]).nesting ≤ 2 * height + 1 + 2 :=
    nesting_tree ids hdepth le_rfl fun h => by cases h
  rw [PyVal.nesting_dict_le]
  simp only [List.forall_mem_cons]
  exact ⟨Nat.zero_le _, htree, Nat.zero_le _, fun _ h => by cases h⟩

end Documents

section Runs

variable [PyFloat K] {W : Type} {ctl : TreeSearchController K W} {rt : Runtime K W} {task : Str}
  {draws : Nat}

/-- No node of a run is deeper than the cap. -/
theorem depth_le_cap {c : Stage K × RunState K W} (h : Reach ctl rt task draws c) :
    ∀ n < c.2.tree.arena.size, (c.2.tree.arena.node n).depth ≤ maxSupportedDepth := by
  intro n hn
  obtain ⟨-, -, hcap, -⟩ := ctl.config.bounds
  exact (h.inv.sound.depth_le n hn).trans hcap

variable [PyDecimal K]

/-- The cap on the depth keeps every run serializable: beside what the policies put into the
metadata it is never the depth for which an archive or a snapshot is refused, or a document that
was written is not read back. -/
theorem run_serializable [PyNumber K] [FloatText K] {world : W} {result : SearchResult K}
    {final : RunState K W} (hrun : ctl.run rt task draws world = .ok result final)
    {metrics : PyVal K} {room : Nat}
    (hmetadata : ∀ n < result.tree.arena.size, (PyVal.dict (result.metadata n)).nesting ≤ room)
    (hmetrics : metrics.nesting ≤ 2 * maxSupportedDepth + room + 2) {limits : Limits}
    (hlimits : ∀ limit ∈ limits.depth, 2 * maxSupportedDepth + room + 3 ≤ limit)
    (ids : Nat → Str) (savedAt : Str) :
    (∀ ascii e, dumps limits ascii (archiveDocument ids savedAt result metrics) = .error e →
      e.typeName ≠ recursionError.typeName) ∧
    (∀ c ts envelope e, Reach ctl rt task draws c →
      snapshotEnvelope ids c.2.tree.arena ts = .ok envelope → dumpsCompact limits envelope = .error e →
        e.typeName ≠ recursionError.typeName) ∧
    ∀ writing text, writing.digits = limits.digits → PortableResult result → metrics.Portable →
      dumps writing false (archiveDocument ids savedAt result metrics) = .ok text →
        loads (pyHooks K) limits text = .ok (archiveDocument ids savedAt result metrics) := by
  have hspec := run_spec ctl rt task draws world
  rw [hrun] at hspec
  have hdepth := depth_le_cap hspec.reach
  rw [← hspec.tree] at hdepth
  have hfits : Fits limits 0 (2 * maxSupportedDepth + room + 3) := by
    intro limit hlimit
    rw [Nat.zero_add]
    exact hlimits limit hlimit
  have hdocument : Fits limits 0 (archiveDocument ids savedAt result metrics).nesting :=
    hfits.mono (nesting_archiveDocument hdepth hmetadata hmetrics)
  refine ⟨fun ascii e h => encode_recursion 0 _ h hdocument, ?_, ?_⟩
  · intro c ts envelope e hreach htaken h
    have hroom : 1 ≤ room :=
      (Nat.le_add_left 1 _).trans (hmetadata 0 result.tree.arena.linked.nonempty)
    have hnesting := nesting_snapshotEnvelope (depth_le_cap hreach) htaken
    exact compact_recursion 0 _ h (hfits.mono (by omega))
  · intro writing text hdigits hresult hportable h
    have hshaped := (encode_ok_iff 0 _).mp ⟨text, h⟩
    exact loads_dumps h (hshaped.of_fits hdigits.symm 0 _ hdocument)
      (portable_archiveDocument hresult hportable)

/-- A run of two iterations, under the least recursion limit that empty metadata need: its snapshots
and its archive are written, and what was written without a limit is decoded. -/
theorem run_serializable_whole : ∃ result final,
    (pathController wholeConfig (fun _ => [lit "go on"]) (fun _ => unfinished) :
      TreeSearchController WholeFloat Unit).run (Runtime.still fun _ _ => ⟨0⟩) (lit "task") 0 () =
        .ok result final ∧
    (∀ ascii e, dumps ⟨none, some 516⟩ ascii
      (archiveDocument calmStorage.nodeId (lit "now") result (.none : PyVal WholeFloat)) = .error e →
        e.typeName ≠ recursionError.typeName) ∧
    (∀ c ts envelope e, Reach (pathController wholeConfig (fun _ => [lit "go on"])
        (fun _ => unfinished) : TreeSearchController WholeFloat Unit) (Runtime.still fun _ _ => ⟨0⟩)
          (lit "task") 0 c →
      snapshotEnvelope calmStorage.nodeId c.2.tree.arena ts = .ok envelope →
        dumpsCompact ⟨none, some 516⟩ envelope = .error e → e.typeName ≠ recursionError.typeName) ∧
    ∃ text, dumps .unlimited false
        (archiveDocument calmStorage.nodeId (lit "now") result (.none : PyVal WholeFloat)) = .ok text ∧
      loads (pyHooks WholeFloat) ⟨none, some 516⟩ text =
        .ok (archiveDocument calmStorage.nodeId (lit "now") result .none) := by
  obtain ⟨result, final, hrun, hplain⟩ := exists_ok_of_returned (show (returned
    ((pathController wholeConfig (fun _ => [lit "go on"]) (fun _ => unfinished) :
      TreeSearchController WholeFloat Unit).run (Runtime.still fun _ _ => ⟨0⟩) (lit "task") 0 ())).map
        plainResult = some true by decide +kernel)
  obtain ⟨hportable, hshaped⟩ := plainResult_spec hplain
  have hmetadata : ∀ n < result.tree.arena.size, (PyVal.dict (result.metadata n)).nesting ≤ 1 := by
    intro n hn
    rw [metadata_of_plainResult hplain n hn]
    exact le_rfl
  have hlimits : ∀ limit ∈ (⟨none, some 516⟩ : Limits).depth,
      2 * maxSupportedDepth + 1 + 3 ≤ limit := by decide
  have hmetrics : (.none : PyVal WholeFloat).nesting ≤ 2 * maxSupportedDepth + 1 + 2 := Nat.zero_le _
  obtain ⟨harchive, hsnapshot, hdecoded⟩ :=
    run_serializable hrun hmetadata hmetrics hlimits calmStorage.nodeId (lit "now")
  have hdocument : (archiveDocument calmStorage.nodeId (lit "now") result
      (.none : PyVal WholeFloat)).Shaped .unlimited 0 :=
    shaped_archiveDocument.mpr ⟨hshaped, trivial⟩
  obtain ⟨text, htext⟩ := (encode_ok_iff 0 _).mpr hdocument
  exact ⟨result, final, hrun, harchive, hsnapshot, text, htext,
    hdecoded .unlimited text rfl hportable trivial htext⟩

end Runs

end CognitiveTree.Persistence
