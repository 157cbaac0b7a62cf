import CognitiveTree.Persistence.Reloading
import CognitiveTree.Session.Consuming

/-!
# Replays of archived runs

A replay yields the envelopes of an archived run again. It stands in for the live stream: entry by
entry it shows the same phases with the same details, the same metrics and the same result, with
the final tree in every snapshot.
-/

namespace CognitiveTree.Persistence

open Search Observability Feedback Json Ui

/-- Rounding to the digits that a tree is written with changes nothing the second time. -/
class StableRounding (K : Type) [PyFloat K] : Prop where
  round_round : ∀ x : K, PyFloat.round (PyFloat.round x 6) 6 = PyFloat.round x 6

variable {K : Type}

section Dictionaries

variable [PyFloat K]

/-- The payload of one restored node, with those of its children. -/
def BareNode.payload (includeMetadata : Bool) (bare : BareNode K) (children : List (PyVal K)) :
    PyVal K :=
  .dict ([(lit "id", bare.id), (lit "content", bare.content),
    (lit "status", .str (statusValue bare.status)), (lit "depth", .int bare.depth),
    (lit "visits", .int bare.visits), (lit "value_sum", .float (PyFloat.round bare.valueSum 6)),
    (lit "score", .float (PyFloat.round bare.score 6)), (lit "rationale", bare.rationale),
    (lit "children", .list children)] ++
    if includeMetadata then [(lit "metadata", .dict bare.metadata)] else [])

/-- The loop of `to_dict` over the restored nodes that are left. -/
def loadedPayloadsFrom (includeMetadata : Bool) (nodes : List (Rebuilt K)) :
    List Nat → Dict Nat (PyVal K) → Except Exc (Dict Nat (PyVal K))
  | [], table => .ok table
  | n :: rest, table => do
    let children ← payloadsOf table (childrenOf nodes n)
    match bareAt nodes n with
    | some bare =>
      loadedPayloadsFrom includeMetadata nodes rest
        (table.set n (bare.payload includeMetadata children))
    | none => loadedPayloadsFrom includeMetadata nodes rest table -- never: a walk meets nodes

/-- `tree.to_dict(include_metadata)` of a restored tree. -/
def LoadedTree.toDict (includeMetadata : Bool) (tree : LoadedTree K) : Except Exc (PyVal K) := do
  let payloads ← loadedPayloadsFrom includeMetadata tree.nodes (walked tree.nodes).reverse []
  let root ← payloadOf payloads 0
  pure (.dict [(lit "size", .int tree.index.length), (lit "root", root)])

variable {includeMetadata : Bool} {ids : Nat → Str} {metadata : Nat → Metadata K} {a : Arena K}
  {tree : LoadedTree K} {position : Nat → Nat}

/-- The data of a node that was written and read are written again as those of the node. -/
theorem payload_restored [StableRounding K] (n : Nat) (children : List (PyVal K)) :
    (restored ids metadata true a n).payload includeMetadata children =
      payload ids metadata includeMetadata a n children := by
  simp [BareNode.payload, payload, restored, StableRounding.round_round]

omit [PyFloat K] in
/-- The payloads at the places of nodes. -/
theorem payloadsOf_map {table : Dict Nat (PyVal K)} {value : Nat → PyVal K} {cs : List Nat}
    (h : ∀ c ∈ cs, table.get? (position c) = some (value c)) :
    payloadsOf table (cs.map position) = .ok (cs.map value) := by
  induction cs with
  | nil => rfl
  | cons c cs ih =>
    rw [List.forall_mem_cons] at h
    rw [List.map_cons, payloadsOf, payloadOf, h.1, ih h.2]
    rfl

theorem loadedPayloadsFrom_append {nodes : List (Rebuilt K)} {rs ss : List Nat}
    {table table' : Dict Nat (PyVal K)}
    (h : loadedPayloadsFrom includeMetadata nodes rs table = .ok table') :
    loadedPayloadsFrom includeMetadata nodes (rs ++ ss) table =
      loadedPayloadsFrom includeMetadata nodes ss table' := by
  induction rs generalizing table with
  | nil =>
    cases h
    rfl
  | cons r rs ih =>
    obtain ⟨children, hchildren, h⟩ := exists_of_bind_eq_ok h
    rw [List.cons_append, loadedPayloadsFrom, hchildren]
    cases hbare : bareAt nodes r with
    | some bare =>
      rw [hbare] at h
      exact ih h
    | none =>
      rw [hbare] at h
      exact ih h

variable [PyNumber K] [PyDocument K] [PyKeys K] [StableRounding K]

/-- Read backwards, the places of nodes whose children come later leave a table with the payloads of
the nodes. -/
theorem loadedPayloadsFrom_reverse (h : tree.Restores ids metadata a position) {rs : List Nat}
    (hrs : ∀ r ∈ rs, r < a.size) (hgrounded : Grounded a.node rs) : ∃ table,
      loadedPayloadsFrom includeMetadata tree.nodes (rs.map position).reverse [] = .ok table ∧
        ∀ r ∈ rs, table.get? (position r) = some (subtreePayload ids metadata includeMetadata a r) := by
  induction rs with
  | nil => exact ⟨[], rfl, fun r hr => absurd hr List.not_mem_nil⟩
  | cons r rs ih =>
    rw [List.forall_mem_cons] at hrs
    obtain ⟨table, htable, hentries⟩ := ih hrs.2 hgrounded.2
    have hnode := h.node r hrs.1
    have hchildren : payloadsOf table (childrenOf tree.nodes (position r)) =
        .ok ((a.node r).children.map (subtreePayload ids metadata includeMetadata a)) := by
      rw [childrenOf, hnode]
      exact payloadsOf_map fun c hc => hentries c (hgrounded.1 c hc)
    have hbare : bareAt tree.nodes (position r) = some (restored ids metadata true a r) := by
      rw [bareAt, hnode]
      rfl
    rw [List.map_cons, List.reverse_cons, loadedPayloadsFrom_append htable, loadedPayloadsFrom,
      hchildren]
    dsimp only [bind, Except.bind]
    rw [hbare]
    refine ⟨_, rfl, ?_⟩
    rw [payload_restored, ← subtreePayload_eq hrs.1, List.forall_mem_cons]
    refine ⟨by rw [Dict.get?_set, if_pos rfl], fun x hx => ?_⟩
    rw [Dict.get?_set]
    by_cases hxr : position x = position r
    · rw [if_pos hxr, h.injective x (hrs.2 x hx) r hrs.1 hxr]
    · rw [if_neg hxr]
      exact hentries x hx

/-- A restored tree has the dictionary of the tree it was restored from. -/
theorem LoadedTree.Restores.toDict (h : tree.Restores ids metadata a position) :
    tree.toDict includeMetadata = .ok (.dict [(lit "size", .int a.size),
      (lit "root", subtreePayload ids metadata includeMetadata a 0)]) := by
  obtain ⟨table, htable, hentries⟩ := loadedPayloadsFrom_reverse h
    (fun r hr => Arena.mem_walk_root.mp hr) (grounded_walk a a.linked.nonempty)
  have hroot := hentries 0 (Arena.mem_walk_root.mpr a.linked.nonempty)
  rw [h.root] at hroot
  rw [LoadedTree.toDict, h.walk, htable]
  change (payloadOf table 0 >>= _) = _
  rw [payloadOf, hroot, h.size]
  rfl

end Dictionaries

end CognitiveTree.Persistence

namespace CognitiveTree.Session

open Search Observability Persistence Feedback Ui Llm

/-- What a replay asks of its surroundings. -/
structure ReplayRuntime (K E : Type) where
  time : E → K × E
  sleep : K → E → Option Exc × E

/-- `ReplaySession`. -/
structure ReplaySession (K : Type) [PyFloat K] where
  archive : RunArchive K
  speed : Option K
  checked : ∀ s ∈ speed, PyFloat.le s PyFloat.zero = false

/-- A generator: it changes the surroundings and adds to what it has yielded. -/
abbrev Generator (K E α : Type) := EStateM Signal (E × List (PyVal K)) α

variable {K E : Type}

section Replay

variable [PyFloat K] [PyNumber K] (rt : ReplayRuntime K E) (session : ReplaySession K)

omit [PyFloat K] [PyNumber K] in
/-- `yield` of an envelope that is made at this time. -/
def yields (make : K → PyVal K) : Generator K E Unit := fun s =>
  let now := rt.time s.1
  .ok () (now.2, s.2 ++ [make now.1])

omit [PyFloat K] [PyNumber K] in
/-- A part that only computes. -/
def computes {α : Type} (x : Except Signal α) : Generator K E α := fun s =>
  match x with
  | .ok a => .ok a s
  | .error e => .error e s

/-- `_wait(previous, current)`. -/
def ReplaySession.wait (previous current : K) : Generator K E Unit := fun s =>
  match session.speed with
  | none => .ok () s
  | some speed =>
    let delay := PyFloat.div (PyNumber.sub current previous) speed
    if PyFloat.lt PyFloat.zero delay then
      match rt.sleep delay s.1 with
      | (none, e) => .ok () (e, s.2)
      | (some exc, e) => .error (.raised exc) (e, s.2)
    else .ok () s

/-- The wait before a transition that is not the first. -/
def ReplaySession.waitSince (previous : Option K) (current : K) : Generator K E Unit :=
  match previous with
  | some p => session.wait rt p current
  | none => pure ()

omit [PyFloat K] [PyNumber K] in
/-- `phase_envelope` of the event of a restored transition. -/
def replayedPhase (iteration : Nat) (t : LoadedTransition K) (ts : K) : PyVal K :=
  .dict [(lit "type", .str (lit "phase")), (lit "iteration", .int iteration),
    (lit "phase", .str t.target.value), (lit "node_id", .none), (lit "detail", t.note),
    (lit "ts", .float ts)]

omit [PyFloat K] [PyNumber K] in
/-- `_iteration_for(transition, current)`. -/
def iterationAt (t : LoadedTransition K) (current : Nat) : Nat :=
  if t.target = .expansion then current + 1 else current

/-- `result.solution` of a restored result. -/
def solutionOf (r : LoadedResult K) : PyVal K :=
  if r.outcome = .succeeded then
    ((r.bestPath.getLast?.bind (bareAt r.tree.nodes)).map BareNode.content).getD .none
  else .none

/-- `result_envelope` of a restored result. -/
def replayedResult (r : LoadedResult K) (ts : K) : PyVal K :=
  .dict [(lit "type", .str (lit "result")), (lit "outcome", .str r.outcome.value),
    (lit "iterations", .int r.iterations), (lit "node_count", .int r.nodeCount),
    (lit "solution", solutionOf r), (lit "error", r.error),
    (lit "best_path", .list (r.bestPath.filterMap fun n =>
      (bareAt r.tree.nodes n).map BareNode.id)), (lit "ts", .float ts)]

variable [PyDocument K] [PyKeys K]

/-- `snapshot_envelope(ThoughtTree.from_dict(tree_payload))`, but for its time. -/
def replayedTree (payload : PyVal K) : Except Signal (PyVal K) := do
  let tree ← treeFromDict payload
  raising (tree.toDict false)

/-- The loop of `stream` over the transitions that are left. -/
def ReplaySession.replayFrom (payload : PyVal K) :
    Option K → Nat → List (LoadedTransition K) → Generator K E Unit
  | _, _, [] => pure ()
  | previous, current, t :: rest => do
    session.waitSince rt previous t.timestamp
    yields rt (replayedPhase (iterationAt t current) t)
    if takesSnapshot t.target then do
      let tree ← computes (replayedTree payload)
      yields rt fun now => .dict [(lit "type", .str (lit "snapshot")), (lit "tree", tree),
        (lit "ts", .float now)]
    replayFrom payload (some t.timestamp) (iterationAt t current) rest

/-- `self._archive.metrics or RunMetrics.from_result(result).to_dict()`. -/
def ReplaySession.metrics : Except Exc (PyVal K) :=
  if truthy session.archive.metrics then .ok session.archive.metrics
  else (RunMetrics.fromView (viewOfLoaded session.archive.result) none).map RunMetrics.toDict

/-- `stream()`. -/
def ReplaySession.stream : Generator K E Unit := do
  let payload ← computes (raising (session.archive.result.tree.toDict true))
  session.replayFrom rt payload none 0 session.archive.result.phaseHistory
  let metrics ← computes (raising session.metrics)
  yields rt fun now => .dict [(lit "type", .str (lit "metrics")), (lit "metrics", metrics),
    (lit "ts", .float now)]
  yields rt (replayedResult session.archive.result)

end Replay

section Mirrors

variable [PyFloat K]

/-- The snapshot of a tree. -/
theorem snapshotEnvelope_eq (ids : Nat → Str) (a : Arena K) (now : K) :
    snapshotEnvelope ids a now = .ok (.dict [(lit "type", .str (lit "snapshot")),
      (lit "tree", .dict [(lit "size", .int a.size),
        (lit "root", subtreePayload ids (fun _ => []) false a 0)]), (lit "ts", .float now)]) := by
  rw [snapshotEnvelope, treeToDict, toDict_eq a.linked.nonempty]
  rfl

/-- An envelope of a live stream, and the one that stands for it in the replay of its result. -/
inductive Mirrors (ids : Nat → Str) (result : SearchResult K) : PyVal K → PyVal K → Prop
  | phase (live replayed : SearchEvent) (now later : K) (phase : replayed.phase = live.phase)
      (detail : replayed.detail = live.detail) :
      Mirrors ids result (phaseEnvelope live now) (phaseEnvelope replayed later)
  /-- the snapshots of a replay show the final tree -/
  | snapshot {a : Arena K} {now later : K} {live replayed : PyVal K}
      (taken : snapshotEnvelope ids a now = .ok live)
      (final : snapshotEnvelope ids result.tree.arena later = .ok replayed) :
      Mirrors ids result live replayed
  | metrics (metrics : RunMetrics K) (now later : K) :
      Mirrors ids result (ReasoningSession.metricsMessage metrics now)
        (ReasoningSession.metricsMessage metrics later)
  | result (now later : K) :
      Mirrors ids result (resultEnvelope ids result now) (resultEnvelope ids result later)

/-- An entry of the queue and the envelope that stands for it. -/
def Shown (ids : Nat → Str) (result : SearchResult K) (entry : Option (PyVal K)) (y : PyVal K) :
    Prop :=
  ∃ live, entry = some live ∧ Mirrors ids result live y

/-- A program of a replay returns, and what it yields stands for these entries. -/
def Mirroring (ids : Nat → Str) (result : SearchResult K) (entries : Queue K)
    (x : Generator K E Unit) : Prop :=
  ∀ s, ∃ e ys, x s = .ok () (e, s.2 ++ ys) ∧ List.Forall₂ (Shown ids result) entries ys

variable {ids : Nat → Str} {result : SearchResult K}

theorem Mirroring.nil : Mirroring ids result [] (pure () : Generator K E Unit) := by
  intro s
  exact ⟨s.1, [], by rw [List.append_nil]; rfl, .nil⟩

theorem Mirroring.append {entries entries' : Queue K} {x y : Generator K E Unit}
    (hx : Mirroring ids result entries x) (hy : Mirroring ids result entries' y) :
    Mirroring ids result (entries ++ entries') (x >>= fun _ => y) := by
  intro s
  obtain ⟨e, xs, hx, hxs⟩ := hx s
  obtain ⟨e', ys, hy, hys⟩ := hy (e, s.2 ++ xs)
  refine ⟨e', xs ++ ys, ?_, List.rel_append hxs hys⟩
  rw [bind_of_ok hx, hy, List.append_assoc]

theorem Mirroring.yields {rt : ReplayRuntime K E} {live : PyVal K} {make : K → PyVal K}
    (h : ∀ now, Mirrors ids result live (make now)) :
    Mirroring ids result [some live] (yields rt make) := by
  intro s
  exact ⟨(rt.time s.1).2, [make (rt.time s.1).1], rfl, .cons ⟨live, rfl, h _⟩ .nil⟩

theorem Mirroring.computes {α : Type} {a : α} {x : Except Signal α} {f : α → Generator K E Unit}
    {entries : Queue K} (hx : x = .ok a) (h : Mirroring ids result entries (f a)) :
    Mirroring ids result entries (computes x >>= f) := by
  intro s
  rw [hx]
  exact h s

variable [PyNumber K] {rt : ReplayRuntime K E} {session : ReplaySession K}

/-- No sleep of the replay raises. -/
def ReplaySession.Paced (rt : ReplayRuntime K E) (session : ReplaySession K) : Prop :=
  ∀ speed ∈ session.speed, ∀ delay e, (rt.sleep delay e).1 = none

/-- The waits show nothing. -/
theorem Mirroring.waitSince (hpaced : session.Paced rt) (previous : Option K) (current : K) :
    Mirroring ids result [] (session.waitSince rt previous current) := by
  intro s
  have hstill : ∃ e, session.waitSince rt previous current s = .ok () (e, s.2) := by
    cases previous with
    | none => exact ⟨s.1, rfl⟩
    | some p =>
      rw [ReplaySession.waitSince, ReplaySession.wait]
      cases hspeed : session.speed with
      | none => exact ⟨s.1, rfl⟩
      | some speed =>
        dsimp only
        split
        · have hsleep := hpaced speed hspeed (PyFloat.div (PyNumber.sub current p) speed) s.1
          generalize rt.sleep (PyFloat.div (PyNumber.sub current p) speed) s.1 = slept at hsleep ⊢
          obtain ⟨raised, e⟩ := slept
          cases hsleep
          exact ⟨e, rfl⟩
        · exact ⟨s.1, rfl⟩
  obtain ⟨e, h⟩ := hstill
  exact ⟨e, [], by rw [h, List.append_nil], .nil⟩

variable [PyDocument K] [PyKeys K] {P F : Type} {env : SessionRuntime K P F}

/-- One transition of a replay shows what its announcement showed. -/
theorem Mirroring.replayFrom_cons {payload tree : PyVal K} (hpaced : session.Paced rt)
    (htree : replayedTree payload = .ok tree)
    (hshot : ∀ now, snapshotEnvelope env.freshId result.tree.arena now =
      .ok (.dict [(lit "type", .str (lit "snapshot")), (lit "tree", tree), (lit "ts", .float now)]))
    {t : PhaseTransition K} {entries rest : Queue K} (ht : Announces env t entries)
    {history : List (LoadedTransition K)} {previous : Option K} {current : Nat}
    (hrest : ∀ previous current, Mirroring env.freshId result rest
      (session.replayFrom rt payload previous current history)) :
    Mirroring env.freshId result (entries ++ rest) (session.replayFrom rt payload previous current
      (⟨t.source, t.target, .str t.note, t.timestamp⟩ :: history)) := by
  have hphase : ∀ (event : SearchEvent) (now : K) (n : Nat), event.phase = t.target →
      event.detail = t.note → Mirroring env.freshId result [some (phaseEnvelope event now)]
        (Session.yields rt (replayedPhase n (⟨t.source, t.target, .str t.note, t.timestamp⟩ :
          LoadedTransition K))) :=
    fun event now n hphase hdetail => .yields fun later =>
      .phase event ⟨n, t.target, none, t.note⟩ now later hphase.symm hdetail.symm
  have hwait : Mirroring env.freshId result [] (session.waitSince rt previous t.timestamp) :=
    .waitSince hpaced previous t.timestamp
  rw [ReplaySession.replayFrom]
  cases ht with
  | phase event now hevent hdetail plain =>
    rw [if_neg (by simp [plain])]
    exact hwait.append ((hphase event now _ hevent hdetail).append
      (Mirroring.nil.append (hrest _ _)))
  | snapshot event now later arena envelope hevent hdetail shot taken =>
    rw [if_pos shot]
    refine hwait.append ((hphase event now _ hevent hdetail).append ?_)
    refine Mirroring.computes htree ?_
    exact (Mirroring.yields fun later => .snapshot taken (hshot later)).append (hrest _ _)

/-- The replay of a history shows what its announcements showed. -/
theorem Mirroring.replayFrom {payload tree : PyVal K} (hpaced : session.Paced rt)
    (htree : replayedTree payload = .ok tree)
    (hshot : ∀ now, snapshotEnvelope env.freshId result.tree.arena now =
      .ok (.dict [(lit "type", .str (lit "snapshot")), (lit "tree", tree), (lit "ts", .float now)]))
    {history : List (PhaseTransition K)} {parts : List (Queue K)}
    (hparts : List.Forall₂ (Announces env) history parts) (previous : Option K) (current : Nat) :
    Mirroring env.freshId result parts.flatten (session.replayFrom rt payload previous current
      (history.map fun t => ⟨t.source, t.target, .str t.note, t.timestamp⟩)) := by
  induction hparts generalizing previous current with
  | nil => exact .nil
  | cons ht _ ih => exact .replayFrom_cons hpaced htree hshot ht ih

variable {archive : RunArchive K} {position : Nat → Nat}

/-- The result of a restored run is announced as that of the run. -/
theorem replayedResult_eq (h : archive.Restores ids result position)
    (hpath : ∀ n ∈ result.bestPath, n < result.tree.arena.size) (now : K) :
    replayedResult archive.result now = resultEnvelope ids result now := by
  have hids : (archive.result.bestPath.filterMap fun n =>
      (bareAt archive.result.tree.nodes n).map BareNode.id) =
        result.bestPath.map fun n => .str (ids n) := by
    rw [h.path, h.tree.filterMap_bareAt BareNode.id hpath]
    rfl
  have hsolution : solutionOf archive.result = optional .str result.solution := by
    rw [solutionOf, SearchResult.solution, h.outcome, h.path, List.getLast?_map]
    split
    · cases hlast : result.bestPath.getLast? with
      | none => rfl
      | some n =>
        rw [Option.map_some, Option.bind_some, h.tree.bareAt (hpath n (List.mem_of_getLast? hlast))]
        rfl
    · rfl
  rw [replayedResult, resultEnvelope, h.outcome, h.iterations, h.nodeCount, h.error, hids, hsolution]

variable [LawfulKeys K] [StableRounding K]

/-- The replay of a restored run shows what its announcements and its closing envelopes showed. -/
theorem Mirroring.stream {session : ReplaySession K} (hpaced : session.Paced rt)
    (h : session.archive.Restores env.freshId result position)
    (hids : ∀ m < result.tree.arena.size, ∀ n < result.tree.arena.size,
      env.freshId m = env.freshId n → m = n)
    (hpath : ∀ n ∈ result.bestPath, n < result.tree.arena.size) {metrics : RunMetrics K}
    (hmetrics : session.archive.metrics = metrics.toDict) {body : Queue K}
    (hbody : Announced env result.phaseHistory body) (now later : K) :
    Mirroring env.freshId result (body ++ [some (ReasoningSession.metricsMessage metrics now),
      some (resultEnvelope env.freshId result later)]) (session.stream rt) := by
  obtain ⟨parts, hparts, rfl⟩ := hbody
  obtain ⟨tree, hread, hrestores⟩ := treeFromDict_subtreePayload result.metadata result.tree.arena hids
  have htree : replayedTree (.dict [(lit "size", .int result.tree.arena.size),
      (lit "root", subtreePayload env.freshId result.metadata true result.tree.arena 0)]) =
        .ok (.dict [(lit "size", .int result.tree.arena.size),
          (lit "root", subtreePayload env.freshId result.metadata false result.tree.arena 0)]) := by
    rw [replayedTree, hread]
    exact raising_eq_ok.mpr hrestores.toDict
  have hreplayed : session.metrics = .ok metrics.toDict := by
    rw [ReplaySession.metrics, hmetrics]
    rfl
  rw [ReplaySession.stream]
  refine Mirroring.computes (raising_eq_ok.mpr h.tree.toDict) ?_
  rw [h.history]
  refine (Mirroring.replayFrom hpaced htree (snapshotEnvelope_eq env.freshId _) hparts none 0).append ?_
  refine Mirroring.computes (raising_eq_ok.mpr hreplayed) ?_
  have hshown : Mirroring env.freshId result [some (ReasoningSession.metricsMessage metrics now)]
      (Session.yields rt (ReasoningSession.metricsMessage metrics)) :=
    .yields fun again => .metrics metrics now again
  refine hshown.append (.yields fun again => ?_)
  rw [replayedResult_eq h hpath]
  exact .result later again

end Mirrors

section StoredStreams

variable [PyFloat K] [PyNumber K] [PyDecimal K] [PyDocument K] [PyKeys K] {P : Type}
  {env : SessionRuntime K P E} {session : ReasoningSession K P E}

omit [PyNumber K] [PyDocument K] [PyKeys K] in
/-- The archive of a session is a saved run. -/
theorem saveRun_of_archive {result : SearchResult K} {metrics : RunMetrics K} {path : PurePath}
    {t t' : E × Disk} (h : session.archive env result metrics t = .ok (some path) t') :
    ∃ s, saveRun env.storage result path metrics.toDict s = .ok path t' := by
  unfold ReasoningSession.archive at h
  cases hdirectory : session.archiveDir with
  | none =>
    rw [hdirectory] at h
    cases h
  | some directory =>
    rw [hdirectory] at h
    obtain ⟨name, s, -, h⟩ := exists_ok_of_bind h
    unfold tolerant at h
    cases hsave : saveRun env.storage result (directory.join name) metrics.toDict s with
    | ok path' t'' =>
      rw [hsave] at h
      cases h
      obtain ⟨hpath, -⟩ := saveRun_file hsave
      exact ⟨s, hpath ▸ hsave⟩
    | error e t'' =>
      rw [hsave] at h
      cases e with
      | diverged => cases h
      | raised e =>
        dsimp only at h
        split at h <;> cases h

omit [PyNumber K] [PyDecimal K] [PyDocument K] [PyKeys K] in
/-- The entries of a history are phases and snapshots. -/
theorem Announced.type {history : List (PhaseTransition K)} {queue : Queue K} {envelope : PyVal K}
    (h : Announced env history queue) (hmem : some envelope ∈ queue) :
    subscriptKey envelope (lit "type") = .ok (.str (lit "phase")) ∨
      subscriptKey envelope (lit "type") = .ok (.str (lit "snapshot")) := by
  obtain ⟨parts, hparts, rfl⟩ := h
  obtain ⟨entries, hentries, hmem⟩ := List.mem_flatten.mp hmem
  obtain ⟨record, -, hrecord⟩ := exists_of_forall₂_right hparts hentries
  cases hrecord with
  | phase event now =>
    cases List.mem_singleton.mp hmem
    exact .inl (IsEnvelope.phase event now).type
  | snapshot event now later arena envelope' _ _ _ taken =>
    rcases List.mem_cons.mp hmem with hmem | hmem
    · cases hmem
      exact .inl (IsEnvelope.phase event now).type
    · cases List.mem_singleton.mp hmem
      exact .inr (IsEnvelope.snapshot taken).type

omit [PyNumber K] [PyDecimal K] [PyDocument K] [PyKeys K] in
/-- A drained stream has shown one metrics message. -/
theorem toDict_of_shown {history : List (PhaseTransition K)} {body : Queue K}
    (h : Announced env history body) {metrics shown : RunMetrics K} {now later again : K}
    {result : SearchResult K}
    (hmem : some (ReasoningSession.metricsMessage shown again) ∈ body ++
      [some (ReasoningSession.metricsMessage metrics now),
        some (resultEnvelope env.freshId result later)]) : shown.toDict = metrics.toDict := by
  have htype := (ReasoningSession.isEnvelope_metricsMessage shown again).type
  rcases List.mem_append.mp hmem with hmem | hmem
  · rcases h.type hmem with heq | heq <;> rw [htype] at heq <;> cases heq
  rcases List.mem_cons.mp hmem with hmem | hmem
  · have hitems := PyVal.dict.inj (Option.some.inj hmem)
    simp only [List.cons.injEq, Prod.mk.injEq, true_and] at hitems
    exact hitems.1
  · have heq := Option.some.inj (List.mem_singleton.mp hmem)
    rw [heq, (IsEnvelope.result env.freshId result later).type] at htype
    cases htype

variable [LawfulKeys K] [FloatText K] [StableRounding K]

/-- A replay stands in for the live stream. Whatever the interleaving of its threads, when a stream
has been drained and its run was archived with the metrics it has shown, the archive is loaded, and
its replay yields one envelope for each that the stream has yielded; they show the same. -/
theorem replay_mirrors_stream {world : P × E} {s : Stream K P E}
    (h : Stream.Reachable env session world s) (hfinished : s.consumer = .finished)
    (hids : Function.Injective env.freshId) (hstored : env.storage.nodeId = env.freshId)
    {result : SearchResult K} (hresult : finalResult s.worker.run = some result)
    {metrics : RunMetrics K} {again : K}
    (hshown : ReasoningSession.metricsMessage metrics again ∈ s.yielded) {path : PurePath}
    {t t' : E × Disk} (harchive : session.archive env result metrics t = .ok (some path) t')
    (hportable : PortableResult result ∧ metrics.toDict.Portable) {reading : Json.Limits}
    (hreading : ShapedResult reading result ∧ metrics.toDict.Shaped reading 1)
    (decodeError : Str → Str) :
    ∃ archive, loadRun reading env.storage.cwd decodeError t'.2 path = .ok archive ∧
      ∀ {F : Type} (rt : ReplayRuntime K F) (replay : ReplaySession K),
        replay.archive = archive → replay.Paced rt → ∀ start, ∃ e ys,
          replay.stream rt (start, []) = .ok () (e, ys) ∧
            List.Forall₂ (Mirrors env.freshId result) s.yielded ys := by
  obtain ⟨body, metrics', usage, result', now, later, hbody, hresult', hmetrics, hyielded⟩ :=
    (stream_delivers world h).1.drained hfinished
  cases hresult.symm.trans hresult'
  have hkept : metrics.toDict = metrics'.toDict :=
    toDict_of_shown hbody (hyielded ▸ List.mem_map_of_mem hshown)
  obtain ⟨outcome, -, hreport⟩ := Option.map_eq_some_iff.mp hresult
  have hpath : ∀ n ∈ result.bestPath, n < result.tree.arena.size := by
    rw [← hreport]
    exact fun n hn => Arena.lt_of_mem_bestPath hn
  have hhistory : result.phaseHistory = s.worker.run.machine.history := by
    rw [← hreport]
    rfl
  rw [← hhistory] at hbody
  obtain ⟨u, hsave⟩ := saveRun_of_archive harchive
  have hdistinct : ∀ m < result.tree.arena.size, ∀ n < result.tree.arena.size,
      env.freshId m = env.freshId n → m = n := fun m _ n _ heq => hids heq
  obtain ⟨archive, position, hload, hrestores, hloaded, -⟩ := loadRun_saveRun decodeError hsave
    (hstored ▸ hdistinct) hpath hportable hreading
  rw [hstored] at hrestores
  refine ⟨archive, hload, ?_⟩
  rintro F rt replay rfl hpaced start
  obtain ⟨e, ys, hstream, hmirrors⟩ := Mirroring.stream hpaced hrestores hdistinct hpath
    (hloaded.trans hkept) hbody now later (start, [])
  refine ⟨e, ys, hstream, ?_⟩
  rw [← hyielded, List.forall₂_map_left_iff] at hmirrors
  refine hmirrors.imp ?_
  rintro live y ⟨_, heq, hlive⟩
  cases heq
  exact hlive

end StoredStreams

section Example

instance : StableRounding WholeFloat := ⟨fun _ => rfl⟩

/-- Policies of which the first call raises. -/
def raisingPolicies : Policies WholeFloat Unit where
  generator _ _ _ metadata world := ⟨.error ⟨lit "RuntimeError", lit "no idea"⟩, metadata, world⟩
  evaluator _ _ metadata world := ⟨.ok unfinished, metadata, world⟩
  critic := none
  revisionPolicy := none
  rewardModel := none

/-- Surroundings that stand still. -/
def wholeSession : SessionRuntime WholeFloat Unit Unit where
  monotonic _ e := (⟨0⟩, e)
  random _ _ := ⟨0⟩
  freshId := calmStorage.nodeId
  schedule _ _ _ := []
  time e := (⟨0⟩, e)
  storage := calmStorage
  stamp e := (lit "20250101T000000Z", e)
  suffix e := (lit "abcdef", e)

/-- A session with these policies that archives its runs. -/
def raisingSession : ReasoningSession WholeFloat Unit Unit where
  task := lit "task"
  config := wholeConfig
  policies := raisingPolicies
  stopCondition := none
  archiveDir := some ⟨[], [lit "runs"]⟩
  usage := none
  checked := by decide

/-- Its stream, drained. -/
theorem raising_stream_finishes : ∃ s result metrics,
    Stream.Reachable wholeSession raisingSession ((), ()) s ∧ s.consumer = .finished ∧
      finalResult s.worker.run = some result ∧
      ReasoningSession.metricsMessage metrics ⟨0⟩ ∈ s.yielded ∧ plainResult result = true ∧
      ((returned (raisingSession.archive wholeSession result metrics
        ((), ⟨fun _ => none, []⟩))).map Option.isSome) = some true ∧
      metrics.toDict.Portable := by
  refine ⟨_, _, _, .tail (.tail (.tail (.tail (.tail (.tail (.tail (.tail (.tail (.tail (.tail (.tail (.tail
    (.tail (.tail (.tail (.tail (.tail (.tail (.tail (.tail (.tail (.tail (.tail (.tail .refl
    ⟨⟨.start, .start () rfl⟩, fun h => by cases h⟩)
    ⟨⟨.work, .work (.search (.advance .start rfl (sink_quiet _ _ _ _)) (by simp))⟩, fun h => by cases h⟩)
    ⟨⟨.work, .work (.poll (by decide))⟩, fun h => by cases h⟩)
    ⟨⟨.work, .work (.search (.begin (by decide)) (by simp))⟩, fun h => by cases h⟩)
    ⟨⟨.work, .work (.search (.found (n := 0) (by decide) rfl rfl (by decide)) (by simp))⟩,
      fun h => by cases h⟩)
    ⟨⟨.work, .work (.search (.advance (.expand 0) rfl (sink_quiet _ _ _ _)) (by simp))⟩,
      fun h => by cases h⟩)
    ⟨⟨.work, .work (.search (.generateRaised rfl rfl) (by simp))⟩, fun h => by cases h⟩)
    ⟨⟨.work, .work (.search (.advance (.failed _) rfl (sink_quiet _ _ _ _)) (by simp))⟩,
      fun h => by cases h⟩)
    ⟨⟨.work, .work .returned⟩, fun h => by cases h⟩)
    ⟨⟨.work, .work (.settle ⟨0⟩ () rfl (show RunMetrics.fromResult _ none = .ok _ from rfl))⟩,
      fun _ n _ => ⟨0, rfl⟩⟩)
    ⟨⟨.work, .work (.report ⟨0⟩ () rfl)⟩, fun h => by cases h⟩)
    ⟨⟨.work, .work .mark⟩, fun h => by cases h⟩)
    ⟨⟨.get, .get rfl rfl⟩, fun h => by cases h⟩)
    ⟨⟨.next, .next rfl⟩, fun h => by cases h⟩)
    ⟨⟨.get, .get rfl rfl⟩, fun h => by cases h⟩)
    ⟨⟨.next, .next rfl⟩, fun h => by cases h⟩)
    ⟨⟨.get, .get rfl rfl⟩, fun h => by cases h⟩)
    ⟨⟨.next, .next rfl⟩, fun h => by cases h⟩)
    ⟨⟨.get, .get rfl rfl⟩, fun h => by cases h⟩)
    ⟨⟨.next, .next rfl⟩, fun h => by cases h⟩)
    ⟨⟨.get, .get rfl rfl⟩, fun h => by cases h⟩)
    ⟨⟨.next, .next rfl⟩, fun h => by cases h⟩)
    ⟨⟨.get, .get rfl rfl⟩, fun h => by cases h⟩)
    ⟨⟨.next, .next rfl⟩, fun h => by cases h⟩)
    ⟨⟨.getEnd, .getEnd rfl rfl⟩, fun h => by cases h⟩, rfl, rfl,
    List.mem_append_left _ (List.mem_append_right _ (List.mem_singleton_self _)), ?_, ?_, ?_⟩
  · decide +kernel
  · decide +kernel
  · decide +kernel

/-- The replay of its archive shows what it has shown. -/
theorem replay_mirrors_stream_raising : ∃ (s : Stream WholeFloat Unit Unit)
    (result : SearchResult WholeFloat) (path : PurePath) (t : Unit × Disk)
    (archive : RunArchive WholeFloat), s.consumer = .finished ∧
      loadRun .unlimited [] id t.2 path = .ok archive ∧
      ∃ e ys, (ReplaySession.mk archive none nofun).stream
        (ReplayRuntime.mk (fun e => (⟨0⟩, e)) fun _ e => (none, e)) ((), []) = .ok () (e, ys) ∧
          List.Forall₂ (Mirrors calmStorage.nodeId result) s.yielded ys := by
  obtain ⟨s, result, metrics, hreach, hfinished, hresult, hshown, hplain, harchive, hportable⟩ :=
    raising_stream_finishes
  obtain ⟨hresults, hshaped⟩ := plainResult_spec hplain
  obtain ⟨saved, t, hsaved, hsome⟩ := exists_ok_of_returned harchive
  obtain ⟨path, rfl⟩ := Option.isSome_iff_exists.mp hsome
  obtain ⟨archive, hload, hreplay⟩ := replay_mirrors_stream hreach hfinished
    calmStorage_nodeId_injective rfl hresult hshown hsaved ⟨hresults, hportable⟩
    ⟨hshaped, shaped_unlimited 1 _ hportable⟩ id
  exact ⟨s, result, path, t, archive, hfinished, hload, hreplay _ _ rfl nofun ()⟩

end Example

end CognitiveTree.Session
