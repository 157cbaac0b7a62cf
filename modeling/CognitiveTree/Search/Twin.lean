import CognitiveTree.Core.Lockstep
import CognitiveTree.Search.Invariant

/-!
# Two runs side by side

`Twins` relates the states of two runs, possibly of different controllers in different
worlds, that have done the same so far: equal trees up to identifiers, equal histories
up to time stamps, RNGs at a fixed distance. `Agreeing` lists what controllers and
runtimes must have in common for a whole iteration to keep such states related, as long
as the random streams make the same choices.
-/

namespace CognitiveTree.Search

open Arena

variable {K W W' : Type} [PyFloat K] {α : Type}

section Choice

/-- The choice of `max` over live children with these UCT scores, the random stream read
from this position. -/
def pickFrom (stream : Nat → K) (live : List Nat) (scores : List K) (position : Nat) : Option Nat :=
  maxByKey PyFloat.pairGt
    (live.zip (scores.zip ((List.range live.length).map fun i => stream (position + i))))

/-- The UCT score of a node that has a parent. -/
def uctOf (weight : K) (a : Arena K) (c : Nat) : K :=
  (a.node c).parent.elim PyFloat.zero fun p => (a.node c).uctScore (a.node p).visits weight

/-- A choice in the log would have been another one on the second stream, read `offset`
positions earlier. -/
def Strays (stream stream' : Nat → K) (offset : Nat) (log : List (Obs K)) : Prop :=
  ∃ live scores position, .pick live scores position ∈ log ∧
    pickFrom stream live scores position ≠ pickFrom stream' live scores (position - offset)

/-- A run that strayed stays astray. -/
theorem Strays.cons {stream stream' : Nat → K} {offset : Nat} {log : List (Obs K)}
    (h : Strays stream stream' offset log) (o : Obs K) : Strays stream stream' offset (o :: log) := by
  obtain ⟨live, scores, position, hm, hne⟩ := h
  exact ⟨live, scores, position, List.mem_cons_of_mem _ hm, hne⟩

/-- No run strays from itself. -/
theorem not_strays_self (stream : Nat → K) (log : List (Obs K)) : ¬ Strays stream stream 0 log := by
  rintro ⟨live, scores, position, -, hne⟩
  exact hne rfl

variable {ctl : TreeSearchController K W} {rt : Runtime K W}

/-- The keys of children with parents, from the current position of the stream. -/
theorem childKeys_eq {live : List Nat} {s : RunState K W}
    (h : ∀ c ∈ live, ∃ p, (s.tree.arena.node c).parent = some p) :
    childKeys ctl rt live s = .ok
      (live.zip ((live.map (uctOf ctl.config.explorationWeight s.tree.arena)).zip
        ((List.range live.length).map fun i => rt.random ctl.config.seed (s.draws + i))))
      { s with draws := s.draws + live.length } := by
  induction live generalizing s with
  | nil => rfl
  | cons c cs ih =>
    obtain ⟨p, hp⟩ := h c (List.mem_cons_self ..)
    have hkey : childKey ctl rt c s = .ok (uctOf ctl.config.explorationWeight s.tree.arena c,
        rt.random ctl.config.seed s.draws) { s with draws := s.draws + 1 } := by
      rw [childKey, get_bind_run]
      simp only [hp, uctOf, Option.elim]
      rfl
    have hrest := ih (s := { s with draws := s.draws + 1 })
      fun d hd => h d (List.mem_cons_of_mem _ hd)
    rw [childKeys, bind_of_ok hkey, bind_of_ok hrest]
    have hdraws : s.draws + 1 + cs.length = s.draws + (c :: cs).length := by
      rw [List.length_cons]
      omega
    have hstream : ((List.range (c :: cs).length).map fun i =>
        rt.random ctl.config.seed (s.draws + i)) = rt.random ctl.config.seed s.draws ::
          (List.range cs.length).map fun i => rt.random ctl.config.seed (s.draws + 1 + i) := by
      rw [List.length_cons, List.range_succ_eq_map, List.map_cons, List.map_map]
      congr 1
      apply List.map_congr_left
      intro i _
      rw [Function.comp, Nat.add_right_comm, Nat.add_assoc]
    change EStateM.Result.ok _ { s with draws := s.draws + 1 + cs.length } = _
    rw [hdraws, hstream, List.map_cons, List.zip_cons_cons, List.zip_cons_cons]

end Choice

section Agreement

/-- Replies that say the same and leave related worlds. -/
structure RepliesAgree (R : W → W' → Prop) (r : Reply K W α) (r' : Reply K W' α) : Prop where
  answer : r'.answer = r.answer
  metadata : r'.metadata = r.metadata
  world : R r.world r'.world

/-- Policy calls that cannot be told apart from related worlds. -/
def CallsAgree (R : W → W' → Prop) (f : Call K W α) (f' : Call K W' α) : Prop :=
  ∀ arena metadata w w', R w w' → RepliesAgree R (f arena metadata w) (f' arena metadata w')

/-- The reaction of an event sink, if there is one. -/
def react (sink : Option (SearchEvent → ThoughtTree K → W → Except Exc Unit × W))
    (event : SearchEvent) (tree : ThoughtTree K) (world : W) : Except Exc Unit × W :=
  sink.elim (.ok (), world) fun f => f event tree world

/-- What two controllers and their surroundings must share for iterations in lockstep. -/
structure Agreeing (R : W → W' → Prop) (ctl : TreeSearchController K W)
    (ctl' : TreeSearchController K W') (rt : Runtime K W) (rt' : Runtime K W') : Prop where
  maxDepth : ctl'.config.maxDepth = ctl.config.maxDepth
  branchingFactor : ctl'.config.branchingFactor = ctl.config.branchingFactor
  explorationWeight : ctl'.config.explorationWeight = ctl.config.explorationWeight
  acceptThreshold : ctl'.config.acceptThreshold = ctl.config.acceptThreshold
  pruneThreshold : ctl'.config.pruneThreshold = ctl.config.pruneThreshold
  generator : ∀ n k, CallsAgree R (ctl.generator n k) (ctl'.generator n k)
  critic : Option.Rel (fun f f' => ∀ n, CallsAgree R (f n) (f' n)) ctl.critic ctl'.critic
  revisionPolicy : Option.Rel (fun f f' => ∀ n, CallsAgree R (f n) (f' n)) ctl.revisionPolicy
    ctl'.revisionPolicy
  rewardModel : Option.Rel (fun f f' => ∀ n base critique, CallsAgree R (f n base critique)
    (f' n base critique)) ctl.rewardModel ctl'.rewardModel
  clock : ∀ w w', R w w' → R (rt.monotonic w).2 (rt'.monotonic w').2
  /-- the sinks react alike to the same trees, named by identifiers or not -/
  sink : ∀ iteration phase node detail tree tree' w w', tree'.arena = tree.arena →
    (rt'.freshId = rt.freshId → tree' = tree) → R w w' →
    (react ctl'.onEvent ⟨iteration, phase, Option.map rt'.freshId node, detail⟩ tree' w').1 =
      (react ctl.onEvent ⟨iteration, phase, Option.map rt.freshId node, detail⟩ tree w).1 ∧
    R (react ctl.onEvent ⟨iteration, phase, Option.map rt.freshId node, detail⟩ tree w).2
      (react ctl'.onEvent ⟨iteration, phase, Option.map rt'.freshId node, detail⟩ tree' w').2

/-- Agreeing controllers give a verdict the same status. -/
theorem Agreeing.verdictStatus {R : W → W' → Prop} {ctl : TreeSearchController K W}
    {ctl' : TreeSearchController K W'} {rt : Runtime K W} {rt' : Runtime K W'}
    (h : Agreeing R ctl ctl' rt rt') (v : Evaluation K) :
    verdictStatus ctl'.config v = verdictStatus ctl.config v := by
  unfold Search.verdictStatus
  rw [h.acceptThreshold, h.pruneThreshold]

end Agreement

/-- The action is a policy call. -/
def Obs.isPolicyCall : Obs K → Bool
  | .revise _ _ | .generate _ _ _ | .evaluate _ _ | .critique _ _ | .shape _ _ _ _ => true
  | _ => false

/-- The policy calls of a log with their answers, newest first. -/
def policyCalls (log : List (Obs K)) : List (Obs K) := log.filter Obs.isPolicyCall

/-- A recorded transition without its time. -/
def PhaseTransition.untimed (t : PhaseTransition K) : SearchPhase × SearchPhase × Str :=
  (t.source, t.target, t.note)

/-- All nodes are in the index. -/
def Indexed (rt : Runtime K W) (t : ThoughtTree K) : Prop :=
  ∀ r, r < t.arena.size → t.index.contains (rt.freshId r) = true

/-- A new child is indexed as it is created. -/
theorem Indexed.attach {rt : Runtime K W} {t : ThoughtTree K} {n : Nat}
    (h : Indexed rt t) (hn : n < t.arena.size) (content : Str) :
    Indexed rt ⟨t.arena.attachChild n content,
      t.index.set (rt.freshId t.arena.size) t.arena.size⟩ := by
  intro r hr
  change Dict.contains (Dict.set t.index _ _) _ = true
  rw [Dict.contains, Dict.get?_set]
  split
  · rfl
  · rename_i hne
    have hlt : r < t.arena.size := by
      rcases Nat.lt_succ_iff_lt_or_eq.mp (attachChild_size content hn ▸ hr) with h | h
      · exact h
      · exact absurd (by rw [h]) hne
    exact h r hlt

/-- What policies have seen and what they have left behind. -/
structure Footprint (K : Type) [PyFloat K] where
  arena : Arena K
  metadata : Nat → Metadata K
  calls : List (Obs K)

/-- The footprint of the policies in a state. -/
def RunState.footprint (s : RunState K W) : Footprint K :=
  ⟨s.tree.arena, s.metadata, policyCalls s.log⟩

/-- Bookkeeping that is no policy call leaves no footprint. -/
theorem RunState.footprint_noted (s : RunState K W) {o : Obs K} (ho : o.isPolicyCall = false) :
    (s.noted o).footprint = s.footprint := by
  have hcalls : policyCalls (o :: s.log) = policyCalls s.log := List.filter_cons_of_neg (by simp [ho])
  change Footprint.mk _ _ (policyCalls (o :: s.log)) = _
  rw [hcalls]
  rfl

/-- Equal metadata. -/
def SameMetadata (f f' : Footprint K) : Prop := f.metadata = f'.metadata

/-- Two runs that have done the same. `M` relates the footprints of their policies; policy
calls are compared only if they are `watched`. -/
structure Twins (R : W → W' → Prop) (M : Footprint K → Footprint K → Prop)
    (offset : Nat) (watched : Prop) (rt : Runtime K W) (rt' : Runtime K W') (s : RunState K W)
    (t : RunState K W') : Prop where
  arena : t.tree.arena = s.tree.arena
  /-- with the same identifiers even the indexes are equal -/
  sameTree : rt'.freshId = rt.freshId → t.tree = s.tree
  indexed : Indexed rt s.tree
  indexed' : Indexed rt' t.tree
  footprint : M s.footprint t.footprint
  phase : t.machine.phase = s.machine.phase
  history : t.machine.history.map PhaseTransition.untimed =
    s.machine.history.map PhaseTransition.untimed
  iteration : t.iteration = s.iteration
  draws : s.draws = t.draws + offset
  world : R s.world t.world
  calls : watched → policyCalls t.log = policyCalls s.log

namespace Twins

variable {R : W → W' → Prop} {M : Footprint K → Footprint K → Prop} {offset : Nat}
  {watched : Prop} {rt : Runtime K W} {rt' : Runtime K W'} {s : RunState K W} {t : RunState K W'}

/-- Two runs of a task start as twins. -/
theorem start (task : Str) {draws draws' : Nat} {world : W} {world' : W'}
    (hdraws : draws = draws' + offset) (hw : R world world') :
    Twins R SameMetadata offset watched rt rt' (startState rt task draws world)
      (startState rt' task draws' world') where
  arena := rfl
  sameTree h := by
    change ThoughtTree.new rt'.freshId task = ThoughtTree.new rt.freshId task
    rw [h]
  indexed r hr := by
    rw [Nat.lt_one_iff.mp hr]
    simp [startState, ThoughtTree.new, Dict.contains, Dict.get?]
  indexed' r hr := by
    rw [Nat.lt_one_iff.mp hr]
    simp [startState, ThoughtTree.new, Dict.contains, Dict.get?]
  footprint := rfl
  phase := rfl
  history := rfl
  iteration := rfl
  draws := hdraws
  world := hw
  calls _ := rfl

/-- Twins stay twins in related worlds. -/
theorem inWorld (h : Twins R M offset watched rt rt' s t) {w : W} {w' : W'} (hw : R w w') :
    Twins R M offset watched rt rt' (s.inWorld w) (t.inWorld w') :=
  { h with world := hw }

/-- Bookkeeping that is no policy call may differ. -/
theorem noted (h : Twins R M offset watched rt rt' s t) {o o' : Obs K}
    (ho : o.isPolicyCall = false) (ho' : o'.isPolicyCall = false) :
    Twins R M offset watched rt rt' (s.noted o) (t.noted o') where
  __ := h
  footprint := by
    rw [s.footprint_noted ho, t.footprint_noted ho']
    exact h.footprint
  calls hw := by
    change (o' :: t.log).filter _ = (o :: s.log).filter _
    rw [List.filter_cons_of_neg (by simp [ho']), List.filter_cons_of_neg (by simp [ho])]
    exact h.calls hw

/-- So may bookkeeping that only the second run does. -/
theorem noted_right (h : Twins R M offset watched rt rt' s t) {o : Obs K}
    (ho : o.isPolicyCall = false) : Twins R M offset watched rt rt' s (t.noted o) where
  __ := h
  footprint := by
    rw [t.footprint_noted ho]
    exact h.footprint
  calls hw := by
    change (o :: t.log).filter _ = _
    rw [List.filter_cons_of_neg (by simp [ho])]
    exact h.calls hw

/-- Twins are twins with less of the metadata. -/
theorem weaken (h : Twins R M offset watched rt rt' s t)
    {M' : Footprint K → Footprint K → Prop} (hm : M' s.footprint t.footprint) :
    Twins R M' offset watched rt rt' s t :=
  { h with footprint := hm }

/-- Twins have the same metadata. -/
theorem metadata (h : Twins R SameMetadata offset watched rt rt' s t) : s.metadata = t.metadata :=
  h.footprint

end Twins

end CognitiveTree.Search
