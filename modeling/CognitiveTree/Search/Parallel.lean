import CognitiveTree.Search.PathPolicy
import CognitiveTree.Search.Reuse
import CognitiveTree.Search.Workers

/-!
# Parallel evaluation

An evaluator that looks at a node and its ancestors and writes to that node alone gives
every candidate of a batch the verdict it would have had first. What a batch leaves behind
is determined by which candidates were evaluated, whatever the order. So a pool returns
what the plain loop returns, and the runs stay twins.
-/

namespace CognitiveTree.Search

open Arena

variable {K W : Type} [PyFloat K]

/-- The configuration with a single evaluation worker. -/
def SearchConfig.sequential (c : SearchConfig K) : SearchConfig K where
  toConfigFields := { c.toConfigFields with evaluationWorkers := 1 }
  checked := by
    have h := c.checked
    unfold ConfigFields.postInit at h ⊢
    split_ifs at h
    simp_all

/-- The controller with a single evaluation worker. -/
def TreeSearchController.sequential (ctl : TreeSearchController K W) : TreeSearchController K W :=
  { ctl with config := ctl.config.sequential }

/-- With a single worker there is nothing to change. -/
theorem TreeSearchController.sequential_eq {ctl : TreeSearchController K W}
    (h : ctl.config.evaluationWorkers = 1) : ctl.sequential = ctl := by
  obtain ⟨⟨fields, hchecked⟩⟩ := ctl
  obtain ⟨⟩ := fields
  cases h
  rfl

/-- The evaluator depends on a node and its ancestors and touches that node's metadata only. -/
structure TreeSearchController.LocalEvaluator (ctl : TreeSearchController K W) : Prop where
  world : ∀ c arena metadata world, (ctl.evaluator c arena metadata world).world = world
  elsewhere : ∀ c arena metadata world d, d ≠ c →
    (ctl.evaluator c arena metadata world).metadata d = metadata d
  answer : ∀ c arena metadata metadata' world world',
    (∀ d ∈ arena.lineage c, metadata' d = metadata d) →
    (ctl.evaluator c arena metadata' world').answer = (ctl.evaluator c arena metadata world).answer
  own : ∀ c arena metadata metadata' world world',
    (∀ d ∈ arena.lineage c, metadata' d = metadata d) →
    (ctl.evaluator c arena metadata' world').metadata c =
      (ctl.evaluator c arena metadata world).metadata c

section Batches

variable (ctl : TreeSearchController K W)

/-- What the evaluator would do to a node right now. -/
def TreeSearchController.evaluation (s : RunState K W) (c : Nat) : Reply K W (Evaluation K) :=
  ctl.evaluator c s.tree.arena s.metadata s.world

/-- Since `s₀` nothing has happened but evaluations of these candidates of the batch. -/
structure Evaluated (batch : List Nat) (s₀ : RunState K W)
    (results : List (Nat × Except Exc (Evaluation K))) (s : RunState K W) : Prop where
  tree : s.tree = s₀.tree
  machine : s.machine = s₀.machine
  iteration : s.iteration = s₀.iteration
  draws : s.draws = s₀.draws
  world : s.world = s₀.world
  subset : ∀ r ∈ results, r.1 ∈ batch
  answers : ∀ r ∈ results, r.2 = (ctl.evaluation s₀ r.1).answer
  recorded : ∀ r ∈ results, s.metadata r.1 = (ctl.evaluation s₀ r.1).metadata r.1
  elsewhere : ∀ d, d ∉ results.map Prod.fst → s.metadata d = s₀.metadata d
  calls : policyCalls s.log =
    (results.map fun r => .evaluate r.1 r.2).reverse ++ policyCalls s₀.log

variable {ctl} {rt : Runtime K W} {n : Nat} {batch : List Nat} {s₀ : RunState K W}

/-- Before the first evaluation nothing has changed. -/
theorem Evaluated.start : Evaluated ctl batch s₀ [] s₀ where
  tree := rfl
  machine := rfl
  iteration := rfl
  draws := rfl
  world := rfl
  subset _ h := absurd h List.not_mem_nil
  answers _ h := absurd h List.not_mem_nil
  recorded _ h := absurd h List.not_mem_nil
  elsewhere _ _ := rfl
  calls := rfl

omit [PyFloat K] in
/-- No other candidate of the batch is an ancestor of a candidate. -/
theorem Agreeing.Batch.eq_of_mem_lineage {a : Arena K} (hb : Agreeing.Batch n batch a) {c d : Nat}
    (hc : c ∈ batch) (hd : d ∈ batch) (hl : d ∈ a.lineage c) : d = c := by
  obtain ⟨hcs, hcp⟩ := mem_children.mp (hb.children c hc)
  rcases (mem_lineage_child hcs hcp).mp hl with rfl | hl
  · rfl
  · have hle := le_of_mem_lineage hb.parent hl
    have hlt := lt_of_mem_children (hb.children d hd)
    omega

/-- A candidate not yet evaluated and its ancestors are as they were. -/
theorem Evaluated.unseen {results : List (Nat × Except Exc (Evaluation K))} {s : RunState K W}
    (hs : Evaluated ctl batch s₀ results s) (hb : Agreeing.Batch n batch s₀.tree.arena) {c : Nat}
    (hc : c ∈ batch) (hfresh : c ∉ results.map Prod.fst) :
    ∀ d ∈ s₀.tree.arena.lineage c, s.metadata d = s₀.metadata d := by
  intro d hd
  refine hs.elsewhere d fun hm => ?_
  obtain ⟨r, hr, rfl⟩ := List.mem_map.mp hm
  have he := hb.eq_of_mem_lineage hc (hs.subset r hr) hd
  exact hfresh (he ▸ hm)

/-- Each evaluation does what it would have done first. -/
theorem TreeSearchController.LocalEvaluator.collects (h : ctl.LocalEvaluator)
    (hb : Agreeing.Batch n batch s₀.tree.arena) : Collects ctl batch (Evaluated ctl batch s₀) := by
  intro results s c hs hc hfresh
  have hsame := hs.unseen hb hc hfresh
  have hanswer : (ctl.evaluator c s.tree.arena s.metadata s.world).answer =
      (ctl.evaluation s₀ c).answer := by
    rw [hs.tree]
    exact h.answer c _ _ _ _ _ hsame
  have hown : (ctl.evaluator c s.tree.arena s.metadata s.world).metadata c =
      (ctl.evaluation s₀ c).metadata c := by
    rw [hs.tree]
    exact h.own c _ _ _ _ _ hsame
  have helse : ∀ d, d ≠ c → (ctl.evaluator c s.tree.arena s.metadata s.world).metadata d =
      s.metadata d := fun d => h.elsewhere c _ _ _ d
  constructor
  case tree => exact hs.tree
  case machine => exact hs.machine
  case iteration => exact hs.iteration
  case draws => exact hs.draws
  case world => exact (h.world _ _ _ _).trans hs.world
  case subset =>
    intro r hr
    rcases List.mem_append.mp hr with hr | hr
    · exact hs.subset r hr
    · rw [List.mem_singleton.mp hr]
      exact hc
  case answers =>
    intro r hr
    rcases List.mem_append.mp hr with hr | hr
    · exact hs.answers r hr
    · rw [List.mem_singleton.mp hr]
      exact hanswer
  case recorded =>
    intro r hr
    rcases List.mem_append.mp hr with hr | hr
    · exact (helse r.1 fun he => hfresh (he ▸ List.mem_map_of_mem hr)).trans (hs.recorded r hr)
    · rw [List.mem_singleton.mp hr]
      exact hown
  case elsewhere =>
    intro d hd
    rw [List.map_append, List.mem_append, not_or] at hd
    exact (helse d fun he => hd.2 (by simp [he])).trans (hs.elsewhere d hd.1)
  case calls =>
    change _ :: policyCalls s.log = _
    rw [hs.calls, List.map_append, List.reverse_append]
    rfl

/-- The verdicts of the candidates, or the exception of the first whose evaluation fails. -/
def TreeSearchController.verdicts (ctl : TreeSearchController K W) (s : RunState K W) :
    List Nat → Except Exc (List (Evaluation K))
  | [] => .ok []
  | c :: cs => match (ctl.evaluation s c).answer with
    | .error e => .error e
    | .ok v => (ctl.verdicts s cs).map (v :: ·)

variable {results : List (Nat × Except Exc (Evaluation K))} {s : RunState K W}

/-- Answers for every candidate are the verdicts of the plain loop. -/
theorem Evaluated.verdicts_of_answered (h : Evaluated ctl batch s₀ results s) {cs : List Nat}
    {vs : List (Evaluation K)} (ha : Answered results cs vs) : ctl.verdicts s₀ cs = .ok vs := by
  induction ha with
  | nil => rfl
  | cons hc _ ih =>
    rw [TreeSearchController.verdicts, ← h.answers _ hc, ih]
    rfl

/-- The first failure in the order of the candidates is that of the plain loop. -/
theorem Evaluated.verdicts_of_failure (h : Evaluated ctl batch s₀ results s) {cs : List Nat} {e : Exc}
    (hf : FirstFailure results cs e) : ctl.verdicts s₀ cs = .error e := by
  obtain ⟨before, c, after, rfl, hbefore, hc⟩ := hf
  induction before with
  | nil => rw [List.nil_append, TreeSearchController.verdicts, ← h.answers _ hc]
  | cons d before ih =>
    obtain ⟨v, hv⟩ := hbefore d (List.mem_cons_self ..)
    rw [List.cons_append, TreeSearchController.verdicts, ← h.answers _ hv,
      ih fun x hx => hbefore x (List.mem_cons_of_mem _ hx)]
    rfl

/-- The metadata of an evaluated candidate is what its evaluation wrote. -/
theorem Evaluated.metadata_of_mem (h : Evaluated ctl batch s₀ results s) {d : Nat}
    (hd : d ∈ results.map Prod.fst) : s.metadata d = (ctl.evaluation s₀ d).metadata d := by
  obtain ⟨r, hr, rfl⟩ := List.mem_map.mp hd
  exact h.recorded r hr

/-- Whatever the order, the candidates up to the first failure have been evaluated. -/
theorem Evaluated.mem_of_failure (h : Evaluated ctl batch s₀ results s) {before after : List Nat}
    {c : Nat} {e e' : Exc} (hbatch : batch = before ++ c :: after)
    (hbefore : ∀ d ∈ before, ∃ v, (ctl.evaluation s₀ d).answer = .ok v)
    (hc : (ctl.evaluation s₀ c).answer = .error e) (hf : FirstFailure results batch e') :
    ∀ d ∈ before ++ [c], d ∈ results.map Prod.fst := by
  obtain ⟨before', c', after', hbatch', hbefore', hc'⟩ := hf
  have hmem : ∀ d ∈ before' ++ [c'], d ∈ results.map Prod.fst := by
    intro d hd
    rcases List.mem_append.mp hd with hd | hd
    · obtain ⟨v, hv⟩ := hbefore' d hd
      exact List.mem_map.mpr ⟨_, hv, rfl⟩
    · rw [List.mem_singleton.mp hd]
      exact List.mem_map.mpr ⟨_, hc', rfl⟩
  -- the first failure is where it is, whoever finds it
  suffices he : before = before' ∧ c = c' by
    rw [he.1, he.2]
    exact hmem
  rw [hbatch] at hbatch'
  rcases List.append_eq_append_iff.mp hbatch' with ⟨mid, rfl, hmid⟩ | ⟨mid, rfl, hmid⟩
  · cases mid with
    | nil => exact ⟨(List.append_nil _).symm, (List.cons.inj hmid).1⟩
    | cons x mid =>
      obtain ⟨v, hv⟩ := hbefore' c (by simp [(List.cons.inj hmid).1])
      have hok := h.answers _ hv
      rw [hc] at hok
      cases hok
  · cases mid with
    | nil => exact ⟨List.append_nil _, (List.cons.inj hmid).1.symm⟩
    | cons x mid =>
      obtain ⟨v, hv⟩ := hbefore c' (by simp [(List.cons.inj hmid).1])
      have herr := h.answers _ hc'
      rw [hv] at herr
      cases herr

/-- Both ways of collecting end with these verdicts or this exception. -/
def TreeSearchController.Collected (ctl : TreeSearchController K W) (s : RunState K W)
    (batch : List Nat) (r : EStateM.Result Signal (RunState K W) (List (Evaluation K))) : Prop :=
  (∃ vs t, r = .ok vs t ∧ ctl.verdicts s batch = .ok vs) ∨
    ∃ e t, r = .error (.raised e) t ∧ ctl.verdicts s batch = .error e

/-- `_collect_verdicts` returns the verdicts in candidate order, or raises for the first
candidate whose evaluation fails. -/
theorem TreeSearchController.LocalEvaluator.collected (h : ctl.LocalEvaluator)
    (hb : Agreeing.Batch n batch s₀.tree.arena) :
    ctl.Collected s₀ batch (collectVerdicts ctl rt batch s₀) := by
  have hrun := (h.collects hb).collectVerdicts rt hb.nodup s₀ .start
  cases hr : collectVerdicts ctl rt batch s₀ with
  | ok vs t =>
    rw [hr] at hrun
    obtain ⟨results, ht, ha⟩ := hrun
    exact Or.inl ⟨vs, t, rfl, ht.verdicts_of_answered ha⟩
  | error signal t =>
    rw [hr] at hrun
    obtain ⟨results, e, rfl, ht, hf⟩ := hrun
    exact Or.inr ⟨e, t, rfl, ht.verdicts_of_failure hf⟩

end Batches

section Lockstep

variable {ctl : TreeSearchController K W} {rt : Runtime K W} {n : Nat} {batch : List Nat}

/-- Where a batch failed, the plain loop lacks at most what the later candidates recorded. -/
def Lagging (ctl : TreeSearchController K W) (f f' : Footprint K) : Prop :=
  ∀ d, f'.metadata d = f.metadata d ∨ ∃ c p e, .evaluate c (.error e) ∈ f.calls ∧
    c ∈ (f.arena.node p).children ∧ d ∈ (f.arena.node p).children ∧ c < d ∧
    ∀ world, f'.metadata d = (ctl.evaluator d f.arena f.metadata world).metadata d

/-- The same metadata does not lag. -/
theorem Lagging.of_same {f f' : Footprint K} (h : SameMetadata f f') : Lagging ctl f f' :=
  fun d => Or.inl (congrFun h.symm d)

/-- Twins that have evaluated the same batch are twins up to what they recorded. -/
theorem Twins.evaluated {M : Footprint K → Footprint K → Prop} {s s' t t' : RunState K W}
    {results results' : List (Nat × Except Exc (Evaluation K))}
    (h : Twins (· = ·) SameMetadata 0 False rt rt s t) (hs : Evaluated ctl batch s results s')
    (ht : Evaluated ctl batch t results' t') (hm : M s'.footprint t'.footprint) :
    Twins (· = ·) M 0 False rt rt s' t' where
  arena := by rw [hs.tree, ht.tree, h.arena]
  sameTree hid := by rw [hs.tree, ht.tree, h.sameTree hid]
  indexed := hs.tree ▸ h.indexed
  indexed' := ht.tree ▸ h.indexed'
  footprint := hm
  phase := by rw [hs.machine, ht.machine, h.phase]
  history := by rw [hs.machine, ht.machine, h.history]
  iteration := by rw [hs.iteration, ht.iteration, h.iteration]
  draws := by rw [hs.draws, ht.draws, h.draws]
  world := by rw [hs.world, ht.world, h.world]
  calls hw := hw.elim

/-- The plain loop and the pool collect the same verdicts and raise the same exception. -/
theorem TreeSearchController.LocalEvaluator.lockstep (h : ctl.LocalEvaluator) :
    Lockstep (Astray 0 ctl.sequential ctl rt rt)
      (TwinsOn (· = ·) 0 False rt rt (Agreeing.Batch n batch))
      (collectVerdicts ctl.sequential rt batch) (collectVerdicts ctl rt batch)
      (fun _ => Twins (· = ·) SameMetadata 0 False rt rt)
      fun _ => Twins (· = ·) (Lagging ctl) 0 False rt rt := by
  refine ⟨fun s hs => absurd hs (not_strays_self _ _), fun s t ⟨hst, hb⟩ => Or.inr ?_⟩
  have hb' : Agreeing.Batch n batch t.tree.arena := hst.arena ▸ hb
  have heval : ∀ c, ctl.evaluation t c = ctl.evaluation s c := by
    intro c
    rw [evaluation, evaluation, hst.arena, hst.metadata, hst.world]
  have hverdicts : ∀ cs, ctl.verdicts t cs = ctl.verdicts s cs := by
    intro cs
    induction cs with
    | nil => rfl
    | cons c cs ih => rw [verdicts, verdicts, heval, ih]
  have hseq : Collects ctl.sequential batch (Evaluated ctl batch s) := h.collects hb
  have hone : collectVerdicts ctl.sequential rt batch = evaluateAll ctl.sequential batch :=
    if_pos (min_le_left 1 _)
  have hx := hseq.evaluateAll hb.nodup [] batch rfl [] s ⟨[], .start, rfl, .nil⟩
  have hy := (h.collects hb').collectVerdicts rt hb.nodup t .start
  rw [hone]
  cases hrx : evaluateAll ctl.sequential batch s with
  | ok vs s' =>
    rw [hrx] at hx
    obtain ⟨results, hs', hall, ha⟩ := hx
    have hvs := hs'.verdicts_of_answered ha
    cases hry : collectVerdicts ctl rt batch t with
    | ok vs' t' =>
      rw [hry] at hy
      obtain ⟨results', ht', ha'⟩ := hy
      have hvs' := ht'.verdicts_of_answered ha'
      rw [hverdicts, hvs] at hvs'
      refine ⟨Except.ok.inj hvs', hst.evaluated hs' ht' (funext fun d => ?_)⟩
      change s'.metadata d = t'.metadata d
      by_cases hd : d ∈ batch
      · obtain ⟨v, hv⟩ := ha'.exists_verdict d hd
        rw [hs'.metadata_of_mem (hall.symm ▸ hd), ht'.recorded _ hv, heval]
      · rw [hs'.elsewhere d (hall.symm ▸ hd), ht'.elsewhere d, hst.metadata]
        intro hm
        obtain ⟨r, hr, rfl⟩ := List.mem_map.mp hm
        exact hd (ht'.subset r hr)
    | error signal t' =>
      rw [hry] at hy
      obtain ⟨results', e, rfl, ht', hf'⟩ := hy
      have he := ht'.verdicts_of_failure hf'
      rw [hverdicts, hvs] at he
      cases he
  | error signal s' =>
    rw [hrx] at hx
    obtain ⟨results, before, c, after, e, rfl, hs', horder, hdone, hbefore, hc⟩ := hx
    have he := hs'.verdicts_of_failure ⟨before, c, after, horder, hbefore, hc⟩
    cases hry : collectVerdicts ctl rt batch t with
    | ok vs t' =>
      rw [hry] at hy
      obtain ⟨results', ht', ha'⟩ := hy
      have hvs := ht'.verdicts_of_answered ha'
      rw [hverdicts, he] at hvs
      cases hvs
    | error signal t' =>
      rw [hry] at hy
      obtain ⟨results', e', rfl, ht', hf'⟩ := hy
      have he' := ht'.verdicts_of_failure hf'
      rw [hverdicts, he] at he'
      cases he'
      refine ⟨rfl, hst.evaluated hs' ht' fun d => ?_⟩
      have hcv : (ctl.evaluation s c).answer = .error e := (hs'.answers _ hc).symm
      have hearlier : ∀ d ∈ before ++ [c], d ∈ results'.map Prod.fst := by
        refine ht'.mem_of_failure horder (fun d hd => ?_) ((heval c).symm ▸ hcv) hf'
        obtain ⟨v, hv⟩ := hbefore d hd
        exact ⟨v, (heval d).symm ▸ (hs'.answers _ hv).symm⟩
      change t'.metadata d = s'.metadata d ∨ _
      by_cases hd : d ∈ results.map Prod.fst
      · have hd' := hearlier d (hdone ▸ hd)
        exact Or.inl (by rw [hs'.metadata_of_mem hd, ht'.metadata_of_mem hd', heval])
      · by_cases hd' : d ∈ results'.map Prod.fst
        · -- a later candidate which only the pool has evaluated
          right
          obtain ⟨r, hr, rfl⟩ := List.mem_map.mp hd'
          have hmem := ht'.subset r hr
          have hafter : r.1 ∈ after := by
            rw [hdone] at hd
            rw [horder] at hmem
            simp only [List.mem_append, List.mem_cons] at hmem hd
            tauto
          have hlt : c < r.1 := by
            have hsorted := hb.sorted
            rw [horder, List.pairwise_append, List.pairwise_cons] at hsorted
            exact hsorted.2.1.1 _ hafter
          refine ⟨c, n, e, ?_, ?_, ?_, hlt, fun world => ?_⟩
          · change _ ∈ policyCalls s'.log
            rw [hs'.calls]
            exact List.mem_append_left _ (List.mem_reverse.mpr (List.mem_map.mpr ⟨_, hc, rfl⟩))
          · change c ∈ (s'.tree.arena.node n).children
            rw [hs'.tree]
            exact hb.children c (by simp [horder])
          · change r.1 ∈ (s'.tree.arena.node n).children
            rw [hs'.tree]
            exact hb.children _ hmem
          · change t'.metadata r.1 = (ctl.evaluator r.1 s'.tree.arena s'.metadata world).metadata r.1
            rw [ht'.metadata_of_mem hd', heval, hs'.tree]
            exact (h.own _ _ _ _ _ _ (hs'.unseen hb hmem hd)).symm
        · exact Or.inl (by rw [hs'.elsewhere d hd, ht'.elsewhere d hd', hst.metadata])

end Lockstep

section Runs

variable {ctl : TreeSearchController K W} {rt : Runtime K W}

/-- What the two runs share besides the number of workers. -/
theorem Agreeing.sequential : Agreeing (· = ·) ctl.sequential ctl rt rt :=
  { (Agreeing.self : Agreeing (· = ·) ctl ctl rt rt) with }

/-- A controller and its sequential one have the same limits at the same time. -/
theorem Synchronous.sequential : Synchronous (· = ·) ctl.sequential ctl rt rt :=
  { (Synchronous.self : Synchronous (· = ·) ctl ctl rt rt) with }

variable (ctl rt) in
/-- With a local evaluator both runs return twin results or raise the same exception. -/
theorem TreeSearchController.LocalEvaluator.run_twins (h : ctl.LocalEvaluator) (task : Str)
    (draws : Nat) (world : W) :
    (∃ r r' s t, ctl.sequential.run rt task draws world = .ok r s ∧
      ctl.run rt task draws world = .ok r' t ∧ SameResult r r' ∧
      Twins (· = ·) (Lagging ctl) 0 False rt rt s t) ∨
    ∃ e s t, ctl.sequential.run rt task draws world = .error e s ∧
      ctl.run rt task draws world = .error e t :=
  (Synchronous.sequential.run Agreeing.sequential (fun _ _ => h.lockstep)
    (fun _ _ => Lagging.of_same) rfl rfl).resolve_left (not_strays_self _ _)

/-- However many workers there are and however they are scheduled, a run ends as with a
single one, and a batch fails with the exception of its earliest failing candidate. -/
theorem run_refines_sequential (ctl : TreeSearchController K W) (rt : Runtime K W) (task : Str)
    (draws : Nat) (world : W) (isolated : ctl.LocalEvaluator) :
    SameEnd (ctl.sequential.run rt task draws world) (ctl.run rt task draws world) ∧
    ∀ n batch s, Agreeing.Batch n batch s.tree.arena →
      ctl.Collected s batch (collectVerdicts ctl rt batch s) := by
  refine ⟨?_, fun n batch s hb => isolated.collected hb⟩
  rcases isolated.run_twins ctl rt task draws world with ⟨r, r', s, t, hr, hr', hsame, -⟩ | hraised
  · exact Or.inl ⟨r, r', s, t, hr, hr', hsame⟩
  · exact Or.inr hraised

/-- With several workers the metadata of the two runs agree unless a candidate after a failing one
has something to record, which the plain loop does not reach and the pool may; with one worker they
always agree. -/
theorem run_metadata_of_quiet_failures (ctl : TreeSearchController K W) (rt : Runtime K W)
    (task : Str) (draws : Nat) (world : W) (isolated : ctl.LocalEvaluator) {r r' : SearchResult K}
    {s t : RunState K W} (hseq : ctl.sequential.run rt task draws world = .ok r s)
    (hpar : ctl.run rt task draws world = .ok r' t)
    (quiet : 1 < ctl.config.evaluationWorkers → ∀ c p e d, .evaluate c (.error e) ∈ s.log →
      c ∈ (s.tree.arena.node p).children → d ∈ (s.tree.arena.node p).children → c < d →
        (ctl.evaluation s d).metadata d = s.metadata d) :
    r'.metadata = r.metadata := by
  have hworkers := ctl.config.bounds.2.2.2.2
  rcases Nat.lt_or_ge 1 ctl.config.evaluationWorkers with hpool | hplain
  · rcases isolated.run_twins ctl rt task draws world with
      ⟨q, q', s', t', hr, hr', -, htwins⟩ | ⟨e, _, _, hr, -⟩
    · rw [hseq] at hr
      cases hr
      rw [hpar] at hr'
      cases hr'
      rw [metadata_of_run hseq, metadata_of_run hpar]
      funext d
      rcases htwins.footprint d with hsame | ⟨c, p, e, hlog, hc, hd, hlt, hrecord⟩
      · exact hsame
      · exact (hrecord s.world).trans (quiet hpool c p e d (List.mem_filter.mp hlog).1 hc hd hlt)
    · rw [hseq] at hr
      cases hr
  · rw [TreeSearchController.sequential_eq (Nat.le_antisymm hplain hworkers), hpar] at hseq
    cases hseq
    rfl

end Runs

section Examples

/-- A controller that looks at the path alone has a local evaluator. -/
theorem pathController_local (config : SearchConfig K) (children : List Str → List Str)
    (verdict : List Str → Evaluation K) :
    (pathController config children verdict : TreeSearchController K W).LocalEvaluator where
  world _ _ _ _ := rfl
  elsewhere _ _ _ _ _ _ := rfl
  answer _ _ _ _ _ _ _ := rfl
  own _ _ _ _ _ _ h := h _ (mem_lineage_self _ _)

/-- Two workers. -/
def pooledConfig : SearchConfig ℚ where
  toConfigFields := { smallConfig.toConfigFields with evaluationWorkers := 2 }
  checked := by decide +kernel

/-- Both workers start, and the second one finishes first. -/
def overtakingRuntime : Runtime ℚ Unit where
  __ := seedOneRuntime
  schedule _ _ _ := [.start, .start, .finish 1, .finish 0]

/-- Two workers that overtake each other end as the plain loop. -/
theorem run_refines_sequential_pooled :
    SameEnd ((pathController pooledConfig (fun _ => [lit "left", lit "right"])
        fun _ => halfway).sequential.run overtakingRuntime (lit "task") 0 ())
      ((pathController pooledConfig (fun _ => [lit "left", lit "right"]) fun _ => halfway).run
        overtakingRuntime (lit "task") 0 ()) ∧
    ∀ n batch s, Agreeing.Batch n batch s.tree.arena →
      (pathController pooledConfig (fun _ => [lit "left", lit "right"]) fun _ => halfway).Collected s
        batch (collectVerdicts (pathController pooledConfig (fun _ => [lit "left", lit "right"])
          fun _ => halfway) overtakingRuntime batch s) :=
  run_refines_sequential _ _ _ _ _ (pathController_local _ _ _)

/-- The evaluator raises on some candidates and records its work on the others. -/
def recordingController (faulty : Str → Bool) (record : Metadata ℚ) :
    TreeSearchController ℚ Unit where
  __ := pathController pooledConfig (fun _ => [lit "left", lit "right"]) fun _ => halfway
  evaluator node arena metadata world :=
    if faulty (arena.node node).content then
      ⟨.error ⟨lit "RuntimeError", lit "no verdict"⟩, metadata, world⟩
    else ⟨.ok halfway, fun x => if x = node then record else metadata x, world⟩

/-- A controller that records has a local evaluator. -/
theorem recordingController_local (faulty : Str → Bool) (record : Metadata ℚ) :
    (recordingController faulty record).LocalEvaluator where
  world _ _ _ _ := rfl
  elsewhere c arena metadata world d hd := by
    dsimp only [recordingController]
    split
    · rfl
    · exact if_neg hd
  answer c arena metadata metadata' world world' h := by
    dsimp only [recordingController]
    split
    · rfl
    · rfl
  own c arena metadata metadata' world world' h := by
    dsimp only [recordingController]
    split
    · exact h c (mem_lineage_self _ _)
    · simp

/-- Every evaluation fails and records nothing. -/
theorem run_metadata_of_quiet_failures_unrecorded :
    ∃ r r' s t, (recordingController (fun _ => true) []).sequential.run overtakingRuntime
        (lit "task") 0 () = .ok r s ∧
      (recordingController (fun _ => true) []).run overtakingRuntime (lit "task") 0 () = .ok r' t ∧
      r.outcome = .failed ∧ r'.metadata = r.metadata := by
  obtain ⟨r, s, hr, ho⟩ := exists_ok_of_returned (show (returned ((recordingController (fun _ => true)
      []).sequential.run overtakingRuntime (lit "task") 0 ())).map (fun r => r.outcome) =
    some .failed by decide +kernel)
  obtain ⟨r', t, hr', -⟩ := exists_ok_of_returned (show (returned ((recordingController (fun _ => true)
      []).run overtakingRuntime (lit "task") 0 ())).map (fun r => r.outcome) =
    some .failed by decide +kernel)
  exact ⟨r, r', s, t, hr, hr', ho, run_metadata_of_quiet_failures _ _ _ _ _
    (recordingController_local _ _) hr hr' fun _ _ _ _ _ _ _ _ _ => rfl⟩

/-- The pool leaves a record on the second candidate, which the plain loop does not reach. -/
theorem run_metadata_differs_after_failure :
    (recordingController (· == lit "left") [(lit "execution", .none)]).LocalEvaluator ∧
    ∃ r r' s t, (recordingController (· == lit "left") [(lit "execution", .none)]).sequential.run
        overtakingRuntime (lit "task") 0 () = .ok r s ∧
      (recordingController (· == lit "left") [(lit "execution", .none)]).run overtakingRuntime
        (lit "task") 0 () = .ok r' t ∧ r'.metadata ≠ r.metadata := by
  refine ⟨recordingController_local _ _, ?_⟩
  obtain ⟨r, s, hr, hm⟩ := exists_ok_of_returned (show (returned ((recordingController (· == lit "left")
      [(lit "execution", .none)]).sequential.run overtakingRuntime (lit "task") 0 ())).map
    (fun r => (r.metadata 2).length) = some 0 by decide +kernel)
  obtain ⟨r', t, hr', hm'⟩ := exists_ok_of_returned (show (returned ((recordingController (· == lit "left")
      [(lit "execution", .none)]).run overtakingRuntime (lit "task") 0 ())).map
    (fun r => (r.metadata 2).length) = some 1 by decide +kernel)
  refine ⟨r, r', s, t, hr, hr', fun he => ?_⟩
  rw [he, hm] at hm'
  cases hm'

end Examples

end CognitiveTree.Search
