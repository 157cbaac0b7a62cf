import CognitiveTree.Search.Refinement

/-!
# Collecting verdicts

The sequential loop and the worker pool both end with one answer for each candidate
of the batch, or with the exception of the first candidate whose evaluation failed:
a cancelled task always has a failed one before it in candidate order.
-/

namespace CognitiveTree.Search

open Arena

variable {K W : Type} [PyFloat K]

/-- The stored results hold these verdicts for these candidates. -/
abbrev Answered (results : List (Nat × Except Exc (Evaluation K))) (cs : List Nat)
    (vs : List (Evaluation K)) : Prop :=
  List.Forall₂ (fun c v => (c, .ok v) ∈ results) cs vs

/-- The stored results hold an exception for a candidate and verdicts for all before it. -/
def FirstFailure (results : List (Nat × Except Exc (Evaluation K))) (cs : List Nat)
    (e : Exc) : Prop :=
  ∃ before c after, cs = before ++ c :: after ∧ (∀ d ∈ before, ∃ v, (d, .ok v) ∈ results) ∧
    (c, .error e) ∈ results

/-- A verdict in front does not change the first failure. -/
theorem FirstFailure.cons {results : List (Nat × Except Exc (Evaluation K))} {cs : List Nat}
    {e : Exc} (h : FirstFailure results cs e) {c : Nat} {v : Evaluation K}
    (hc : (c, .ok v) ∈ results) : FirstFailure results (c :: cs) e := by
  obtain ⟨before, d, after, rfl, hbefore, hd⟩ := h
  refine ⟨c :: before, d, after, rfl, fun x hx => ?_, hd⟩
  rcases List.mem_cons.mp hx with rfl | hx
  · exact ⟨v, hc⟩
  · exact hbefore x hx

namespace Answered

variable {results : List (Nat × Except Exc (Evaluation K))} {cs : List Nat}
  {vs : List (Evaluation K)}

/-- Verdicts paired with their candidates. -/
theorem zip_fst (h : Answered results cs vs) : (cs.zip vs).map Prod.fst = cs :=
  List.map_fst_zip h.length_eq.le

/-- Each candidate has its verdict. -/
theorem zip_snd (h : Answered results cs vs) : (cs.zip vs).map Prod.snd = vs :=
  List.map_snd_zip h.length_eq.ge

/-- The verdicts are those of the results. -/
theorem mem_zip (h : Answered results cs vs) :
    ∀ cv ∈ cs.zip vs, (cv.1, .ok cv.2) ∈ results := by
  induction h with
  | nil => intro cv hcv; cases hcv
  | cons hhead _ ih =>
    intro cv hcv
    rcases List.mem_cons.mp hcv with rfl | hcv
    · exact hhead
    · exact ih cv hcv

/-- Every candidate has a verdict. -/
theorem exists_verdict (h : Answered results cs vs) : ∀ c ∈ cs, ∃ v, (c, .ok v) ∈ results := by
  intro c hc
  rw [← h.zip_fst] at hc
  obtain ⟨cv, hcv, rfl⟩ := List.mem_map.mp hc
  exact ⟨cv.2, h.mem_zip cv hcv⟩

end Answered

namespace Pool

variable {p : Pool K}

/-- What is looked up is a result. -/
theorem mem_of_result {c : Nat} {answer : Except Exc (Evaluation K)}
    (h : p.result c = some answer) : (c, answer) ∈ p.results := by
  obtain ⟨before, after, he, -⟩ := List.lookup_eq_some_iff.mp h
  rw [he]
  exact List.mem_append_right _ (List.mem_cons_self ..)

/-- A candidate that was completed has a result. -/
theorem exists_result {c : Nat} (h : c ∈ p.results.map Prod.fst) :
    ∃ answer, p.result c = some answer := by
  obtain ⟨r, hr, rfl⟩ := List.mem_map.mp h
  exact Option.isSome_iff_exists.mp (List.lookup_isSome_iff.mpr ⟨r, hr, by simp⟩)

/-- A failure the consumer has met stays met as more results arrive. -/
theorem failureMet_append {q : Pool K} {r : List (Nat × Except Exc (Evaluation K))}
    (hq : q.results = p.results ++ r) {cs : List Nat} (h : p.failureMet cs = true) :
    q.failureMet cs = true := by
  have hresult : ∀ c a, p.result c = some a → q.result c = some a := by
    intro c a hc
    rw [result] at hc ⊢
    rw [hq, List.lookup_append, hc, Option.some_or]
  induction cs with
  | nil => exact h
  | cons c cs ih =>
    rw [failureMet] at h ⊢
    cases hc : p.result c with
    | none => rw [hc] at h; cases h
    | some answer =>
      rw [hc] at h
      rw [hresult c answer hc]
      cases answer with
      | ok v => exact ih h
      | error e => rfl

/-- Reading the results gives all verdicts or the first failure, provided every
result is there or the consumer has met a failure. -/
theorem gather_spec (cs : List Nat)
    (h : (∀ c ∈ cs, c ∈ p.results.map Prod.fst) ∨ p.failureMet cs = true) :
    match p.gather cs with
    | .ok vs => Answered p.results cs vs
    | .error e => FirstFailure p.results cs e := by
  induction cs with
  | nil => exact .nil
  | cons c cs ih =>
    rw [gather]
    cases hc : p.result c with
    | none =>
      rcases h with h | h
      · obtain ⟨answer, ha⟩ := exists_result (h c (List.mem_cons_self ..))
        rw [hc] at ha
        cases ha
      · rw [failureMet, hc] at h
        cases h
    | some answer =>
      have hmem := mem_of_result hc
      cases answer with
      | error e => exact ⟨[], c, cs, rfl, fun _ hd => absurd hd List.not_mem_nil, hmem⟩
      | ok v =>
        have hrest := ih (by
          rcases h with h | h
          · exact Or.inl fun d hd => h d (List.mem_cons_of_mem _ hd)
          · rw [failureMet, hc] at h
            exact Or.inr h)
        dsimp only
        cases hg : p.gather cs with
        | ok vs =>
          rw [hg] at hrest
          exact .cons hmem hrest
        | error e =>
          rw [hg] at hrest
          exact hrest.cons hmem

/-- Every task is queued, running or done, exactly once; only tasks that follow a
failure the consumer has met may be missing. -/
structure Accounted (p : Pool K) (batch : List Nat) : Prop where
  nodup : (p.queue ++ p.running ++ p.results.map Prod.fst).Nodup
  subset : ∀ c ∈ p.queue ++ p.running ++ p.results.map Prod.fst, c ∈ batch
  complete : (∀ c ∈ batch, c ∈ p.queue ++ p.running ++ p.results.map Prod.fst) ∨
    p.failureMet batch = true

namespace Accounted

variable {batch : List Nat}

/-- A pool accounts for its tasks however they are arranged. -/
theorem perm {q : Pool K} {r : List (Nat × Except Exc (Evaluation K))} (h : Accounted p batch)
    (hresults : q.results = p.results ++ r)
    (hperm : (q.queue ++ q.running ++ q.results.map Prod.fst).Perm
      (p.queue ++ p.running ++ p.results.map Prod.fst)) : Accounted q batch where
  nodup := hperm.nodup_iff.mpr h.nodup
  subset c hc := h.subset c (hperm.mem_iff.mp hc)
  complete := h.complete.imp (fun hall c hc => hperm.mem_iff.mpr (hall c hc))
    (failureMet_append hresults)

/-- At first the whole batch waits. -/
theorem initial (hnodup : batch.Nodup) : Accounted (⟨batch, [], []⟩ : Pool K) batch := by
  refine ⟨?_, ?_, Or.inl ?_⟩
  · simpa using hnodup
  · simp
  · simp

/-- Cancelling the queue needs a failure. -/
theorem cancel (h : Accounted p batch) (hmet : p.failureMet batch = true) :
    Accounted { p with queue := [] } batch where
  nodup := h.nodup.sublist (by simp [List.append_assoc])
  subset c hc := h.subset c (by simp only [List.mem_append] at hc ⊢; tauto)
  complete := Or.inr (failureMet_append (p := p) (r := []) (by simp) hmet)

end Accounted

end Pool

/-- `I` follows the answers of a batch as they arrive, whichever candidate is next. -/
def Collects (ctl : TreeSearchController K W) (batch : List Nat)
    (I : List (Nat × Except Exc (Evaluation K)) → RunState K W → Prop) : Prop :=
  ∀ results s c, I results s → c ∈ batch → c ∉ results.map Prod.fst →
    I (results ++ [(c, (ctl.evaluator c s.tree.arena s.metadata s.world).answer)])
      (s.consulted (ctl.evaluator c s.tree.arena s.metadata s.world)
        (.evaluate c (ctl.evaluator c s.tree.arena s.metadata s.world).answer))

/-- How the plain loop ends early: at the first candidate whose evaluation failed. -/
def StoppedAt (batch : List Nat) (I : List (Nat × Except Exc (Evaluation K)) → RunState K W → Prop)
    (signal : Signal) (s : RunState K W) : Prop :=
  ∃ results before c after e, signal = .raised e ∧ I results s ∧ batch = before ++ c :: after ∧
    results.map Prod.fst = before ++ [c] ∧ (∀ d ∈ before, ∃ v, (d, .ok v) ∈ results) ∧
    (c, .error e) ∈ results

/-- How a batch may end early: the first failure in candidate order decides the exception. -/
def FailedIn (batch : List Nat) (I : List (Nat × Except Exc (Evaluation K)) → RunState K W → Prop)
    (signal : Signal) (s : RunState K W) : Prop :=
  ∃ results e, signal = .raised e ∧ I results s ∧ FirstFailure results batch e

namespace Collects

variable {ctl : TreeSearchController K W} {batch : List Nat}
  {I : List (Nat × Except Exc (Evaluation K)) → RunState K W → Prop}
  {E : Signal → RunState K W → Prop} (hI : Collects ctl batch I)

include hI

/-- The plain loop evaluates the candidates from left to right. -/
theorem evaluateAll (hnodup : batch.Nodup) (done todo : List Nat) (hbatch : batch = done ++ todo)
    (vs : List (Evaluation K)) :
    Triple (fun s => ∃ results, I results s ∧ results.map Prod.fst = done ∧ Answered results done vs)
      (evaluateAll ctl todo)
      (fun vs' s => ∃ results, I results s ∧ results.map Prod.fst = batch ∧
        Answered results batch (vs ++ vs')) (StoppedAt batch I) := by
  induction todo generalizing done vs with
  | nil =>
    refine Triple.pure _ ?_
    rintro s ⟨results, hs, hdone, ha⟩
    rw [List.append_nil] at hbatch
    subst hbatch
    exact ⟨results, hs, hdone, by simpa using ha⟩
  | cons c cs ih =>
    have happend : batch = (done ++ [c]) ++ cs := by simp [hbatch]
    have hmem : c ∈ batch := by simp [hbatch]
    have hfresh : c ∉ done := by
      rw [hbatch] at hnodup
      exact fun hc => (List.nodup_append.mp hnodup).2.2 c hc c (List.mem_cons_self ..) rfl
    refine Triple.bind (Q := fun v s => ∃ results, I results s ∧
      results.map Prod.fst = done ++ [c] ∧ Answered results (done ++ [c]) (vs ++ [v])) ?_ fun v => ?_
    · refine consult_spec ?_ ?_
      · rintro s v ⟨results, hs, hdone, hvs⟩ ha
        have hnext := hI results s c hs hmem (hdone ▸ hfresh)
        refine ⟨_, hnext, by rw [List.map_append, hdone]; rfl, ?_⟩
        rw [ha]
        refine List.rel_append ?_ ?_
        · exact hvs.imp fun _ _ hm => List.mem_append_left _ hm
        · exact .cons (List.mem_append_right _ (List.mem_singleton.mpr rfl)) .nil
      · rintro s e ⟨results, hs, hdone, hvs⟩ ha
        have hnext := hI results s c hs hmem (hdone ▸ hfresh)
        refine ⟨_, done, c, cs, e, rfl, hnext, hbatch, by rw [List.map_append, hdone]; rfl, ?_, ?_⟩
        · intro d hd
          obtain ⟨v, hv⟩ := hvs.exists_verdict d hd
          exact ⟨v, List.mem_append_left _ hv⟩
        · rw [ha]
          exact List.mem_append_right _ (List.mem_singleton.mpr rfl)
    · refine Triple.bind (Q := fun vs' s => ∃ results, I results s ∧
        results.map Prod.fst = batch ∧ Answered results batch (vs ++ v :: vs')) ?_
        fun vs' => Triple.pure _ fun _ h => h
      have h := ih (done ++ [c]) happend (vs ++ [v])
      simpa [List.append_assoc] using h

/-- A worker finishes a task the pool has taken out of its queue. -/
theorem complete (p : Pool K) (c : Nat) (hc : c ∈ p.running) (hp : p.Accounted batch) :
    Triple (I p.results) (p.complete ctl c)
      (fun q s => I q.results s ∧ q.Accounted batch ∧ q.queue = p.queue ∧
        q.running = p.running.erase c) E := by
  intro s hs
  have hpending := hp.subset c (by simp [hc])
  have hfresh : c ∉ p.results.map Prod.fst := fun hm =>
    (List.nodup_append.mp hp.nodup).2.2 c (List.mem_append_right _ hc) c hm rfl
  refine ⟨hI p.results s c hs hpending hfresh, ?_, rfl, rfl⟩
  refine hp.perm rfl ?_
  have hmove : (p.running.erase c ++ (p.results.map Prod.fst ++ [c])).Perm
      (p.running ++ p.results.map Prod.fst) := by
    rw [← List.append_assoc]
    refine (List.perm_append_singleton c _).trans ?_
    rw [← List.cons_append]
    exact (List.perm_cons_erase hc).symm.append_right _
  simpa only [List.map_append, List.map_cons, List.map_nil, List.append_assoc] using
    hmove.append_left p.queue

/-- One scheduling event keeps every task accounted for. -/
theorem poolStep (workers : Nat) (p : Pool K) (event : PoolEvent) (hp : p.Accounted batch) :
    Triple (I p.results) (p.step ctl workers batch event)
      (fun q s => I q.results s ∧ q.Accounted batch) E := by
  cases event with
  | start =>
    dsimp only [Pool.step]
    cases hq : p.queue with
    | nil => exact Triple.pure _ fun s hs => ⟨hs, hp⟩
    | cons c queue =>
      refine Triple.ite (fun _ => Triple.pure _ fun s hs => ⟨hs, ?_⟩) fun _ =>
        Triple.pure _ fun s hs => ⟨hs, hp⟩
      refine hp.perm (q := { p with queue := queue, running := p.running ++ [c] })
        (r := []) (by simp) (List.Perm.append_right _ ?_)
      rw [hq, ← List.append_assoc]
      exact List.perm_append_singleton c _
  | finish i =>
    dsimp only [Pool.step]
    cases hi : p.running[i]? with
    | none => exact Triple.pure _ fun s hs => ⟨hs, hp⟩
    | some c =>
      exact (hI.complete p c (List.mem_of_getElem? hi) hp).post fun q s hq => ⟨hq.1, hq.2.1⟩
  | cancel =>
    exact Triple.ite (fun hmet => Triple.pure _ fun s hs => ⟨hs, hp.cancel hmet⟩) fun _ =>
      Triple.pure _ fun s hs => ⟨hs, hp⟩

/-- A property that each evaluation keeps holds after any events. -/
theorem follow (workers : Nat) (events : List PoolEvent) (p : Pool K) (hp : p.Accounted batch) :
    Triple (I p.results) (Pool.follow ctl workers batch events p)
      (fun q s => I q.results s ∧ q.Accounted batch) E := by
  induction events generalizing p with
  | nil => exact Triple.pure _ fun s hs => ⟨hs, hp⟩
  | cons event events ih =>
    refine Triple.bind (hI.poolStep workers p event hp) fun q => ?_
    rintro s ⟨hs, hq⟩
    exact ih q hq s hs

/-- Shutting down finishes every task that is left. -/
theorem shutdown (left : List Nat) (p : Pool K) (hp : p.Accounted batch) (hqueue : p.queue = [])
    (hleft : left = p.running) :
    Triple (I p.results) (Pool.shutdown ctl left p)
      (fun q s => I q.results s ∧ q.Accounted batch ∧ q.queue = [] ∧ q.running = []) E := by
  induction left generalizing p with
  | nil => exact Triple.pure _ fun s hs => ⟨hs, hp, hqueue, hleft.symm⟩
  | cons c cs ih =>
    have hc : c ∈ p.running := hleft ▸ List.mem_cons_self ..
    refine Triple.bind (hI.complete p c hc hp) fun q => ?_
    rintro s ⟨hs, hq, hqqueue, hqrunning⟩
    refine ih q hq (hqqueue.trans hqueue) ?_ s hs
    rw [hqrunning, ← hleft, List.erase_cons_head]

/-- A pool ends with all verdicts or with the first failure. -/
theorem poolMap (rt : Runtime K W) (hnodup : batch.Nodup) (workers : Nat) :
    Triple (I []) (poolMap ctl rt workers batch)
      (fun vs s => ∃ results, I results s ∧ Answered results batch vs) (FailedIn batch I) := by
  refine Triple.get_bind fun s hs => ?_
  refine Triple.bind ((hI.follow _ _ ⟨batch, [], []⟩ (Pool.Accounted.initial hnodup)).pre ?_)
    fun p => ?_
  · rintro _ rfl
    exact hs
  · -- the tasks left in the queue are run as well
    refine Triple.of_forall fun s' hs' => ?_
    have hp : ({ p with queue := [], running := p.running ++ p.queue } : Pool K).Accounted batch :=
      hs'.2.perm (r := []) (by simp) (List.Perm.append_right _
        (show (p.running ++ p.queue).Perm (p.queue ++ p.running) from List.perm_append_comm))
    refine Triple.bind ((hI.shutdown _ _ hp rfl rfl).pre ?_) fun q => ?_
    · rintro _ rfl
      exact hs'.1
    · rintro t ⟨ht, hq, hqueue, hrunning⟩
      have hall : (∀ c ∈ batch, c ∈ q.results.map Prod.fst) ∨ q.failureMet batch = true := by
        simpa [hqueue, hrunning] using hq.complete
      have hgather := Pool.gather_spec batch hall
      cases hg : q.gather batch with
      | ok vs =>
        rw [hg] at hgather
        exact ⟨q.results, ht, hgather⟩
      | error e =>
        rw [hg] at hgather
        exact ⟨q.results, e, rfl, ht, hgather⟩

/-- `_collect_verdicts` returns a verdict for every candidate of the batch. -/
theorem collectVerdicts (rt : Runtime K W) (hnodup : batch.Nodup) :
    Triple (I []) (collectVerdicts ctl rt batch)
      (fun vs s => ∃ results, I results s ∧ Answered results batch vs) (FailedIn batch I) := by
  refine Triple.ite (fun _ => ?_) fun _ => hI.poolMap rt hnodup _
  refine (hI.evaluateAll hnodup [] batch rfl []).conseq ?_ ?_ ?_
  · exact fun s hs => ⟨[], hs, rfl, .nil⟩
  · rintro vs s ⟨results, hs, -, ha⟩
    exact ⟨results, hs, ha⟩
  · rintro _ s ⟨results, before, c, after, e, rfl, hs, horder, -, hbefore, hfailure⟩
    exact ⟨results, e, rfl, hs, before, c, after, horder, hbefore, hfailure⟩

end Collects

namespace Follows

variable {ctl : TreeSearchController K W} {rt : Runtime K W}
  {G : Stage K → RunState K W → Prop} (hG : Follows ctl rt G)

include hG

/-- `_collect_verdicts` returns a verdict for every candidate of the batch. -/
theorem collectVerdicts (n : Nat) (batch : List Nat) :
    Triple (G (.collecting n batch [])) (collectVerdicts ctl rt batch)
      (fun vs s => ∃ results, G (.collecting n batch results) s ∧ Answered results batch vs)
      (Fault G) := by
  refine Triple.of_forall fun s hs => ?_
  have hcollects : Collects ctl batch fun results => G (.collecting n batch results) :=
    fun results s c hs hc hfresh => hG.step hs (.evaluate hc hfresh rfl) rfl
  refine (hcollects.collectVerdicts rt ((hG.inv hs).working n rfl).nodup).conseq ?_ (fun _ _ h => h) ?_
  · rintro _ rfl
    exact hs
  · rintro _ t ⟨results, e, rfl, ht, before, c, after, horder, hearlier, hfailure⟩
    exact Or.inl (hG.step ht (.collectRaised horder hearlier hfailure) rfl)

/-- `_evaluate` judges the whole batch. -/
theorem evaluate (n : Nat) (batch : List Nat) :
    Triple (G (.collecting n batch [])) (evaluate ctl rt batch)
      (fun r s => G (.judging n [] r.1 r.2) s) (Fault G) := by
  refine Triple.bind (hG.collectVerdicts n batch) fun vs => ?_
  refine Triple.of_forall fun s hs => ?_
  obtain ⟨results, hs, hvs⟩ := hs
  have h := hG.judge n (batch.zip vs) none []
  rw [hvs.zip_fst, hvs.zip_snd] at h
  refine h.pre ?_
  rintro _ rfl
  exact hG.step hs (.collected hvs.zip_fst hvs.mem_zip) rfl

end Follows

end CognitiveTree.Search
