import CognitiveTree.Llm.CacheRuns
import CognitiveTree.Core.Rational

/-!
# The ledger of a shared cache

In every state some interleaving leads to, the counters of the store are the recorded lookups, what
it holds was answered by the backend, and no token is lost or counted twice.
-/

namespace CognitiveTree.Llm

open Observability

variable {ι K : Type} [PyFloat K] {sampled : ι → Bool} {maxEntries : Nat} {s : CacheRun ι K}

/-- With distinct keys a key is counted once. -/
theorem countP_of_nodup {α : Type} {f : α → Nat} {xs : List α} (hdistinct : (xs.map f).Nodup)
    (q : α → Bool) {x : α} (hx : x ∈ xs) :
    xs.countP (fun y => q y && f y = f x) = if q x then 1 else 0 := by
  induction xs with
  | nil => cases hx
  | cons y ys ih =>
    rw [List.map_cons, List.nodup_cons] at hdistinct
    rw [List.countP_cons]
    rcases List.mem_cons.mp hx with rfl | hx
    · have hnone : ys.countP (fun y => q y && f y = f x) = 0 := by
        rw [List.countP_eq_zero]
        intro y hy hboth
        rw [Bool.and_eq_true, decide_eq_true_eq] at hboth
        exact hdistinct.1 (hboth.2 ▸ List.mem_map_of_mem hy)
      rw [hnone]
      simp
    · have hne : f y ≠ f x := fun he => hdistinct.1 (he ▸ List.mem_map_of_mem hx)
      rw [ih hdistinct.2 hx]
      simp [hne]

/-- Calls are numbered as they begin. -/
theorem CacheReach.numbered (h : CacheReach sampled maxEntries s) :
    (s.log.filterMap Event.begun?).map (·.id) = (List.range s.begun).reverse := by
  refine h.invariant (P := fun s => (s.log.filterMap Event.begun?).map (·.id) =
    (List.range s.begun).reverse) (fun positive => rfl) fun s s' hc hstep => ?_
  cases hstep with
  | begin client request =>
    rw [List.range_succ, List.reverse_append]
    exact congrArg (s.begun :: ·) hc
  | _ => exact hc

/-- The counters of the store are the recorded lookups. -/
theorem CacheReach.recorded (h : CacheReach sampled maxEntries s) :
    s.cache.hits = (s.log.filterMap Event.looked?).countP (fun x => x.2.isSome) ∧
      s.cache.misses = (s.log.filterMap Event.looked?).countP fun x => x.2.isNone := by
  refine h.invariant (P := fun s =>
    s.cache.hits = (s.log.filterMap Event.looked?).countP (fun x => x.2.isSome) ∧
      s.cache.misses = (s.log.filterMap Event.looked?).countP fun x => x.2.isNone)
    (fun positive => ⟨rfl, rfl⟩) fun s s' hc hstep => ?_
  cases hstep with
  | @hit before after call cached running found =>
    have hcounts := s.cache.get_counts call.request
    simp only [found, Option.isSome_some, if_true] at hcounts
    change _ = List.countP _ ((call, some cached) :: s.log.filterMap Event.looked?) ∧
      _ = List.countP _ ((call, some cached) :: s.log.filterMap Event.looked?)
    rw [List.countP_cons_of_pos rfl, List.countP_cons_of_neg (by simp), hcounts.1, hcounts.2]
    exact ⟨congrArg (· + 1) hc.1, hc.2⟩
  | @miss before after call running missing =>
    have hcounts := s.cache.get_counts call.request
    simp only [missing, Option.isSome_none, Bool.false_eq_true, if_false] at hcounts
    change _ = List.countP _ ((call, none) :: s.log.filterMap Event.looked?) ∧
      _ = List.countP _ ((call, none) :: s.log.filterMap Event.looked?)
    rw [List.countP_cons_of_neg (by simp), List.countP_cons_of_pos rfl, hcounts.1, hcounts.2]
    exact ⟨hc.1, congrArg (· + 1) hc.2⟩
  | _ => exact hc

/-- The store keeps its size limit. -/
theorem CacheReach.limit (h : CacheReach sampled maxEntries s) : s.cache.maxEntries = maxEntries := by
  refine h.invariant (P := fun s => s.cache.maxEntries = maxEntries) (fun positive => rfl)
    fun s s' hc hstep => ?_
  cases hstep with
  | @hit before after call | @miss before after call =>
    refine Eq.trans ?_ hc
    unfold CompletionCache.get
    dsimp only
    split <;> rfl
  | _ => exact hc

/-- A call in front of its store was answered, what the store holds was answered for an equal request,
and so was what a call returned. -/
structure Sourced (s : CacheRun ι K) : Prop where
  storing : ∀ x ∈ s.calls, ∀ response, x.2.response? = some response →
    (x.1, response) ∈ s.log.filterMap Event.reported?
  stored : ∀ entry ∈ s.cache.entries, ∃ y ∈ s.log.filterMap Event.reported?,
    (y.1.request == entry.1) = true ∧ y.2 = entry.2
  returned : ∀ x ∈ s.log.filterMap Event.returned?, ∃ y ∈ s.log.filterMap Event.reported?,
    (y.1.request == x.1.request) = true ∧ x.2.text = y.2.text ∧ x.2.model = y.2.model

/-- What is new has a source; what is old keeps its own. -/
theorem Sourced.extend {s' : CacheRun ι K} (hc : Sourced s)
    (hreported : s.log.filterMap Event.reported? ⊆ s'.log.filterMap Event.reported?)
    (hstoring : ∀ x ∈ s'.calls, ∀ response, x.2.response? = some response →
      x ∈ s.calls ∨ (x.1, response) ∈ s'.log.filterMap Event.reported?)
    (hstored : ∀ entry ∈ s'.cache.entries, entry ∈ s.cache.entries ∨
      ∃ y ∈ s'.log.filterMap Event.reported?, (y.1.request == entry.1) = true ∧ y.2 = entry.2)
    (hreturned : ∀ x ∈ s'.log.filterMap Event.returned?, x ∈ s.log.filterMap Event.returned? ∨
      ∃ y ∈ s'.log.filterMap Event.reported?,
        (y.1.request == x.1.request) = true ∧ x.2.text = y.2.text ∧ x.2.model = y.2.model) :
    Sourced s' where
  storing x hx response hresponse :=
    (hstoring x hx response hresponse).elim (fun h => hreported (hc.storing x h response hresponse)) id
  stored entry hentry := (hstored entry hentry).elim
    (fun h => (hc.stored entry h).imp fun _ hy => ⟨hreported hy.1, hy.2⟩) id
  returned x hx := (hreturned x hx).elim
    (fun h => (hc.returned x h).imp fun _ hy => ⟨hreported hy.1, hy.2⟩) id

theorem CacheReach.sourced [FloatEquality K] (h : CacheReach sampled maxEntries s) : Sourced s := by
  refine h.invariant (P := Sourced) (fun positive => ⟨nofun, nofun, nofun⟩) fun s s' hc hstep => ?_
  -- taking a call out of the list, or moving it where it has no response, adds none
  have hrest : ∀ {before after : List (Call ι K × Progress)} {call progress},
      s.calls = before ++ (call, progress) :: after → ∀ x ∈ before ++ after, x ∈ s.calls := by
    intro before after call progress running x hx
    rw [running, List.mem_append, List.mem_cons]
    exact (List.mem_append.mp hx).imp_right Or.inr
  have hmoved : ∀ {before after : List (Call ι K × Progress)} {call progress progress'},
      s.calls = before ++ (call, progress) :: after → ∀ x ∈ before ++ (call, progress') :: after,
        x ∈ s.calls ∨ x = (call, progress') := by
    intro before after call progress progress' running x hx
    rcases List.mem_append.mp hx with hx | hx
    · exact Or.inl (hrest running x (List.mem_append_left _ hx))
    · exact (List.mem_cons.mp hx).symm.imp_left fun hx => hrest running x (List.mem_append_right _ hx)
  cases hstep with
  | begin client request =>
    refine hc.extend (List.Subset.refl _) (fun x hx response hresponse => ?_)
      (fun entry hentry => Or.inl hentry) fun x hx => Or.inl hx
    rcases List.mem_cons.mp hx with rfl | hx
    · rw [(Call.start_progress sampled _).2.2] at hresponse
      cases hresponse
    · exact Or.inl hx
  | @hit before after call cached running found =>
    obtain ⟨entry, hentry, hequal, rfl⟩ := CompletionCache.exists_of_get found
    obtain ⟨y, hy, hrequest, hresponse⟩ := hc.stored entry hentry
    refine hc.extend (List.Subset.refl _) (fun x hx _ _ => Or.inl (hrest running x hx))
      (fun e he => Or.inl (CompletionCache.mem_of_mem_get he)) fun x hx => ?_
    rcases List.mem_cons.mp hx with rfl | hx
    · refine Or.inr ⟨y, hy, PartialEquivBEq.trans hrequest hequal, ?_, ?_⟩ <;> rw [hresponse] <;> rfl
    · exact Or.inl hx
  | @miss before after call running missing =>
    refine hc.extend (List.Subset.refl _) (fun x hx response hresponse => ?_)
      (fun e he => Or.inl (CompletionCache.mem_of_mem_get he)) fun x hx => Or.inl hx
    rcases hmoved running x hx with hx | rfl
    · exact Or.inl hx
    · cases hresponse
  | @received before after call answer running =>
    refine hc.extend (List.subset_cons_self ..) (fun x hx response hresponse => ?_)
      (fun e he => Or.inl he) fun x hx => Or.inl hx
    rcases hmoved running x hx with hx | rfl
    · exact Or.inl hx
    · cases hresponse
      exact Or.inr (List.mem_cons_self ..)
  | @store before after call response running =>
    have hsource := hc.storing (call, .storing response)
      (running ▸ List.mem_append_right _ (List.mem_cons_self ..)) response rfl
    refine hc.extend (List.Subset.refl _) (fun x hx _ _ => Or.inl (hrest running x hx))
      (fun e he => ?_) fun x hx => ?_
    · refine (CompletionCache.mem_of_mem_put he).imp_right fun hnew => ?_
      refine ⟨_, hsource, ?_, hnew.1.symm⟩
      rcases hnew.2 with heq | heq
      · rw [heq]
        exact BEq.rfl
      · exact PartialEquivBEq.symm heq
    · rcases List.mem_cons.mp hx with rfl | hx
      · exact Or.inr ⟨_, hsource, BEq.rfl, rfl, rfl⟩
      · exact Or.inl hx
  | @passed before after call response running =>
    refine hc.extend (List.subset_cons_self ..) (fun x hx _ _ => Or.inl (hrest running x hx))
      (fun e he => Or.inl he) fun x hx => ?_
    rcases List.mem_cons.mp hx with rfl | hx
    · exact Or.inr ⟨_, List.mem_cons_self .., BEq.rfl, rfl, rfl⟩
    · exact Or.inl hx
  | @fail before after call progress error running inBackend =>
    exact hc.extend (List.Subset.refl _) (fun x hx _ _ => Or.inl (hrest running x hx))
      (fun e he => Or.inl he) fun x hx => Or.inl hx
  | clear =>
    exact hc.extend (List.Subset.refl _) (fun x hx _ _ => Or.inl hx) nofun fun x hx => Or.inl hx

/-- The responses the backend reported to some of the calls, oldest first. -/
def reportedTo (among : Call ι K → Bool) (log : List (Event ι K)) : List CompletionResponse :=
  ((log.filterMap Event.reported?).filter fun x => among x.1).reverse.map (·.2)

/-- The responses some of the calls returned, oldest first. -/
def returnedBy (among : Call ι K → Bool) (log : List (Event ι K)) : List CompletionResponse :=
  ((log.filterMap Event.returned?).filter fun x => among x.1).reverse.map (·.2)

/-- What holds in every state of a shared cache. -/
structure CacheLedger (sampled : ι → Bool) (maxEntries : Nat) (s : CacheRun ι K) : Prop where
  /-- the store never exceeds its limit -/
  bounded : s.cache.entries.length ≤ maxEntries
  /-- each lookup is recorded -/
  recorded : s.cache.hits = (s.log.filterMap Event.looked?).countP (fun x => x.2.isSome) ∧
    s.cache.misses = (s.log.filterMap Event.looked?).countP fun x => x.2.isNone
  /-- a finished call looked once when it was cacheable, and otherwise never -/
  once : ∀ call ∈ s.log.filterMap Event.begun?, (∀ x ∈ s.calls, x.1.id ≠ call.id) →
    (s.log.filterMap Event.looked?).countP (fun x => x.1.id = call.id) =
      if call.cacheable sampled then 1 else 0
  /-- with no call in progress the counters account for the calls and for those of the backend -/
  settled : s.calls = [] → s.cache.hits + s.cache.misses =
      (s.log.filterMap Event.begun?).countP (fun call => call.cacheable sampled) ∧
    (s.log.filterMap Event.answered?).length = s.cache.misses +
      (s.log.filterMap Event.begun?).countP fun call => !call.cacheable sampled
  /-- text and model of a returned response came from the backend, for an equal request -/
  returned : ∀ x ∈ s.log.filterMap Event.returned?, ∃ y ∈ s.log.filterMap Event.reported?,
    (y.1.request == x.1.request) = true ∧ x.2.text = y.2.text ∧ x.2.model = y.2.model
  /-- only responses of the backend are stored, never a failure -/
  stored : ∀ entry ∈ s.cache.entries, ∃ y ∈ s.log.filterMap Event.reported?,
    (y.1.request == entry.1) = true ∧ y.2 = entry.2
  /-- with no call in progress accounting inside the cache and outside of it tally the same tokens -/
  tokens : s.calls = [] → ∀ among : Call ι K → Bool,
    (tallied (reportedTo among s.log)).promptTokens = (tallied (returnedBy among s.log)).promptTokens ∧
      (tallied (reportedTo among s.log)).completionTokens =
        (tallied (returnedBy among s.log)).completionTokens

/-- The sum over some of the calls, as a sum over all of them. -/
theorem sum_filter {α : Type} (p : α → Bool) (w : α → Int) (xs : List α) :
    ((xs.filter p).reverse.map w).sum = (xs.map fun x => if p x then w x else 0).sum := by
  rw [List.map_reverse, List.sum_reverse]
  induction xs with
  | nil => rfl
  | cons x xs ih =>
    rw [List.map_cons, List.sum_cons, ← ih, List.filter_cons]
    split
    · rw [List.map_cons, List.sum_cons]
    · exact (Int.zero_add _).symm

/-- With no call in progress, a kind of tokens that a replay does not have is reported and returned
alike. -/
theorem CacheReach.tokens (h : CacheReach sampled maxEntries s) (hidle : s.calls = [])
    (among : Call ι K → Bool) (tokens : CompletionResponse → Int)
    (hzero : ∀ cached, tokens (CompletionResponse.replayed cached) = 0) :
    ((reportedTo among s.log).map tokens).sum = ((returnedBy among s.log).map tokens).sum := by
  have hbalanced := (tokens_conserved among tokens hzero).balanced h
  rw [hidle, total, total, sum_weigh, sum_weigh] at hbalanced
  have hsum : ∀ xs : List (Call ι K × CompletionResponse),
      (((xs.filter fun x => among x.1).reverse.map (·.2)).map tokens).sum =
        (xs.map fun x => if among x.1 then tokens x.2 else 0).sum := by
    intro xs
    rw [List.map_map]
    exact sum_filter (fun x => among x.1) (fun x => tokens x.2) xs
  rw [reportedTo, returnedBy, hsum, hsum]
  exact hbalanced.trans (Int.add_zero _)

section Accounts

variable (sampled maxEntries s)

/-- For any number of clients that share a cache, in every state of every interleaving, lookups,
backend calls, entries and tokens are accounted for. -/
theorem cache_accounts [FloatEquality K] (h : CacheReach sampled maxEntries s) :
    CacheLedger sampled maxEntries s := by
  have hrecorded := h.recorded
  have hsourced := h.sourced
  have hnodup : ((s.log.filterMap Event.begun?).map (·.id)).Nodup := by
    rw [h.numbered, List.nodup_reverse]
    exact List.nodup_range
  refine ⟨h.limit ▸ s.cache.bounded, hrecorded, fun call hcall hdone => ?_, fun hidle => ?_,
    hsourced.returned, hsourced.stored, fun hidle among => ?_⟩
  · have hbalanced := (lookups_conserved
      fun other : Call ι K => other.id = call.id).balanced h
    have hheld : held (fun (other : Call ι K) (progress : Progress) => if progress.looks then
        indicator (fun other : Call ι K => decide (other.id = call.id)) other else 0) s.calls = 0 := by
      refine List.sum_eq_zero fun x hx => ?_
      obtain ⟨y, hy, rfl⟩ := List.mem_map.mp hx
      simp [indicator, hdone y hy]
    rw [hheld, Int.add_zero, total, total, sum_weigh, sum_weigh, sum_indicator, sum_indicator,
      Nat.cast_inj] at hbalanced
    rw [← hbalanced]
    exact countP_of_nodup hnodup (fun call => call.cacheable sampled) hcall
  · have hlookups := (lookups_conserved fun _ : Call ι K => true).balanced h
    have hanswers := (answers_conserved fun _ : Call ι K => true).balanced h
    have hlength : (s.log.filterMap Event.looked?).length = s.cache.hits + s.cache.misses := by
      rw [hrecorded.1, hrecorded.2, List.length_eq_countP_add_countP (fun x => x.2.isSome)]
      simp only [Bool.not_eq_true, Option.isSome_eq_false_iff, Bool.decide_eq_true]
    rw [hidle, total, total, sum_weigh, sum_weigh, sum_indicator, sum_indicator] at hlookups
    rw [hidle, total, total, List.sum_map_add, sum_weigh, sum_weigh, sum_weigh, sum_indicator,
      sum_indicator, sum_indicator] at hanswers
    simp only [Bool.and_true, List.countP_true, held, List.map_nil, List.sum_nil, Int.add_zero,
      ← hrecorded.2] at hlookups hanswers
    omega
  · rw [tallied_eq, tallied_eq]
    exact ⟨h.tokens hidle among _ fun _ => rfl, h.tokens hidle among _ fun _ => rfl⟩

/-- A request for one token. -/
def smallRequest : CompletionRequest ℚ where
  messages := [⟨lit "user", lit "task", ChatMessage.user_checked⟩]
  temperature := 0
  maxTokens := 1
  nonempty := by simp
  warm := by decide +kernel
  positive := le_rfl

/-- The same for a call that misses, is answered and stores the answer, while another one begins. -/
theorem cache_accounts_small : ∃ s : CacheRun Unit ℚ, CacheReach (fun _ => true) 1 s ∧
    s.cache.entries.length = 1 ∧ s.calls.length = 1 ∧ CacheLedger (fun _ => true) 1 s := by
  let first : Call Unit ℚ := ⟨0, (), smallRequest⟩
  let second : Call Unit ℚ := ⟨1, (), smallRequest⟩
  let answer : CompletionResponse := ⟨lit "done", lit "model", 3, 2⟩
  have hreach : ∃ s : CacheRun Unit ℚ, CacheReach (fun _ => true) 1 s ∧
      s.cache.entries.length = 1 ∧ s.calls.length = 1 := by
    have hsteps : Relation.ReflTransGen (CacheStep fun _ => true) _ _ :=
      .tail (.tail (.tail (.tail (.tail
        (.refl (a := CacheRun.initial (.empty 1 le_rfl))) (.begin _ () smallRequest))
        (@CacheStep.miss _ _ _ _ _ [] [] first rfl rfl))
        (@CacheStep.received _ _ _ _ _ [] [] first answer rfl))
        (.begin _ () smallRequest))
        (@CacheStep.store _ _ _ _ _ [(second, .looking)] [] first answer rfl)
    exact ⟨_, ⟨le_rfl, hsteps⟩, rfl, rfl⟩
  obtain ⟨s, hs, hentries, hcalls⟩ := hreach
  exact ⟨s, hs, hentries, hcalls, cache_accounts _ _ s hs⟩

end Accounts

end CognitiveTree.Llm
