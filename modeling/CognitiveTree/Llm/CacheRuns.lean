import CognitiveTree.Llm.Caching
import Mathlib.Algebra.BigOperators.Group.List.Lemmas
import Mathlib.Logic.Relation

/-!
# Concurrent callers of one cache

Any number of clients share a store. A lookup, the answer of the backend, a store and a clear are
atomic, and the steps of different calls interleave freely. What the calls do is conserved step by
step: each event is matched by another one or by a call in progress.
-/

namespace CognitiveTree.Llm

open Observability

variable {ι K : Type} [PyFloat K]

/-- One call of `complete` on one of the clients. -/
structure Call (ι K : Type) [PyFloat K] where
  id : Nat
  client : ι
  request : CompletionRequest K

/-- Where a call is. -/
inductive Progress where
  /-- before the lookup -/
  | looking
  /-- in the backend, behind a missed lookup -/
  | querying
  /-- in the backend without a lookup -/
  | bypassing
  /-- before the store -/
  | storing (response : CompletionResponse)

namespace Progress

/-- The call did not look yet. -/
def looks : Progress → Bool
  | .looking => true
  | _ => false

/-- The call is in the backend. -/
def asks : Progress → Bool
  | .querying | .bypassing => true
  | _ => false

/-- The response the call is about to store. -/
def response? : Progress → Option CompletionResponse
  | .storing response => some response
  | _ => none

end Progress

/-- What happens in a run of the clients. -/
inductive Event (ι K : Type) [PyFloat K] where
  | begins (call : Call ι K)
  | looked (call : Call ι K) (found : Option CompletionResponse)
  | answered (call : Call ι K) (answer : Except Exc CompletionResponse)
  | stored (call : Call ι K) (response : CompletionResponse)
  | cleared
  | returned (call : Call ι K) (response : CompletionResponse)
  | raised (call : Call ι K) (error : Exc)

/-- The store, the calls in progress, the number of calls so far and what happened, newest
first. -/
structure CacheRun (ι K : Type) [PyFloat K] where
  cache : CompletionCache K
  calls : List (Call ι K × Progress)
  begun : Nat
  log : List (Event ι K)

/-- Before the first call. -/
def CacheRun.initial (cache : CompletionCache K) : CacheRun ι K := ⟨cache, [], 0, []⟩

section Steps

variable (sampled : ι → Bool)

/-- The client of the call asks the cache. -/
def Call.cacheable (call : Call ι K) : Bool := Llm.cacheable (sampled call.client) call.request

/-- Where a call goes first. -/
def Call.start (call : Call ι K) : Progress :=
  if call.cacheable sampled then .looking else .bypassing

/-- A call looks first when its client asks the cache, and goes to the backend otherwise. -/
theorem Call.start_progress (call : Call ι K) :
    (call.start sampled).looks = call.cacheable sampled ∧
      (call.start sampled).asks = !call.cacheable sampled ∧
      (call.start sampled).response? = none := by
  unfold start
  cases call.cacheable sampled <;> exact ⟨rfl, rfl, rfl⟩

/-- One atomic step of one of the callers. -/
inductive CacheStep : CacheRun ι K → CacheRun ι K → Prop
  | begin (s : CacheRun ι K) (client : ι) (request : CompletionRequest K) :
      CacheStep s { s with
        calls := (⟨s.begun, client, request⟩, Call.start sampled ⟨s.begun, client, request⟩) :: s.calls
        begun := s.begun + 1
        log := .begins ⟨s.begun, client, request⟩ :: s.log }
  | hit {s : CacheRun ι K} {before after} {call : Call ι K} {cached : CompletionResponse}
      (running : s.calls = before ++ (call, .looking) :: after)
      (found : (s.cache.get call.request).1 = some cached) :
      CacheStep s { s with
        cache := (s.cache.get call.request).2
        calls := before ++ after
        log := .returned call cached.replayed :: .looked call (some cached) :: s.log }
  | miss {s : CacheRun ι K} {before after} {call : Call ι K}
      (running : s.calls = before ++ (call, .looking) :: after)
      (missing : (s.cache.get call.request).1 = none) :
      CacheStep s { s with
        cache := (s.cache.get call.request).2
        calls := before ++ (call, .querying) :: after
        log := .looked call none :: s.log }
  | received {s : CacheRun ι K} {before after} {call : Call ι K} (response : CompletionResponse)
      (running : s.calls = before ++ (call, .querying) :: after) :
      CacheStep s { s with
        calls := before ++ (call, .storing response) :: after
        log := .answered call (.ok response) :: s.log }
  | store {s : CacheRun ι K} {before after} {call : Call ι K} {response : CompletionResponse}
      (running : s.calls = before ++ (call, .storing response) :: after) :
      CacheStep s { s with
        cache := s.cache.put call.request response
        calls := before ++ after
        log := .returned call response :: .stored call response :: s.log }
  | passed {s : CacheRun ι K} {before after} {call : Call ι K} (response : CompletionResponse)
      (running : s.calls = before ++ (call, .bypassing) :: after) :
      CacheStep s { s with
        calls := before ++ after
        log := .returned call response :: .answered call (.ok response) :: s.log }
  | fail {s : CacheRun ι K} {before after} {call : Call ι K} {progress : Progress} (error : Exc)
      (running : s.calls = before ++ (call, progress) :: after)
      (inBackend : progress.asks = true) :
      CacheStep s { s with
        calls := before ++ after
        log := .raised call error :: .answered call (.error error) :: s.log }
  | clear (s : CacheRun ι K) :
      CacheStep s { s with cache := s.cache.clear, log := .cleared :: s.log }

/-- A state some interleaving leads to from a new store. -/
def CacheReach (maxEntries : Nat) (s : CacheRun ι K) : Prop :=
  ∃ positive : 1 ≤ maxEntries,
    Relation.ReflTransGen (CacheStep sampled) (.initial (.empty maxEntries positive)) s

end Steps

variable {sampled : ι → Bool}

/-- What holds at first and is kept by every step holds in every reachable state. -/
theorem CacheReach.invariant {maxEntries : Nat} {P : CacheRun ι K → Prop}
    (hinit : ∀ positive, P (.initial (.empty maxEntries positive)))
    (hstep : ∀ s s', P s → CacheStep sampled s s' → P s') {s : CacheRun ι K}
    (h : CacheReach sampled maxEntries s) : P s := by
  obtain ⟨positive, hs⟩ := h
  induction hs with
  | refl => exact hinit positive
  | tail _ hlast ih => exact hstep _ _ ih hlast

section Conservation

/-- The sum of a weight over the events of a log. -/
def total (a : Event ι K → Int) (log : List (Event ι K)) : Int := (log.map a).sum

/-- The first event adds its own amount. -/
@[simp] theorem total_cons (a : Event ι K → Int) (e : Event ι K) (log : List (Event ι K)) :
    total a (e :: log) = a e + total a log := List.sum_cons

/-- What is held by the calls in progress. -/
def held (g : Call ι K → Progress → Int) (calls : List (Call ι K × Progress)) : Int :=
  (calls.map fun x => g x.1 x.2).sum

/-- A call in the middle holds its own amount. -/
theorem held_split (g : Call ι K → Progress → Int) (before after : List (Call ι K × Progress))
    (call : Call ι K) (progress : Progress) : held g (before ++ (call, progress) :: after) =
      held g (before ++ after) + g call progress := by
  simp only [held, List.map_append, List.map_cons, List.sum_append, List.sum_cons]
  omega

/-- Two weights on events agree up to what the calls in progress hold: each step changes both sides
by the same amount. -/
structure Conserved (sampled : ι → Bool) (a b : Event ι K → Int) (g : Call ι K → Progress → Int) :
    Prop where
  begins : ∀ call : Call ι K, a (.begins call) = b (.begins call) + g call (call.start sampled)
  hit : ∀ call cached, a (.returned call (CompletionResponse.replayed cached)) +
    a (.looked call (some cached)) + g call .looking =
      b (.returned call cached.replayed) + b (.looked call (some cached))
  miss : ∀ call, a (.looked call none) + g call .looking =
    b (.looked call none) + g call .querying
  received : ∀ call response, a (.answered call (.ok response)) + g call .querying =
    b (.answered call (.ok response)) + g call (.storing response)
  store : ∀ call response, a (.returned call response) + a (.stored call response) +
    g call (.storing response) = b (.returned call response) + b (.stored call response)
  passed : ∀ call response, a (.returned call response) + a (.answered call (.ok response)) +
    g call .bypassing = b (.returned call response) + b (.answered call (.ok response))
  fail : ∀ call error (progress : Progress), progress.asks = true →
    a (.raised call error) + a (.answered call (.error error)) + g call progress =
      b (.raised call error) + b (.answered call (.error error))
  clear : a .cleared = b .cleared

/-- Conserved weights are balanced in every reachable state. -/
theorem Conserved.balanced {a b : Event ι K → Int} {g : Call ι K → Progress → Int}
    (h : Conserved sampled a b g) {maxEntries : Nat} {s : CacheRun ι K}
    (hs : CacheReach sampled maxEntries s) : total a s.log = total b s.log + held g s.calls := by
  refine hs.invariant (P := fun s => total a s.log = total b s.log + held g s.calls)
    (fun positive => rfl) fun s s' hc hstep => ?_
  cases hstep with
  | begin client request =>
    have hlocal := h.begins ⟨s.begun, client, request⟩
    simp only [total_cons, held, List.map_cons, List.sum_cons] at hc ⊢
    omega
  | @hit before after call cached running found =>
    have hlocal := h.hit call cached
    rw [running, held_split] at hc
    simp only [total_cons] at hc ⊢
    omega
  | @miss before after call running missing =>
    have hlocal := h.miss call
    rw [running, held_split] at hc
    simp only [total_cons, held_split] at hc ⊢
    omega
  | @received before after call response running =>
    have hlocal := h.received call response
    rw [running, held_split] at hc
    simp only [total_cons, held_split] at hc ⊢
    omega
  | @store before after call response running =>
    have hlocal := h.store call response
    rw [running, held_split] at hc
    simp only [total_cons] at hc ⊢
    omega
  | @passed before after call response running =>
    have hlocal := h.passed call response
    rw [running, held_split] at hc
    simp only [total_cons] at hc ⊢
    omega
  | @fail before after call progress error running inBackend =>
    have hlocal := h.fail call error progress inBackend
    rw [running, held_split] at hc
    simp only [total_cons] at hc ⊢
    omega
  | clear =>
    have hlocal := h.clear
    simp only [total_cons] at hc ⊢
    omega

end Conservation

namespace Event

/-- The call that began. -/
def begun? : Event ι K → Option (Call ι K)
  | .begins call => some call
  | _ => none

/-- The call whose lookup was recorded, and what it found. -/
def looked? : Event ι K → Option (Call ι K × Option CompletionResponse)
  | .looked call found => some (call, found)
  | _ => none

/-- The call the backend answered, and its answer. -/
def answered? : Event ι K → Option (Call ι K × Except Exc CompletionResponse)
  | .answered call answer => some (call, answer)
  | _ => none

/-- The call that returned, and what it returned. -/
def returned? : Event ι K → Option (Call ι K × CompletionResponse)
  | .returned call response => some (call, response)
  | _ => none

/-- The call whose answer reported tokens, and the answer. -/
def reported? : Event ι K → Option (Call ι K × CompletionResponse)
  | .answered call (.ok response) => some (call, response)
  | _ => none

end Event

section Weights

variable {α β : Type}

/-- One for what has a property. -/
def indicator (p : α → Bool) (x : α) : Int := if p x then 1 else 0

/-- Counting is summing ones. -/
theorem sum_indicator (p : α → Bool) (xs : List α) : (xs.map (indicator p)).sum = xs.countP p := by
  induction xs with
  | nil => rfl
  | cons x xs ih =>
    rw [List.map_cons, List.sum_cons, ih, List.countP_cons, indicator]
    cases p x
    · exact Int.zero_add _
    · exact Int.add_comm 1 _

/-- The weight of the events that a projection selects. -/
def weigh (select : α → Option β) (w : β → Int) (x : α) : Int := ((select x).map w).getD 0

/-- Selected weights are summed. -/
theorem sum_weigh (select : α → Option β) (w : β → Int) (xs : List α) :
    (xs.map (weigh select w)).sum = ((xs.filterMap select).map w).sum := by
  induction xs with
  | nil => rfl
  | cons x xs ih =>
    rw [List.map_cons, List.sum_cons, ih, weigh]
    cases h : select x with
    | none =>
      rw [List.filterMap_cons_none h]
      exact Int.zero_add _
    | some y =>
      rw [List.filterMap_cons_some h, List.map_cons, List.sum_cons]
      rfl

end Weights

/-- A cacheable call that did not look yet holds one lookup. -/
theorem lookups_conserved (p : Call ι K → Bool) : Conserved sampled
    (weigh Event.begun? (indicator fun call => call.cacheable sampled && p call))
    (weigh Event.looked? (indicator fun x => p x.1))
    fun call progress => if progress.looks then indicator p call else 0 where
  begins call := by
    rw [(Call.start_progress sampled call).1]
    cases h : call.cacheable sampled <;> simp [weigh, Event.begun?, Event.looked?, indicator, h]
  hit call cached := by simp [weigh, Event.begun?, Event.looked?, Progress.looks, indicator]
  miss call := by simp [weigh, Event.begun?, Event.looked?, Progress.looks, indicator]
  received call response := rfl
  store call response := rfl
  passed call response := rfl
  fail call error progress h := by cases progress <;> first | rfl | cases h
  clear := rfl

/-- A call in the backend holds its missed lookup, or its begin when it had none. -/
theorem answers_conserved (p : Call ι K → Bool) : Conserved sampled
    (fun e => weigh Event.looked? (indicator fun x => x.2.isNone && p x.1) e +
      weigh Event.begun? (indicator fun call => !call.cacheable sampled && p call) e)
    (weigh Event.answered? (indicator fun x => p x.1))
    fun call progress => if progress.asks then indicator p call else 0 where
  begins call := by
    rw [(Call.start_progress sampled call).2.1]
    cases h : call.cacheable sampled <;>
      simp [weigh, Event.begun?, Event.looked?, Event.answered?, indicator, h]
  hit call cached := by simp [weigh, Event.begun?, Event.looked?, Event.answered?, Progress.asks, indicator]
  miss call := by simp [weigh, Event.begun?, Event.looked?, Event.answered?, Progress.asks, indicator]
  received call response := by
    simp [weigh, Event.begun?, Event.looked?, Event.answered?, Progress.asks, indicator]
  store call response := rfl
  passed call response := by
    simp [weigh, Event.begun?, Event.looked?, Event.answered?, Progress.asks, indicator]
  fail call error progress h := by
    simp [weigh, Event.begun?, Event.looked?, Event.answered?, indicator, h]
  clear := rfl

/-- A call before its store holds the tokens of its response; a replayed one has none. -/
theorem tokens_conserved (p : Call ι K → Bool) (tokens : CompletionResponse → Int)
    (hzero : ∀ cached, tokens (CompletionResponse.replayed cached) = 0) : Conserved sampled
    (weigh Event.reported? fun x => if p x.1 then tokens x.2 else 0)
    (weigh Event.returned? fun x => if p x.1 then tokens x.2 else 0)
    fun call progress => ((progress.response?).map fun response =>
      if p call then tokens response else 0).getD 0 where
  begins call := by
    rw [(Call.start_progress sampled call).2.2]
    rfl
  hit call cached := by simp [weigh, Event.reported?, Event.returned?, Progress.response?, hzero]
  miss call := rfl
  received call response := by
    simp [weigh, Event.reported?, Event.returned?, Progress.response?]
  store call response := by simp [weigh, Event.reported?, Event.returned?, Progress.response?]
  passed call response := by simp [weigh, Event.reported?, Event.returned?, Progress.response?]
  fail call error progress h := by cases progress <;> first | rfl | cases h
  clear := rfl

end CognitiveTree.Llm
