import CognitiveTree.Core.EventStream
import CognitiveTree.Persistence.Serialization
import CognitiveTree.Search.JsonCompact

/-!
# Envelopes and their frames

Four envelopes cover a run. Each is framed as one message of an event stream, with its type as the
name and its compact JSON text as the data.
-/

namespace CognitiveTree.Ui

open Search Observability Persistence Feedback Llm Json

section Envelopes

variable {K : Type} [PyFloat K]

/-- `phase_envelope(event)` at a time. -/
def phaseEnvelope (event : SearchEvent) (ts : K) : PyVal K :=
  .dict [(lit "type", .str (lit "phase")), (lit "iteration", .int event.iteration),
    (lit "phase", .str event.phase.value), (lit "node_id", optional .str event.nodeId),
    (lit "detail", .str event.detail), (lit "ts", .float ts)]

/-- `snapshot_envelope(tree)`; node metadata stay out of it. -/
def snapshotEnvelope (ids : Nat → Str) (a : Arena K) (ts : K) : Except Exc (PyVal K) := do
  let tree ← treeToDict ids (fun _ => []) false a
  pure (.dict [(lit "type", .str (lit "snapshot")), (lit "tree", tree), (lit "ts", .float ts)])

/-- `result_envelope(result)`. -/
def resultEnvelope (ids : Nat → Str) (result : SearchResult K) (ts : K) : PyVal K :=
  .dict [(lit "type", .str (lit "result")), (lit "outcome", .str result.outcome.value),
    (lit "iterations", .int result.iterations), (lit "node_count", .int result.nodeCount),
    (lit "solution", optional .str result.solution), (lit "error", .str result.error),
    (lit "best_path", .list (result.bestPath.map fun n => .str (ids n))), (lit "ts", .float ts)]

/-- `metrics_envelope(metrics)`. -/
def metricsEnvelope (metrics : Dict Str (PyVal K)) (ts : K) : PyVal K :=
  .dict [(lit "type", .str (lit "metrics")), (lit "metrics", .dict metrics), (lit "ts", .float ts)]

/-- The envelopes of each type. -/
inductive IsEnvelope : Str → PyVal K → Prop
  | phase (event : SearchEvent) (ts : K) : IsEnvelope (lit "phase") (phaseEnvelope event ts)
  | snapshot {ids : Nat → Str} {a : Arena K} {ts : K} {envelope : PyVal K} :
      snapshotEnvelope ids a ts = .ok envelope → IsEnvelope (lit "snapshot") envelope
  | result (ids : Nat → Str) (r : SearchResult K) (ts : K) :
      IsEnvelope (lit "result") (resultEnvelope ids r ts)
  | metrics (items : Dict Str (PyVal K)) (ts : K) :
      IsEnvelope (lit "metrics") (metricsEnvelope items ts)

/-- Every tree has its snapshot. -/
theorem snapshotEnvelope_ok (ids : Nat → Str) (a : Arena K) (ts : K) :
    ∃ envelope, snapshotEnvelope ids a ts = .ok envelope := by
  rw [snapshotEnvelope, treeToDict, toDict_eq a.linked.nonempty]
  exact ⟨_, rfl⟩

/-- `envelope["type"]`. -/
theorem IsEnvelope.type {name : Str} {envelope : PyVal K} (h : IsEnvelope name envelope) :
    subscriptKey envelope (lit "type") = .ok (.str name) := by
  cases h with
  | snapshot h =>
    obtain ⟨tree, -, hpure⟩ := exists_of_bind_eq_ok h
    cases hpure
    rfl
  | _ => rfl

/-- The types are names on one line. -/
theorem IsEnvelope.name {name : Str} {envelope : PyVal K} (h : IsEnvelope name envelope) :
    name ≠ [] ∧ EventStream.OneLine name ∧ Utf8.Clean name := by
  cases h <;>
    exact ⟨List.cons_ne_nil _ _, EventStream.oneLine_lit (by decide), Utf8.clean_lit _⟩

end Envelopes

section Frames

variable {K : Type} [PyDecimal K] (limits : Limits) (text : PyVal K → Str)

/-- `format_sse(envelope)`. -/
def formatSse (envelope : PyVal K) : Except Exc Bytes := do
  let payload ← dumpsCompact limits envelope
  let type ← subscriptKey envelope (lit "type")
  match Utf8.encode (lit "event: " ++ formatted text type ++ lit "\ndata: " ++ payload ++
      lit "\n\n") with
  | some frame => .ok frame
  | none => .error ⟨lit "UnicodeEncodeError", lit "surrogates not allowed"⟩

end Frames

section RoundTrip

variable {K : Type} [PyFloat K] [PyDecimal K] [FloatText K] {limits : Limits} {text : PyVal K → Str}

/-- An envelope that goes over the wire as it is: values of JSON, without surrogates. -/
structure Sendable (name : Str) (envelope : PyVal K) : Prop where
  isEnvelope : IsEnvelope name envelope
  portable : envelope.Portable
  clean : envelope.Clean

/-- Printable text is on one line. -/
theorem oneLine_of_printable {s : Str} (h : Printable s) : EventStream.OneLine s := by
  intro c hc
  have hlow := (h c hc).1
  constructor
  · rintro rfl
    exact absurd hlow (by decide)
  · rintro rfl
    exact absurd hlow (by decide)

/-- The text of a frame, before its encoding, is a message. -/
theorem frameText_eq (name payload : Str) :
    lit "event: " ++ name ++ lit "\ndata: " ++ payload ++ lit "\n\n" =
      EventStream.message name payload := by
  have hdata : lit "\ndata: " = [EventStream.lineFeed] ++ lit "data: " := rfl
  have hend : lit "\n\n" = [EventStream.lineFeed, EventStream.lineFeed] := rfl
  simp [EventStream.message, hdata, hend]

/-- The frame of an envelope is the message of its type and its text. -/
theorem Sendable.formatSse_eq {name : Str} {envelope : PyVal K} (h : Sendable name envelope)
    {payload : Str} (hpayload : dumpsCompact limits envelope = .ok payload) :
    ∃ frame, formatSse limits text envelope = .ok frame ∧
      Utf8.encode (EventStream.message name payload) = some frame := by
  have hprintable := printable_compact 0 envelope hpayload h.portable h.clean
  have hclean : Utf8.Clean (EventStream.message name payload) := by
    have hfeed : Utf8.isSurrogate EventStream.lineFeed = false := by decide
    simp only [EventStream.message, Utf8.clean_append, Utf8.clean_cons, Utf8.clean_nil, hfeed,
      Utf8.clean_lit, true_and, and_true]
    exact ⟨h.isEnvelope.name.2.2, fun c hc => (hprintable c hc).2⟩
  obtain ⟨frame, hframe⟩ := Option.isSome_iff_exists.mp (Utf8.encode_isSome_iff.mpr hclean)
  refine ⟨frame, ?_, hframe⟩
  rw [formatSse, hpayload, h.isEnvelope.type]
  change (match Utf8.encode (lit "event: " ++ name ++ lit "\ndata: " ++ payload ++ lit "\n\n") with
    | some frame => Except.ok frame
    | none => _) = _
  rw [frameText_eq, hframe]

/-- A frame is written exactly for the envelopes that have a text within the limits. -/
theorem Sendable.formatSse_ok_iff {name : Str} {envelope : PyVal K} (h : Sendable name envelope) :
    (∃ frame, formatSse limits text envelope = .ok frame) ↔ envelope.Shaped limits 0 := by
  rw [← compact_ok_iff]
  constructor
  · rintro ⟨frame, hframe⟩
    obtain ⟨payload, hpayload, -⟩ := exists_of_bind_eq_ok hframe
    exact ⟨payload, hpayload⟩
  · rintro ⟨payload, hpayload⟩
    obtain ⟨frame, hframe, -⟩ := @Sendable.formatSse_eq K _ _ _ limits text _ _ h _ hpayload
    exact ⟨frame, hframe⟩

/-- A message on its lines that says which envelope it is. -/
structure Carries (e : Str × PyVal K) (m : Str × Str) : Prop where
  name_eq : m.1 = e.1
  name : m.1 ≠ [] ∧ EventStream.OneLine m.1
  data : EventStream.OneLine m.2
  loads : loads (pyHooks K) .unlimited m.2 = .ok e.2

/-- The frames of a sequence of envelopes are messages that carry them. -/
theorem exists_messages {sent : List (Str × PyVal K)} {frames : List Bytes}
    (hsent : ∀ e ∈ sent, Sendable e.1 e.2)
    (hframes : List.Forall₂ (fun e frame => formatSse limits text e.2 = .ok frame) sent frames) :
    ∃ messages, List.Forall₂ Carries sent messages ∧
      Utf8.encode (messages.flatMap fun m => EventStream.message m.1 m.2) = some frames.flatten := by
  induction hframes with
  | nil => exact ⟨[], .nil, rfl⟩
  | @cons e frame sent frames hframe _ ih =>
    rw [List.forall_mem_cons] at hsent
    obtain ⟨messages, hmessages, hrest⟩ := ih hsent.2
    obtain ⟨payload, hpayload, -⟩ := exists_of_bind_eq_ok hframe
    obtain ⟨frame', hframe', hencode⟩ :=
      @Sendable.formatSse_eq K _ _ _ limits text _ _ hsent.1 _ hpayload
    cases hframe.symm.trans hframe'
    have hprintable := printable_compact 0 e.2 hpayload hsent.1.portable hsent.1.clean
    obtain ⟨hne, hline, -⟩ := hsent.1.isEnvelope.name
    refine ⟨(e.1, payload) :: messages, .cons ⟨rfl, ⟨hne, hline⟩, oneLine_of_printable hprintable,
      loads_compact hpayload hsent.1.portable⟩ hmessages, ?_⟩
    rw [List.flatMap_cons, List.flatten_cons]
    exact Utf8.encode_append hencode hrest

/-- The round trip of the event stream. Every sequence of envelopes is framed, unless a text goes
beyond the limits of the interpreter; and of the concatenated frames a client reads one event for
each envelope, in order, with its type as the name and with data that are decoded to it. -/
theorem sse_round_trip (limits : Limits) (text : PyVal K → Str) {sent : List (Str × PyVal K)}
    (hsent : ∀ e ∈ sent, Sendable e.1 e.2) :
    (∀ e ∈ sent, e.2.Shaped .unlimited 0) ∧
    ((∃ frames, List.Forall₂ (fun e frame => formatSse limits text e.2 = .ok frame) sent frames) ↔
      ∀ e ∈ sent, e.2.Shaped limits 0) ∧
    ∀ frames, List.Forall₂ (fun e frame => formatSse limits text e.2 = .ok frame) sent frames →
      List.Forall₂ (fun e event => event.name = e.1 ∧
        loads (pyHooks K) .unlimited event.data = .ok e.2) sent
          (EventStream.events frames.flatten) := by
  refine ⟨fun e he => shaped_unlimited 0 e.2 (hsent e he).portable, ?_, ?_⟩
  · constructor
    · rintro ⟨frames, hframes⟩ e he
      obtain ⟨frame, -, hframe⟩ := exists_of_forall₂_left hframes he
      exact (hsent e he).formatSse_ok_iff.mp ⟨frame, hframe⟩
    · intro hshaped
      induction sent with
      | nil => exact ⟨[], .nil⟩
      | cons e sent ih =>
        rw [List.forall_mem_cons] at hsent hshaped
        obtain ⟨frame, hframe⟩ := hsent.1.formatSse_ok_iff.mpr hshaped.1
        obtain ⟨frames, hframes⟩ := ih hsent.2 hshaped.2
        exact ⟨frame :: frames, .cons hframe hframes⟩
  · intro frames hframes
    obtain ⟨messages, hmessages, hencode⟩ := exists_messages hsent hframes
    have hlines : ∀ m ∈ messages,
        m.1 ≠ [] ∧ EventStream.OneLine m.1 ∧ EventStream.OneLine m.2 := by
      intro m hm
      obtain ⟨e, -, hcarries⟩ := exists_of_forall₂_right hmessages hm
      exact ⟨hcarries.name.1, hcarries.name.2, hcarries.data⟩
    rw [EventStream.events_messages hlines hencode, List.forall₂_map_right_iff]
    exact hmessages.imp fun e m hcarries => ⟨hcarries.name_eq, hcarries.loads⟩

end RoundTrip

/-- A float that is a whole number. -/
structure WholeFloat where
  value : Int

namespace WholeFloat

instance : PyFloat WholeFloat where
  zero := ⟨0⟩
  one := ⟨1⟩
  inf := ⟨10 ^ 16⟩
  ofNat n := ⟨n⟩
  add a b := ⟨a.value + b.value⟩
  mul a b := ⟨a.value * b.value⟩
  div a b := ⟨a.value / b.value⟩
  log x := x
  sqrt x := x
  lt a b := decide (a.value < b.value)
  le a b := decide (a.value ≤ b.value)
  eq a b := decide (a.value = b.value)
  round x _ := x
  fixed3 x := Str.ofInt x.value ++ lit ".000"
  general x := Str.ofInt x.value

instance : PyDecimal WholeFloat where
  decimal text := ⟨((scanNumber text).map fun p => (⟨p.1.integer, [], []⟩ : Numeral).toInt).getD 0⟩
  nan := ⟨0⟩
  negativeInfinity := ⟨-10 ^ 16⟩
  repr x := Str.ofInt x.value ++ lit ".0"

instance : FloatText WholeFloat where
  repr_finite x _ := by
    have hvalid : Numeral.Valid ⟨Str.ofInt x.value, lit ".0", []⟩ :=
      ⟨(valid_intNumeral x.value).integer, .inr ⟨lit "0", by decide, by decide, rfl⟩, .inl rfl⟩
    have hscan := scanNumber_of_valid hvalid (show Stops [] from rfl)
    refine ⟨_, hvalid, rfl, by simp [PyDecimal.repr, Numeral.text], ?_⟩
    rw [List.append_nil] at hscan
    simp only [PyDecimal.decimal, hscan]
    exact congrArg WholeFloat.mk (toInt_intNumeral x.value)

end WholeFloat

/-- The detail of an event may say anything, also what a frame looks like. -/
theorem sse_round_trip_injection :
    let sent : List (Str × PyVal WholeFloat) :=
      [(lit "phase", phaseEnvelope ⟨3, .failed, none, lit "a\n\ndata: \"b\"\r"⟩ ⟨1700000000⟩),
        (lit "metrics", metricsEnvelope [(lit "nodes", .int 4)] ⟨1700000001⟩)]
    ∀ frames, List.Forall₂ (fun e frame => formatSse .unlimited (fun _ => []) e.2 = .ok frame)
      sent frames → List.Forall₂ (fun e event => event.name = e.1 ∧
        loads (pyHooks WholeFloat) .unlimited event.data = .ok e.2) sent
          (EventStream.events frames.flatten) := by
  intro sent
  refine (sse_round_trip .unlimited (fun _ => []) ?_).2.2
  rw [List.forall_mem_cons, List.forall_mem_singleton]
  refine ⟨⟨.phase _ _, ?_, ?_⟩, ⟨.metrics _ _, ?_, ?_⟩⟩
  · refine ⟨by decide, trivial, trivial, trivial, trivial, trivial, ?_, trivial⟩
    exact (by decide : isFinite (⟨1700000000⟩ : WholeFloat) = true)
  · simp only [phaseEnvelope, PyVal.Clean, PyVal.CleanItems, Utf8.clean_lit, true_and, and_true]
    exact ⟨Utf8.clean_lit _, trivial⟩
  · refine ⟨by decide, trivial, ⟨by decide, trivial, trivial⟩, ?_, trivial⟩
    exact (by decide : isFinite (⟨1700000001⟩ : WholeFloat) = true)
  · simp only [metricsEnvelope, PyVal.Clean, PyVal.CleanItems, Utf8.clean_lit, true_and]

end CognitiveTree.Ui
