import CognitiveTree.Core.Utf8

/-!
# Event streams

The line grammar of `text/event-stream`, as a client reads it. A line ends at a line feed, at a
carriage return, or at both together; a blank line dispatches the event that was collected, and an
event without data is dropped. The fields `id` and `retry` change neither the name nor the data of
an event.
-/

namespace CognitiveTree.EventStream

def lineFeed : CodePoint := 10
def carriageReturn : CodePoint := 13
def colon : CodePoint := 58
def space : CodePoint := 32

/-- The lines that end in a text, behind the characters of an unfinished line, last first. A line
feed directly behind a carriage return ends no other line. -/
def linesFrom (returned : Bool) (line : Str) : Str → List Str
  | [] => []
  | c :: s =>
    if c = lineFeed then
      if returned then linesFrom false [] s else line.reverse :: linesFrom false [] s
    else if c = carriageReturn then line.reverse :: linesFrom true [] s
    else linesFrom false (c :: line) s

/-- A dispatched event. -/
structure Event where
  name : Str
  data : Str
  deriving DecidableEq

/-- What was collected for the next event. -/
structure Buffers where
  name : Str
  data : Str

/-- Nothing was collected yet. -/
def Buffers.empty : Buffers := ⟨[], []⟩

/-- The value of a field: what is behind the colon, without one leading space. -/
def fieldValue (line : Str) : Str :=
  let rest := (line.dropWhile fun c => c ≠ colon).tail
  if rest.head? = some space then rest.tail else rest

/-- One line that is not blank. -/
def Buffers.collect (b : Buffers) (line : Str) : Buffers :=
  let field := line.takeWhile fun c => c ≠ colon
  if field = lit "event" then { b with name := fieldValue line }
  else if field = lit "data" then { b with data := b.data ++ fieldValue line ++ [lineFeed] }
  else b

/-- The event of a blank line: its data lose their last line feed. -/
def Buffers.dispatch (b : Buffers) : List Event :=
  if b.data = [] then []
  else [⟨if b.name = [] then lit "message" else b.name, b.data.dropLast⟩]

/-- The events of the lines of a stream. -/
def eventsFrom (b : Buffers) : List Str → List Event
  | [] => []
  | line :: lines =>
    if line = [] then b.dispatch ++ eventsFrom .empty lines else eventsFrom (b.collect line) lines

/-- The events of a stream of bytes, decoded as UTF-8 without its byte order mark. -/
def events (bytes : Bytes) : List Event :=
  let text := Utf8.decodeReplace bytes
  let text := if text.head? = some 0xfeff then text.tail else text
  eventsFrom .empty (linesFrom false [] text)

/-- The text has no character at which a line ends. -/
def OneLine (s : Str) : Prop := ∀ c ∈ s, c ≠ lineFeed ∧ c ≠ carriageReturn

theorem oneLine_nil : OneLine [] := fun _ h => by cases h

@[simp] theorem oneLine_append {s t : Str} : OneLine (s ++ t) ↔ OneLine s ∧ OneLine t :=
  List.forall_mem_append

/-- A text on one line, with its line feed, is a line of the stream. -/
theorem linesFrom_line {s : Str} (h : OneLine s) (line rest : Str) :
    linesFrom false line (s ++ lineFeed :: rest) =
      (line.reverse ++ s) :: linesFrom false [] rest := by
  induction s generalizing line with
  | nil => simp [linesFrom]
  | cons c s ih =>
    obtain ⟨⟨hfeed, hreturn⟩, hs⟩ := List.forall_mem_cons.mp h
    rw [List.cons_append, linesFrom, if_neg hfeed, if_neg hreturn, ih hs]
    simp

/-- A message with one data line. -/
def message (name data : Str) : Str :=
  lit "event: " ++ name ++ [lineFeed] ++ (lit "data: " ++ data) ++ [lineFeed, lineFeed]

theorem collect_event (b : Buffers) (name : Str) :
    b.collect (lit "event: " ++ name) = { b with name := name } := rfl

theorem collect_data (b : Buffers) (data : Str) :
    b.collect (lit "data: " ++ data) = { b with data := b.data ++ data ++ [lineFeed] } := rfl

theorem oneLine_lit {s : String}
    (h : ((lit s).all fun c => c ≠ lineFeed && c ≠ carriageReturn) = true) : OneLine (lit s) := by
  simpa [OneLine] using h

/-- A message is one event, and the stream goes on behind it as it began. -/
theorem eventsFrom_message {name data : Str} (hne : name ≠ []) (hname : OneLine name)
    (hdata : OneLine data) (rest : Str) :
    eventsFrom .empty (linesFrom false [] (message name data ++ rest)) =
      ⟨name, data⟩ :: eventsFrom .empty (linesFrom false [] rest) := by
  have hevent : OneLine (lit "event: " ++ name) :=
    oneLine_append.mpr ⟨oneLine_lit (by decide), hname⟩
  have hline : OneLine (lit "data: " ++ data) :=
    oneLine_append.mpr ⟨oneLine_lit (by decide), hdata⟩
  have htext : message name data ++ rest = lit "event: " ++ name ++
      lineFeed :: (lit "data: " ++ data ++ lineFeed :: ([] ++ lineFeed :: rest)) := by
    simp [message]
  have hblank : ∀ s : Str, lit "event: " ++ s ≠ [] ∧ lit "data: " ++ s ≠ [] :=
    fun s => ⟨List.cons_ne_nil _ _, List.cons_ne_nil _ _⟩
  rw [htext, linesFrom_line hevent, linesFrom_line hline, linesFrom_line oneLine_nil]
  simp only [List.reverse_nil, List.nil_append]
  rw [eventsFrom, if_neg (hblank name).1, eventsFrom, if_neg (hblank data).2, eventsFrom, if_pos rfl,
    collect_event, collect_data]
  simp [Buffers.dispatch, Buffers.empty, hne]

/-- A sequence of messages is the sequence of their events. -/
theorem events_messages {messages : List (Str × Str)}
    (h : ∀ m ∈ messages, m.1 ≠ [] ∧ OneLine m.1 ∧ OneLine m.2) {bytes : Bytes}
    (hbytes : Utf8.encode (messages.flatMap fun m => message m.1 m.2) = some bytes) :
    events bytes = messages.map fun m => ⟨m.1, m.2⟩ := by
  have hmark : (messages.flatMap fun m => message m.1 m.2).head? ≠ some 0xfeff := by
    cases messages with
    | nil => exact fun he => nomatch he
    | cons m messages =>
      rw [List.flatMap_cons]
      change some 101 ≠ _
      decide
  rw [events, Utf8.decodeReplace_encode hbytes, if_neg hmark]
  clear hmark hbytes
  induction messages with
  | nil => rfl
  | cons m messages ih =>
    rw [List.forall_mem_cons] at h
    rw [List.flatMap_cons, eventsFrom_message h.1.1 h.1.2.1 h.1.2.2, ih h.2, List.map_cons]

end CognitiveTree.EventStream
