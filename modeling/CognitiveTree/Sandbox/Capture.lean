import CognitiveTree.Core.Utf8

/-!
# Captured output

A reader drains one stream of a child chunk by chunk and keeps its first bytes, four for each
character of the limit. What it kept decodes to the same characters, up to the limit, as the whole
stream does.
-/

namespace CognitiveTree.Sandbox

/-- `_BoundedReader`: what is kept of a stream, never more than the cap. -/
structure BoundedReader (cap : Nat) where
  chunks : List Bytes
  kept : Nat
  truncated : Bool
  kept_eq : chunks.flatten.length = kept
  bounded : kept ≤ cap

namespace BoundedReader

variable {cap : Nat}

/-- A reader before its first chunk. -/
def initial (cap : Nat) : BoundedReader cap := ⟨[], 0, false, rfl, Nat.zero_le cap⟩

/-- `reader.data`. -/
def data (r : BoundedReader cap) : Bytes := r.chunks.flatten

/-- One pass of the loop of `run`. -/
def accept (r : BoundedReader cap) (chunk : Bytes) : BoundedReader cap :=
  let room := cap - r.kept
  if h : 0 < room then
    { chunks := r.chunks ++ [chunk.take room]
      kept := r.kept + (chunk.take room).length
      truncated := if room < chunk.length then true else r.truncated
      kept_eq := by
        rw [List.flatten_append, List.length_append, r.kept_eq, List.flatten_singleton]
      bounded := by
        have hlen := List.length_take_le room chunk
        omega }
  else { r with truncated := if room < chunk.length then true else r.truncated }

/-- `run` on the chunks the stream returns; an empty chunk is its end. -/
def run : List Bytes → BoundedReader cap → BoundedReader cap
  | [], r => r
  | chunk :: rest, r => if chunk = [] then r else run rest (r.accept chunk)

theorem data_accept (r : BoundedReader cap) (chunk : Bytes) :
    (r.accept chunk).data = r.data ++ chunk.take (cap - r.kept) := by
  unfold accept
  dsimp only
  split
  · rw [data, List.flatten_append, List.flatten_singleton]
    rfl
  · rename_i hfull
    rw [Nat.eq_zero_of_not_pos hfull, List.take_zero, List.append_nil]
    rfl

theorem kept_accept (r : BoundedReader cap) (chunk : Bytes) :
    (r.accept chunk).kept = min cap (r.kept + chunk.length) := by
  have hdata := congrArg List.length (data_accept r chunk)
  rw [data, kept_eq, List.length_append, data, r.kept_eq, List.length_take] at hdata
  have hbounded := r.bounded
  omega

theorem truncated_accept (r : BoundedReader cap) (chunk : Bytes) :
    (r.accept chunk).truncated = (r.truncated || decide (cap < r.kept + chunk.length)) := by
  have hbounded := r.bounded
  have hroom : cap - r.kept < chunk.length ↔ cap < r.kept + chunk.length := by omega
  have hflag : (r.accept chunk).truncated =
      if cap - r.kept < chunk.length then true else r.truncated := by
    unfold accept
    dsimp only
    split <;> rfl
  rw [hflag]
  by_cases h : cap < r.kept + chunk.length
  · rw [if_pos (hroom.mpr h), decide_eq_true h, Bool.or_true]
  · rw [if_neg (mt hroom.mp h), decide_eq_false h, Bool.or_false]

/-- However the stream is split, the reader keeps its first bytes and notices the others. -/
theorem run_spec {chunks : List Bytes} (hne : ∀ chunk ∈ chunks, chunk ≠ []) (r : BoundedReader cap) :
    (run chunks r).data = r.data ++ chunks.flatten.take (cap - r.kept) ∧
      (run chunks r).truncated =
        (r.truncated || decide (cap < r.kept + chunks.flatten.length)) := by
  induction chunks generalizing r with
  | nil =>
    have hbounded := r.bounded
    simp [run]
    omega
  | cons chunk rest ih =>
    rw [List.forall_mem_cons] at hne
    rw [run, if_neg hne.1, List.flatten_cons]
    obtain ⟨hdata, htruncated⟩ := ih hne.2 (r.accept chunk)
    have hbounded := r.bounded
    have hroom : cap - min cap (r.kept + chunk.length) = cap - r.kept - chunk.length := by omega
    constructor
    · rw [hdata, data_accept, kept_accept, List.append_assoc, List.take_append, hroom]
    · rw [htruncated, truncated_accept, kept_accept, List.length_append, Bool.or_assoc,
        ← Bool.decide_or]
      congr 2
      apply propext
      omega

end BoundedReader

/-- `clip_output(text, limit)`. -/
def clipOutput (text : Str) (limit : Nat) : Str × Bool :=
  if text.length ≤ limit then (text, false) else (text.take limit, true)

/-- `capture_bytes_for(limit_chars)`. -/
def captureBytesFor (limitChars : Nat) : Nat := limitChars * 4

/-- `decode_captured(data, truncated, limit_chars)`. -/
def decodeCaptured (data : Bytes) (truncated : Bool) (limitChars : Nat) : Str × Bool :=
  let (text, clipped) := clipOutput (Utf8.decodeReplace data) limitChars
  (text, clipped || truncated)

/-- Clipping to a limit the text already exceeds is the same for a text with the same beginning. -/
theorem decodeCaptured_take {data : Bytes} {truncated : Bool} {limit : Nat}
    (h : truncated = decide (captureBytesFor limit < data.length)) :
    decodeCaptured (data.take (captureBytesFor limit)) truncated limit =
      ((Utf8.decodeReplace data).take limit, decide (limit < (Utf8.decodeReplace data).length)) := by
  have hbytes : 4 * limit ≤ captureBytesFor limit := (Nat.mul_comm 4 limit).le
  have hpre : (Utf8.decodeReplace (data.take (captureBytesFor limit))).take limit =
      (Utf8.decodeReplace data).take limit := by
    rw [Utf8.decodeReplace, Utf8.decodeReplace, ← List.map_take, ← List.map_take,
      Utf8.units_take data hbytes]
  have hfour := Utf8.length_le data
  rw [← Utf8.length_decodeReplace] at hfour
  have hclip : ∀ text, (clipOutput text limit).1 = text.take limit ∧
      (clipOutput text limit).2 = decide (limit < text.length) := by
    intro text
    unfold clipOutput
    split
    · rename_i hle
      simp [List.take_of_length_le hle, hle]
    · rename_i hgt
      simpa using hgt
  obtain ⟨htext, hclipped⟩ := hclip (Utf8.decodeReplace (data.take (captureBytesFor limit)))
  refine Prod.ext (htext.trans hpre) ?_
  change ((clipOutput _ limit).2 || truncated) = _
  rw [hclipped, h]
  by_cases hcap : captureBytesFor limit < data.length
  · -- more bytes than the cap are more characters than the limit
    have hlong : limit < (Utf8.decodeReplace data).length := by
      unfold captureBytesFor at hcap
      omega
    rw [decide_eq_true hcap, Bool.or_true, decide_eq_true hlong]
  · rw [List.take_of_length_le (Nat.not_lt.mp hcap), decide_eq_false hcap, Bool.or_false]

/-- However a stream is split into chunks, draining it into a reader of the capacity for a limit and
decoding what was kept gives the first characters of the whole stream, and whether there are more. -/
theorem bounded_capture_exact (chunks : List Bytes) (hne : ∀ chunk ∈ chunks, chunk ≠ [])
    (limit : Nat) :
    let reader := BoundedReader.run chunks (.initial (captureBytesFor limit))
    let text := Utf8.decodeReplace chunks.flatten
    decodeCaptured reader.data reader.truncated limit =
      (text.take limit, decide (limit < text.length)) := by
  obtain ⟨hdata, htruncated⟩ :=
    BoundedReader.run_spec hne (.initial (captureBytesFor limit))
  dsimp only
  rw [hdata]
  refine decodeCaptured_take ?_
  rw [htruncated]
  simp [BoundedReader.initial]

/-- A character cut in half by the chunks and by the cap. -/
theorem bounded_capture_exact_split :
    let reader := BoundedReader.run [[0xf0, 0x9f], [0x98, 0x80, 0xe2], [0x82]]
      (.initial (captureBytesFor 1))
    decodeCaptured reader.data reader.truncated 1 = ([0x1f600], true) := by
  have h := bounded_capture_exact [[0xf0, 0x9f], [0x98, 0x80, 0xe2], [0x82]] (by decide) 1
  exact h.trans (by decide +kernel)

end CognitiveTree.Sandbox
