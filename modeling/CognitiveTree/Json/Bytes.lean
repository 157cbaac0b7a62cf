import CognitiveTree.Core.Utf8
import CognitiveTree.Json.Decoder

/-!
# JSON texts as bytes

`json.loads` on bytes guesses the encoding from the first four of them and decodes with
`surrogatepass`, which lets lone surrogates through and nothing else.
-/

namespace CognitiveTree.Json

/-- An encoding that is detected. -/
inductive Encoding where
  | utf8
  | utf16 (bigEndian : Bool)
  | utf32 (bigEndian : Bool)

/-- `json.detect_encoding(b)`, with the length of the byte order mark. -/
def detectEncoding (b : Bytes) : Encoding × Nat :=
  let byte (i : Nat) : UInt8 := b.getD i 0
  if [0x00, 0x00, 0xfe, 0xff].isPrefixOf b then (.utf32 true, 4)
  else if [0xff, 0xfe, 0x00, 0x00].isPrefixOf b then (.utf32 false, 4)
  else if [0xfe, 0xff].isPrefixOf b then (.utf16 true, 2)
  else if [0xff, 0xfe].isPrefixOf b then (.utf16 false, 2)
  else if [0xef, 0xbb, 0xbf].isPrefixOf b then (.utf8, 3)
  else if 4 ≤ b.length then
    if byte 0 = 0 then (if byte 1 = 0 then .utf32 true else .utf16 true, 0)
    else if byte 1 = 0 then (if byte 2 = 0 && byte 3 = 0 then .utf32 false else .utf16 false, 0)
    else (.utf8, 0)
  else if b.length = 2 then
    if byte 0 = 0 then (.utf16 true, 0) else if byte 1 = 0 then (.utf16 false, 0) else (.utf8, 0)
  else (.utf8, 0)

/-- The bytes behind `0xed` that encode a surrogate. -/
def surrogateTail : Bytes → Option (UInt8 × UInt8)
  | a :: b :: _ => if 0xa0 ≤ a && a ≤ 0xbf && 0x80 ≤ b && b ≤ 0xbf then some (a, b) else none
  | _ => none

/-- The characters of at most this many bytes of UTF-8. -/
def decodeUtf8To : Nat → Bytes → Option Str
  | _, [] => some []
  | 0, _ => none
  | fuel + 1, lead :: rest =>
    match (if lead = 0xed then surrogateTail rest else none) with
    | some (a, b) => do
      let s ← decodeUtf8To fuel (rest.drop 2)
      pure (Fin.ofNat 0x110000 (Utf8.scalar lead [a, b]) :: s)
    | none => do
      let c ← (Utf8.decodeOne lead rest).1
      let s ← decodeUtf8To fuel (rest.drop (Utf8.decodeOne lead rest).2)
      pure (c :: s)

/-- The code units of UTF-16; a byte alone at the end is an error. -/
def units16 (bigEndian : Bool) : Bytes → Option (List Piece)
  | [] => some []
  | [_] => none
  | a :: b :: rest => do
    let units ← units16 bigEndian rest
    let unit := if bigEndian then a.toNat * 256 + b.toNat else b.toNat * 256 + a.toNat
    pure (.unit (Fin.ofNat 0x110000 unit) :: units)

/-- The characters of UTF-32; a number beyond the code points is an error. -/
def decodeUtf32 (bigEndian : Bool) : Bytes → Option Str
  | [] => some []
  | a :: b :: c :: d :: rest => do
    let n := if bigEndian then ((a.toNat * 256 + b.toNat) * 256 + c.toNat) * 256 + d.toNat
      else ((d.toNat * 256 + c.toNat) * 256 + b.toNat) * 256 + a.toNat
    let s ← decodeUtf32 bigEndian rest
    if h : n < 0x110000 then pure (⟨n, h⟩ :: s) else none
  | _ => none

/-- `b.decode(detect_encoding(b), "surrogatepass")`, `none` when it raises. -/
def decodeBytes (b : Bytes) : Option Str :=
  let (encoding, mark) := detectEncoding b
  let data := b.drop mark
  match encoding with
  | .utf8 => decodeUtf8To data.length data
  | .utf16 bigEndian => (units16 bigEndian data).map joined
  | .utf32 bigEndian => decodeUtf32 bigEndian data

end CognitiveTree.Json
