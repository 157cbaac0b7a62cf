import CognitiveTree.Json.Grammar

/-!
# The JSON decoder

`json.loads` on a string. Besides malformed texts the decoder gives up on integers with more digits
than the interpreter converts and on containers nested deeper than its recursion limit.
-/

namespace CognitiveTree.Json

/-- The limits of the interpreter; `none` for no limit. -/
structure Limits where
  digits : Option Nat
  depth : Option Nat

/-- An interpreter without limits. -/
def Limits.unlimited : Limits := ⟨none, none⟩

/-- Why a text is not decoded. -/
inductive Fault where
  /-- `JSONDecodeError` -/
  | malformed
  /-- `ValueError`: an integer exceeds the limit for string conversion -/
  | digits
  /-- `RecursionError` -/
  | depth
  /-- the fuel of the model is spent, which does not happen -/
  | fuel
  deriving DecidableEq

/-- `WHITESPACE.match(s, end).end()`. -/
def skip (s : Str) : Str := s.dropWhile isBlank

/-- `scanstring` behind the opening quote. -/
def scanString : Str → Option (List Piece × Str)
  | [] => none
  | c :: s =>
    if c = quote then some ([], s)
    else if c = backslash then
      match s with
      | [] => none
      | e :: s =>
        if e = unitEscape then
          match s with
          | a :: b :: c :: d :: s => do
            let u ← hex4 a b c d
            let (pieces, rest) ← scanString s
            pure (.unit u :: pieces, rest)
          | _ => none
        else do
          let c ← escapes.lookup e
          let (pieces, rest) ← scanString s
          pure (.plain c :: pieces, rest)
    else if isPlain c then do
      let (pieces, rest) ← scanString s
      pure (.plain c :: pieces, rest)
    else none

/-- The integer at the head of a text. -/
def scanInteger (s : Str) : Option (Str × Str) :=
  let sign := if s.head? = some minus then [minus] else []
  match s.drop sign.length with
  | [] => none
  | d :: rest =>
    if d = 48 then some (sign ++ [d], rest)
    else if isDigit d then some (sign ++ d :: rest.takeWhile isDigit, rest.dropWhile isDigit)
    else none

/-- The fraction at the head of a text, if there is one. -/
def scanFraction (s : Str) : Str × Str :=
  let ds := s.tail.takeWhile isDigit
  if s.head? = some dot ∧ ds ≠ [] then (dot :: ds, s.tail.dropWhile isDigit) else ([], s)

/-- The exponent at the head of a text, if there is one. -/
def scanExponent (s : Str) : Str × Str :=
  match s with
  | [] => ([], [])
  | mark :: rest =>
    let sign := rest.takeWhile Numeral.isSign |>.take 1
    let tail := rest.drop sign.length
    let ds := tail.takeWhile isDigit
    if Numeral.isMark mark = true ∧ ds ≠ [] then (mark :: (sign ++ ds), tail.dropWhile isDigit)
    else ([], s)

/-- `match_number(string, idx)`. -/
def scanNumber (s : Str) : Option (Numeral × Str) :=
  (scanInteger s).map fun (integer, s) =>
    (⟨integer, (scanFraction s).1, (scanExponent (scanFraction s).2).1⟩,
      (scanExponent (scanFraction s).2).2)

/-- `_Py_EnterRecursiveCall`: the depth left inside a container. -/
def enter : Option Nat → Except Fault (Option Nat)
  | none => .ok none
  | some 0 => .error .depth
  | some (depth + 1) => .ok (some depth)

section Decoder

variable {V : Type} (H : Hooks V) (digits : Option Nat)

/-- The value of a number within the limit for integers. -/
def convert (n : Numeral) : Except Fault V :=
  if n.isInt && digits.any fun limit => limit < n.digits.length then .error .digits
  else .ok (H.number n)

/-- A word or a number. -/
def scanAtom (s : Str) : Except Fault (V × Str) :=
  match H.words.find? fun word => word.1.isPrefixOf s with
  | some (w, v) => .ok (v, s.drop w.length)
  | none => match scanNumber s with
    | some (n, rest) => do
      let v ← convert H digits n
      pure (v, rest)
    | none => .error .malformed

mutual

/-- `scan_once`. -/
def scanValue (fuel : Nat) (depth : Option Nat) (s : Str) : Except Fault (V × Str) :=
  match fuel with
  | 0 => .error .fuel
  | fuel + 1 =>
    match s with
    | [] => .error .malformed
    | c :: s =>
      if c = quote then
        match scanString s with
        | some (pieces, rest) => .ok (H.str (joined pieces), rest)
        | none => .error .malformed
      else if c = openBracket then do
        let depth ← enter depth
        let s := skip s
        if s.head? = some closeBracket then pure (H.list [], s.tail)
        else do
          let (vs, rest) ← scanElements fuel depth s
          pure (H.list vs, rest)
      else if c = openBrace then do
        let depth ← enter depth
        let s := skip s
        if s.head? = some closeBrace then pure (H.dict [], s.tail)
        else do
          let (items, rest) ← scanMembers fuel depth s
          pure (H.dict items, rest)
      else scanAtom H digits (c :: s)

/-- The loop of `JSONArray`. -/
def scanElements (fuel : Nat) (depth : Option Nat) (s : Str) : Except Fault (List V × Str) :=
  match fuel with
  | 0 => .error .fuel
  | fuel + 1 => do
    let (v, s) ← scanValue fuel depth s
    let s := skip s
    if s.head? = some closeBracket then pure ([v], s.tail)
    else if s.head? = some comma then do
      let (vs, rest) ← scanElements fuel depth (skip s.tail)
      pure (v :: vs, rest)
    else .error .malformed

/-- The loop of `JSONObject`. -/
def scanMembers (fuel : Nat) (depth : Option Nat) (s : Str) :
    Except Fault (List (Str × V) × Str) :=
  match fuel with
  | 0 => .error .fuel
  | fuel + 1 =>
    if s.head? = some quote then
      match scanString s.tail with
      | none => .error .malformed
      | some (key, s) =>
        let s := skip s
        if s.head? = some colon then do
          let (v, s) ← scanValue fuel depth (skip s.tail)
          let s := skip s
          if s.head? = some closeBrace then pure ([(joined key, v)], s.tail)
          else if s.head? = some comma then do
            let (items, rest) ← scanMembers fuel depth (skip s.tail)
            pure ((joined key, v) :: items, rest)
          else .error .malformed
        else .error .malformed
    else .error .malformed

end

end Decoder

/-- `json.loads(s)`. -/
def loads {V : Type} (H : Hooks V) (limits : Limits) (s : Str) : Except Fault V :=
  if s.head? = some 0xfeff then .error .malformed
  else do
    let (v, rest) ← scanValue H limits.digits (2 * s.length + 2) limits.depth (skip s)
    if skip rest = [] then pure v else .error .malformed

end CognitiveTree.Json
