import Stencil.Json
import Stencil.Text.Digit

/-! # Reading JSON

A text is cut into tokens, and the tokens are put together by a machine with a stack of the arrays
and objects that are still open. A text that is not JSON is read as far as it goes: what was read
until then is kept, with `broken` at the place where it stops.
-/

namespace Stencil.Json

/-- What JSON is made of. -/
inductive Token where
  | openObject
  | closeObject
  | openArray
  | closeArray
  | comma
  | colon
  /-- A value without parts. -/
  | value (v : Json)
  /-- No token at all. -/
  | bad
  deriving Repr

namespace Token

/-- The blanks of JSON. -/
def isBlank (c : Char) : Bool :=
  c == ' ' || c == '\n' || c == '\r' || c == '\t'

/-- The number of four hexadecimal digits. -/
def hexCode? (a b c d : Char) : Option Nat := do
  let a ← Text.hexDigit? a
  let b ← Text.hexDigit? b
  let c ← Text.hexDigit? c
  let d ← Text.hexDigit? d
  return ((a * 16 + b) * 16 + c) * 16 + d

/-- A part of a string: a code unit, by itself or by an escape. -/
inductive Piece where
  | char (c : Char)
  | code (n : Nat)
  deriving Repr

/-- The character of a short escape. -/
def shortEscape? (c : Char) : Option Char :=
  [('\x22', '\x22'), ('\\', '\\'), ('/', '/'), ('b', '\x08'), ('f', '\x0c'), ('n', '\n'),
    ('r', '\r'), ('t', '\t')].lookup c

/-- The pieces of a string after its opening quote, with the number of characters they take up,
the closing quote included. -/
def pieces? : List Char → Option (List Piece × Nat)
  | [] => none
  | '\x22' :: _ => some ([], 1)
  | '\\' :: 'u' :: a :: b :: c :: d :: s =>
    match hexCode? a b c d, pieces? s with
    | some n, some (ps, k) => some (.code n :: ps, k + 6)
    | _, _ => none
  | '\\' :: e :: s =>
    match shortEscape? e, pieces? s with
    | some c, some (ps, k) => some (.char c :: ps, k + 2)
    | _, _ => none
  | c :: s =>
    if c.toNat < 0x20 then none
    else
      match pieces? s with
      | some (ps, k) => some (.char c :: ps, k + 1)
      | none => none

/-- The characters that the pieces of a string stand for. Two escapes that form a surrogate pair
stand for one character; a surrogate alone stands for none. -/
def chars? : List Piece → Option (List Char)
  | [] => some []
  | .char c :: ps => (chars? ps).map (c :: ·)
  | .code n :: .code m :: ps =>
    if n.isValidChar then (chars? (.code m :: ps)).map (Char.ofNat n :: ·)
    else if 0xd800 ≤ n && n < 0xdc00 && 0xdc00 ≤ m && m < 0xe000 then
      (chars? ps).map (Char.ofNat (0x10000 + (n - 0xd800) * 0x400 + (m - 0xdc00)) :: ·)
    else none
  | .code n :: ps => if n.isValidChar then (chars? ps).map (Char.ofNat n :: ·) else none

/-- Reads a string after its opening quote. -/
def string? (s : List Char) : Option (Token × Nat) :=
  (pieces? s).map fun (ps, k) =>
    match chars? ps with
    | some cs => (.value (.str (String.ofList cs)), k + 1)
    | none => (.value .unpaired, k + 1)

/-- The length of a run of digits, which may not be empty. -/
def digits? (s : List Char) : Option Nat :=
  let n := (s.takeWhile Char.isDigit).length
  if n = 0 then none else some n

/-- The length of the whole part of a number: a zero alone, or digits that do not start with one. -/
def wholePart? (s : List Char) : Option Nat :=
  match s with
  | '0' :: c :: _ => if c.isDigit then none else some 1
  | _ => digits? s

/-- The length of a fraction, zero where there is none. -/
def fractionPart? : List Char → Option Nat
  | '.' :: s => (digits? s).map (· + 1)
  | _ => some 0

/-- The length of an exponent, zero where there is none. -/
def exponentPart? : List Char → Option Nat
  | c :: s =>
    if c == 'e' || c == 'E' then
      match s with
      | '+' :: t => (digits? t).map (· + 2)
      | '-' :: t => (digits? t).map (· + 2)
      | _ => (digits? s).map (· + 1)
    else some 0
  | [] => some 0

/-- Reads a number. -/
def number? (s : List Char) : Option (Token × Nat) := do
  let sign := if s.head? == some '-' then 1 else 0
  let unsigned := s.drop sign
  let whole ← wholePart? unsigned
  let fraction ← fractionPart? (unsigned.drop whole)
  let exponent ← exponentPart? (unsigned.drop (whole + fraction))
  let length := sign + whole + fraction + exponent
  let n := Text.ofDigits 10 (unsigned.take whole)
  if fraction + exponent = 0 && !(sign == 1 && n == 0) then
    return (.value (.int (if sign == 1 then -n else n)), length)
  else
    return (.value (.decimal (String.ofList (s.take length))), length)

/-- Reads a token, with its number of characters. -/
def read? (s : List Char) : Option (Token × Nat) :=
  match s with
  | '\x7b' :: _ => some (.openObject, 1)
  | '\x7d' :: _ => some (.closeObject, 1)
  | '[' :: _ => some (.openArray, 1)
  | ']' :: _ => some (.closeArray, 1)
  | ',' :: _ => some (.comma, 1)
  | ':' :: _ => some (.colon, 1)
  | '\x22' :: t => string? t
  | _ =>
    if "true".toList.isPrefixOf s then some (.value (.bool true), 4)
    else if "false".toList.isPrefixOf s then some (.value (.bool false), 5)
    else if "null".toList.isPrefixOf s then some (.value .null, 4)
    else number? s

/-- The tokens of a text, the first `skip` characters left out. The list ends with `bad` where the
text has no token. -/
def listFrom (skip : Nat) : List Char → List Token
  | [] => []
  | c :: s =>
    match skip with
    | skip + 1 => listFrom skip s
    | 0 =>
      if isBlank c then listFrom 0 s
      else
        match read? (c :: s) with
        | some (token, n) => token :: listFrom (n - 1) s
        | none => [.bad]

end Token

/-- The key of a member. -/
inductive Key where
  | named (s : String)
  /-- A key whose escapes do not name characters. -/
  | unpaired
  deriving DecidableEq, Repr

/-- The member that a key and a value make. -/
def Key.member (v : Json) : Key → String × Json
  | .named s => (s, v)
  | .unpaired => ("", .misnamed v)

/-- An array or object that is still open. -/
inductive Frame where
  /-- The items so far, newest first. -/
  | array (items : List Json)
  /-- The members so far, newest first, and the key of the next one once it is read. -/
  | object (members : List (String × Json)) (key : Option Key)
  deriving Repr

/-- What can come next. -/
inductive Phase where
  /-- A value. -/
  | value
  /-- The first item of an array, or its end. -/
  | itemOrClose
  /-- The first key of an object, or its end. -/
  | keyOrClose
  /-- A key. -/
  | key
  /-- The colon after a key. -/
  | colon
  /-- A comma, or the end of an array or object. -/
  | next
  /-- Nothing: the value is complete. -/
  | done (v : Json)
  /-- Nothing: something followed the complete value. -/
  | trailing (v : Json)
  /-- Nothing: the text is not JSON. -/
  | failed (v : Json)
  deriving Repr

/-- A stage of putting tokens together. -/
structure Machine where
  frames : List Frame
  phase : Phase
  deriving Repr

namespace Machine

/-- What the open arrays and objects amount to if `v` comes last. -/
def collapse (v : Json) : List Frame → Json
  | [] => v
  | .array items :: frames => collapse (.arr (v :: items).reverse) frames
  | .object members key :: frames =>
    collapse (.obj ((key.getD (.named "")).member v :: members).reverse) frames

/-- The text is not JSON from here on. -/
def fail (m : Machine) : Machine :=
  ⟨[], .failed (collapse .broken m.frames)⟩

/-- Takes a complete value. -/
def accept (frames : List Frame) (v : Json) : Machine :=
  match frames with
  | [] => ⟨[], .done v⟩
  | .array items :: rest => ⟨.array (v :: items) :: rest, .next⟩
  | .object members key :: rest =>
    ⟨.object ((key.getD (.named "")).member v :: members) none :: rest, .next⟩

/-- Takes the start of a value, or the whole of it. -/
def startValue (m : Machine) : Token → Machine
  | .openObject => ⟨.object [] none :: m.frames, .keyOrClose⟩
  | .openArray => ⟨.array [] :: m.frames, .itemOrClose⟩
  | .value v => accept m.frames v
  | _ => m.fail

/-- Takes the key of a member. -/
def takeKey (m : Machine) (token : Token) : Machine :=
  match token, m.frames with
  | .value (.str s), .object members _ :: rest =>
    ⟨.object members (some (.named s)) :: rest, .colon⟩
  | .value .unpaired, .object members _ :: rest =>
    ⟨.object members (some .unpaired) :: rest, .colon⟩
  | _, _ => m.fail

/-- Takes the end of the innermost array or object. -/
def close (m : Machine) (token : Token) : Machine :=
  match token, m.frames with
  | .closeArray, .array items :: rest => accept rest (.arr items.reverse)
  | .closeObject, .object members _ :: rest => accept rest (.obj members.reverse)
  | _, _ => m.fail

/-- Takes one token. -/
def step (m : Machine) (token : Token) : Machine :=
  match m.phase with
  | .value => m.startValue token
  | .itemOrClose =>
    match token with
    | .closeArray => m.close token
    | _ => m.startValue token
  | .keyOrClose =>
    match token with
    | .closeObject => m.close token
    | _ => m.takeKey token
  | .key => m.takeKey token
  | .colon =>
    match token with
    | .colon => { m with phase := .value }
    | _ => m.fail
  | .next =>
    match token, m.frames with
    | .comma, .array _ :: _ => { m with phase := .value }
    | .comma, .object .. :: _ => { m with phase := .key }
    | _, _ => m.close token
  | .done v => ⟨[], .trailing v⟩
  | .trailing _ | .failed _ => m

end Machine

/-- A text read as JSON. -/
structure Document where
  value : Json
  /-- Something follows the value that does not belong to it. -/
  hasTrailing : Bool
  deriving Repr

/-- Reads a text. -/
def read (s : List Char) : Document :=
  let m := (Token.listFrom 0 s).foldl Machine.step ⟨[], .value⟩
  match m.phase with
  | .done v => ⟨v, false⟩
  | .trailing v => ⟨v, true⟩
  | .failed v => ⟨v, false⟩
  | _ => ⟨Machine.collapse .broken m.frames, false⟩

/-- The value of a text that is JSON as a whole. -/
def ofText? (s : List Char) : Option Json :=
  let d := read s
  if d.hasTrailing || !d.value.isSound then none else some d.value

end Stencil.Json
