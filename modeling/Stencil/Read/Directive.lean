import Stencil.Read.Value

/-! # Directives

An attribute whose name starts with `v-`, or with one of the shorthand marks `:`, `.`, `@` and `#`,
is a directive. Its name falls into three parts that follow one another: a head with the name of
the directive, the raw argument, and a remainder with the modifiers.
-/

namespace Stencil

namespace DirectiveName

/-- The name of an attribute makes it a directive. -/
def isDirectiveName : List Char → Bool
  | 'v' :: '-' :: c :: _ => c.isAlpha || c.isDigit || c == '-'
  | c :: _ => c == ':' || c == '.' || c == '@' || c == '#'
  | [] => false

/-- A character of the name after `v-`: a letter, a digit or a hyphen. Letters are compared without
regard to case, which brings in the long s and the Kelvin sign. -/
def isNameChar (c : Char) : Bool :=
  c.isAlpha || c.isDigit || c == '-' || c == '\u017f' || c == '\u212a'

end DirectiveName

/-- A directive name in its parts. -/
structure DirectiveName where
  /-- What stands before the argument. -/
  head : List Char
  /-- The argument with its brackets, if it has any. -/
  rawArg : Option (List Char)
  /-- All that follows. -/
  remainder : List Char
  /-- The name of the directive. -/
  name : List Char
  deriving DecidableEq, Repr

namespace DirectiveName

/-- The argument that a text starts with: everything through the first closing bracket if the text
starts with a bracket that holds something, and everything before the first dot otherwise. -/
def argument? (s : List Char) : Option (List Char) :=
  let run := s.takeWhile (· != '.')
  let plain := if run.isEmpty then none else some run
  match s with
  | '[' :: t =>
    let inner := t.takeWhile (· != ']')
    if !inner.isEmpty && inner.length < t.length then some ('[' :: inner ++ [']']) else plain
  | _ => plain

/-- The name that a shorthand mark stands for. -/
def shorthand : List Char → List Char
  | ':' :: _ => "bind".toList
  | '.' :: _ => "bind".toList
  | '@' :: _ => "on".toList
  | _ => "slot".toList

/-- The name after `v-`, if there is one. -/
def explicit : List Char → List Char
  | 'v' :: '-' :: s => s.takeWhile isNameChar
  | _ => []

/-- A character that separates the head from an argument; at the start of a name the shorthand marks
do, after an explicit name only the colon does. -/
def isSeparator (atStart : Bool) (c : Char) : Bool :=
  c == ':' || (atStart && (c == '.' || c == '@' || c == '#'))

/-- Takes the name of a directive apart. -/
def split (n : List Char) : DirectiveName :=
  let d := explicit n
  let start := if d.isEmpty then [] else 'v' :: '-' :: d
  let tail := n.drop start.length
  let name := if d.isEmpty then shorthand n else d
  let whole : DirectiveName := ⟨start, none, tail, name⟩
  match tail with
  | c :: s =>
    if isSeparator d.isEmpty c then
      match argument? s with
      | some arg => ⟨start ++ [c], some arg, s.drop arg.length, name⟩
      | none => whole
    else whole
  | [] => whole

end DirectiveName

namespace Directive

/-- The modifiers of a directive: the pieces of its remainder between the dots, without the first
character, each with its place. `i` is the place of the first piece in the name. -/
def placeModifiers (start : Cursor) (i : Nat) : List (List Char) → List Expression
  | [] => []
  | m :: ms =>
    { content := m, isStatic := true,
      loc := (start.skip i).locationTo (start.skip (i + m.length)) } ::
      placeModifiers start (i + m.length + 1) ms

/-- The modifiers that the remainder of a name spells out. -/
def spelledModifiers (start : Cursor) (n : DirectiveName) : List Expression :=
  if n.remainder.isEmpty then []
  else
    placeModifiers start (n.head.length + (n.rawArg.elim 0 List.length) + 1)
      (Text.pieces (· == '.') (n.remainder.drop 1))

/-- All modifiers; the shorthand dot counts as the modifier `prop`. -/
def modifiersOf (start : Cursor) (raw : List Char) (n : DirectiveName) : List Expression :=
  spelledModifiers start n ++
    if raw.head? == some '.' then
      [{ content := "prop".toList, isStatic := true, loc := start.locationTo (start.skip 1) }]
    else []

/-- The content of a raw argument, and whether it is a name. Brackets make it an expression. The
name of a slot may contain dots, so `whole`, the rest of the attribute name, belongs to it. -/
def argContent (isSlot : Bool) (whole : List Char) : List Char → List Char × Bool
  | '[' :: inner =>
    (if inner.getLast? == some ']' then inner.dropLast else inner, false)
  | raw => (if isSlot then whole else raw, true)

/-- A raw argument that opens a bracket and does not end in one. -/
def isUnclosed : List Char → Bool
  | '[' :: inner => inner.getLast? != some ']'
  | _ => false

/-- The argument of a directive whose name `raw` starts at `start`. -/
def argOf (start : Cursor) (raw : List Char) (n : DirectiveName) : Option Expression :=
  n.rawArg.map fun arg =>
    let isSlot := n.name == "slot".toList
    let first := n.head.length
    let whole := raw.drop first
    let stop := if isSlot then raw.length else first + arg.length
    let (content, isStatic) := argContent isSlot whole arg
    { content := content, isStatic := isStatic,
      loc := (start.skip first).locationTo (start.skip stop) }

/-- The legacy readings of a bound argument: with `sync` the directive becomes a model, and `prop`
is worth a warning. -/
def modernize (config : Option Legacy.Config) (d : Directive) : Directive × List Legacy.Warning :=
  match d.arg with
  | some arg =>
    if d.name == "bind".toList then
      let sync := d.hasModifier "sync".toList && Legacy.isEnabled config .vBindSync
      let e :=
        if sync then
          { d with
            name := "model".toList
            modifiers := d.modifiers.eraseP fun m => m.content == "sync".toList }
        else d
      (e,
        (if sync then Legacy.warn config .vBindSync d.loc (some arg.loc.source) else []) ++
        (if e.hasModifier "prop".toList then Legacy.check config .vBindProp d.loc none else []))
    else (d, [])
  | none => (d, [])

/-- Builds the directive whose name `raw` starts at `start`. `after` is where its attribute ends. -/
def build (o : Options) (start after : Cursor) (raw : List Char)
    (value : Option AttributeValue) : Directive × Log :=
  let n := DirectiveName.split raw
  let (d, warnings) := modernize o.legacy
    { name := n.name
      rawName := raw
      exp := value.map fun v => { content := v.content, isStatic := false, loc := v.inner }
      arg := argOf start raw n
      modifiers := modifiersOf start raw n
      loc := start.locationTo after }
  let errors :=
    if n.rawArg.any isUnclosed then
      [ParseError.at .missingDynamicDirectiveArgumentEnd after.position]
    else []
  (d, ⟨errors, warnings⟩)

end Directive

end Stencil
