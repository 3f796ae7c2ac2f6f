import Stencil.Read.Directive
import Stencil.Tag.Mark

/-! # Attribute lists

Reads what stands between the name of a tag and its end. Each attribute is a name and perhaps a
value; its name decides whether it is a directive.
-/

namespace Stencil

/-- The two kinds of tags. -/
inductive TagKind where
  | opening
  | closing
  deriving DecidableEq, Repr

namespace Property

/-- The attribute name that a text starts with. Its first character may be anything. -/
def nameAt : List Char → List Char
  | [] => []
  | c :: s => c :: s.takeWhile fun d => !(Tag.isBreak d || d == '=')

/-- A character that should not be part of a name. -/
def isUnexpected (c : Char) : Bool :=
  c == '\x22' || c == '\x27' || c == '<'

/-- The errors of a name at a cursor; `seen` are the names before it in the same tag. -/
def nameErrors (seen : List (List Char)) (name : List Char) (c : Cursor) : List ParseError :=
  (if seen.contains name then [.at .duplicateAttribute c.position] else []) ++
  (if name.head? == some '=' then
    [.at .unexpectedEqualsSignBeforeAttributeName c.position] else []) ++
  (Text.indexes isUnexpected name).map fun i =>
    .at .unexpectedCharacterInAttributeName (c.ahead i)

/-- Reads the equals sign and the value that may follow a name. -/
def readValue (o : Options) (c : Cursor) : Reading (Option AttributeValue) :=
  let mark := c.skipBlanks
  if mark.rest.head? == some '=' then
    let r := AttributeValue.read o (mark.skip 1).skipBlanks
    let missing :=
      if r.value.isNone then [ParseError.at .missingAttributeValue r.cursor.position] else []
    ⟨r.value, r.cursor, r.log ++ .ofErrors missing⟩
  else ⟨none, c, .empty⟩

/-- Builds the plain attribute `name`. The value of `class` is brought into its normal form. -/
def plain (name : List Char) (nameLoc loc : Location) (value : Option AttributeValue) : Attribute :=
  { name := name
    nameLoc := nameLoc
    value := value.map fun v =>
      { content := if name == "class".toList then Text.classList v.content else v.content
        loc := v.loc }
    loc := loc }

/-- Reads an attribute. Under `vPre` there are no directives. -/
def read (o : Options) (vPre : Bool) (seen : List (List Char)) (c : Cursor) : Reading Property :=
  let name := nameAt c.rest
  let afterName := c.skip name.length
  let value := readValue o afterName
  let before := Log.ofErrors (nameErrors seen name c) ++ value.log
  if !vPre && DirectiveName.isDirectiveName name then
    let (d, log) := Directive.build o c value.cursor name value.value
    ⟨.directive d, value.cursor, before ++ log⟩
  else
    let nameless := !vPre && ['v', '-'].isPrefixOf name
    let log := if nameless then .error .missingDirectiveName value.cursor.position else .empty
    ⟨.attribute (plain name (c.locationTo afterName) (c.locationTo value.cursor) value.value),
      value.cursor, before ++ log⟩

theorem reaches_readValue (o : Options) (c : Cursor) : c.Reaches (readValue o c).cursor := by
  unfold readValue
  dsimp only
  split
  · exact ((c.reaches_skipBlanks.trans (Cursor.reaches_skip _ _)).trans
      (Cursor.reaches_skipBlanks _)).trans (AttributeValue.reaches_read _ _)
  · exact .refl c

theorem cursor_read (o : Options) (vPre : Bool) (seen : List (List Char)) (c : Cursor) :
    (read o vPre seen c).cursor = (readValue o (c.skip (nameAt c.rest).length)).cursor := by
  unfold read
  dsimp only
  split <;> rfl

theorem reaches_read (o : Options) (vPre : Bool) (seen : List (List Char)) (c : Cursor) :
    c.Reaches (read o vPre seen c).cursor := by
  rw [cursor_read]
  exact (c.reaches_skip _).trans (reaches_readValue _ _)

/-- Reading an attribute takes at least one character. -/
theorem length_read_lt (o : Options) (vPre : Bool) (seen : List (List Char)) (c : Cursor)
    (h : c.rest ≠ []) : (read o vPre seen c).cursor.rest.length < c.rest.length := by
  rw [cursor_read]
  have hle := (reaches_readValue o (c.skip (nameAt c.rest).length)).length_le
  rw [Cursor.length_skip] at hle
  cases hr : c.rest with
  | nil => exact absurd hr h
  | cons d s =>
    rw [hr] at hle
    simp only [nameAt, List.length_cons] at hle ⊢
    omega

/-- The error of an attribute that the next one follows without a blank. -/
def spacingErrors (c : Cursor) : List ParseError :=
  if c.rest.head?.all Tag.isBreak then []
  else [.at .missingWhitespaceBetweenAttributes c.position]

/-- Reads attributes up to the end of the tag or of the template. End tags report every attribute
and keep none. -/
def readAll (o : Options) (kind : TagKind) (vPre : Bool) (seen : List (List Char)) (c : Cursor) :
    Reading (List Property) :=
  match _h : c.rest with
  | [] => ⟨[], c, .empty⟩
  | '>' :: _ => ⟨[], c, .empty⟩
  | '/' :: '>' :: _ => ⟨[], c, .empty⟩
  | '/' :: _ =>
    let r := readAll o kind vPre seen (c.skip 1).skipBlanks
    { r with log := .error .unexpectedSolidusInTag c.position ++ r.log }
  | _ :: _ =>
    let a := read o vPre seen c
    let r := readAll o kind vPre (a.value.rawName :: seen) a.cursor.skipBlanks
    let atEndTag := Log.ofErrors
      (if kind = .closing then [.at .endTagWithAttributes c.position] else [])
    { value := if kind = .opening then a.value :: r.value else r.value
      cursor := r.cursor
      log := atEndTag ++ (a.log ++ (.ofErrors (spacingErrors a.cursor) ++ r.log)) }
termination_by c.rest.length
decreasing_by
  · have := ((c.skip 1).reaches_skipBlanks).length_le
    rw [Cursor.length_skip] at this
    rw [_h] at this ⊢
    simp only [List.length_cons] at this ⊢
    omega
  · have hne : c.rest ≠ [] := by
      rw [_h]
      exact List.cons_ne_nil _ _
    have hlt := length_read_lt o vPre seen c hne
    have := (read o vPre seen c).cursor.reaches_skipBlanks.length_le
    omega

end Property

end Stencil
