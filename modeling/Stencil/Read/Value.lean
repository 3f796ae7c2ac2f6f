import Stencil.Options
import Stencil.Read.Reading
import Stencil.Text.Search

/-! # Attribute values

A value stands between two quotes of one kind, or is a run of characters without blanks.
-/

namespace Stencil

/-- The value of an attribute or a directive. -/
structure AttributeValue where
  /-- The value with its references replaced. -/
  content : List Char
  /-- Where it stands, with its quotes. -/
  loc : Location
  /-- Where it stands, without its quotes. -/
  inner : Location
  deriving DecidableEq, Repr

namespace AttributeValue

/-- Reads a value between quotes. One that is not closed goes on to the end of the template. -/
def readQuoted (o : Options) (quote : Char) (c : Cursor) : Reading (Option AttributeValue) :=
  let inner := c.skip 1
  let raw := inner.rest.takeWhile (· != quote)
  let close := inner.skip raw.length
  let after := close.skip 1
  { value := some
      { content := o.decode .attributeValue raw
        loc := c.locationTo after
        inner := inner.locationTo close }
    cursor := after
    log := .empty }

/-- A character of a value without quotes. -/
def isUnquoted (c : Char) : Bool :=
  !(Text.isBlank c || c == '>')

/-- A character that should not be part of a value without quotes. -/
def isUnexpected (c : Char) : Bool :=
  c == '\x22' || c == '\x27' || c == '<' || c == '=' || c == '\x60'

/-- Reads a value without quotes; there is none if a blank, the end of the tag or the end of the
template comes first. -/
def readUnquoted (o : Options) (c : Cursor) : Reading (Option AttributeValue) :=
  let raw := c.rest.takeWhile isUnquoted
  if raw.isEmpty then ⟨none, c, .empty⟩
  else
    let after := c.skip raw.length
    let loc := c.locationTo after
    { value := some { content := o.decode .attributeValue raw, loc := loc, inner := loc }
      cursor := after
      log := .ofErrors ((Text.indexes isUnexpected raw).map fun i =>
        .at .unexpectedCharacterInUnquotedAttributeValue (c.ahead i)) }

/-- Reads a value. -/
def read (o : Options) (c : Cursor) : Reading (Option AttributeValue) :=
  match c.rest with
  | '\x22' :: _ => readQuoted o '\x22' c
  | '\x27' :: _ => readQuoted o '\x27' c
  | _ => readUnquoted o c

theorem reaches_read (o : Options) (c : Cursor) : c.Reaches (read o c).cursor := by
  unfold read
  split
  · exact ((c.reaches_skip _).trans ((c.skip 1).reaches_skip _)).trans (Cursor.reaches_skip _ _)
  · exact ((c.reaches_skip _).trans ((c.skip 1).reaches_skip _)).trans (Cursor.reaches_skip _ _)
  · unfold readUnquoted
    dsimp only
    split
    · exact .refl c
    · exact c.reaches_skip _

end AttributeValue

end Stencil
