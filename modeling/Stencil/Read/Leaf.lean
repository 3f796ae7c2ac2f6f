import Stencil.Options
import Stencil.Read.Reading
import Stencil.Text.Search

/-! # Leaves

Reads the nodes that have no children: runs of text, interpolations, comments, and the text of
CDATA sections.
-/

namespace Stencil

namespace TextNode

/-- The mark that ends a CDATA section. -/
def sectionEnd : List Char := "]]>".toList

/-- A text in a given mode ends where `s` follows. -/
def endsAt (o : Options) (mode : TextMode) (s : List Char) : Bool :=
  match mode with
  | .cData => sectionEnd.isPrefixOf s
  | .data | .rcData | .rawText | .attributeValue =>
    s.head? == some '<' || (!o.openDelimiter.isEmpty && o.openDelimiter.isPrefixOf s)

/-- The number of characters of the run of text that `s` starts with. The first character belongs
to it whatever it is. -/
def lengthAt (o : Options) (mode : TextMode) : List Char → Nat
  | [] => 0
  | _ :: s => (Text.seek (endsAt o mode) s).getD s.length + 1

/-- Reads a run of text. -/
def read (o : Options) (mode : TextMode) (c : Cursor) : Reading TextNode :=
  let n := lengthAt o mode c.rest
  let after := c.skip n
  ⟨⟨o.decode mode (c.rest.take n), c.locationTo after⟩, after, .empty⟩

end TextNode

namespace Interpolation

/-- Reads an interpolation, if it is closed. The expression is located without the spaces around
it. -/
def read? (o : Options) (mode : TextMode) (c : Cursor) : Option (Reading Interpolation) :=
  let inner := c.skip o.openDelimiter.length
  match Text.find o.closeDelimiter inner.rest with
  | none => none
  | some n =>
    let raw := inner.rest.take n
    let trimmed := Text.trim raw
    let lo := if trimmed.isEmpty then 0 else raw.length - (Text.trimStart raw).length
    let hi := lo + trimmed.length
    let after := inner.skip (n + o.closeDelimiter.length)
    some
      { value :=
          { content :=
              { content := Text.trim (o.decode mode raw)
                isStatic := false
                loc := (inner.skip lo).locationTo (inner.skip hi) }
            loc := c.locationTo after }
        cursor := after
        log := .empty }

end Interpolation

namespace Comment

/-- The mark that opens a comment. -/
def opener : List Char := "<!--".toList

/-- The marks that close one: the second is an error. -/
def closers : List (List Char) := ["-->".toList, "--!>".toList]

/-- The closing mark that a text starts with. -/
def closerAt? (s : List Char) : Option (List Char) :=
  closers.find? fun mark => mark.isPrefixOf s

/-- The places of the openers inside a comment, from place `i` on, that end before place `limit`. -/
def openersFrom (i limit : Nat) : List Char → List Nat
  | [] => []
  | c :: s =>
    if opener.isPrefixOf (c :: s) && i + opener.length < limit then
      i :: openersFrom (i + 1) limit s
    else openersFrom (i + 1) limit s

/-- The errors of a comment at `c` that is closed by `closer` at place `i`. -/
def closedErrors (c : Cursor) (i : Nat) (closer : List Char) : List ParseError :=
  (if i ≤ 3 then [.at .abruptClosingOfEmptyComment c.position] else []) ++
  (if closer.length = 4 then [.at .incorrectlyClosedComment c.position] else []) ++
  (openersFrom 1 i ((c.rest.take i).drop 1)).map fun j => .at .nestedComment (c.ahead j)

/-- Reads a comment at its opener. The search for its end starts at the opener itself. -/
def read (c : Cursor) : Reading Comment :=
  let close := Text.seek (fun s => (closerAt? s).isSome) c.rest
  match close with
  | none =>
    let after := c.skip c.rest.length
    ⟨⟨c.rest.drop 4, c.locationTo after⟩, after, .error .eofInComment after.position⟩
  | some i =>
    let closer := (closerAt? (c.rest.drop i)).getD []
    let after := c.skip (i + closer.length)
    ⟨⟨(c.rest.take i).drop 4, c.locationTo after⟩, after, .ofErrors (closedErrors c i closer)⟩

/-- Reads markup that is none as a comment, up to the end of the tag. The mark of a declaration or
an end tag has two characters, that of an instruction only counts as one. -/
def readBogus (c : Cursor) : Reading Comment :=
  let markLength := if c.rest[1]? == some '?' then 1 else 2
  let body := c.rest.takeWhile (· != '>')
  let after := c.skip (body.length + 1)
  ⟨⟨body.drop markLength, c.locationTo after⟩, after, .empty⟩

end Comment

/-- The mark that opens a CDATA section. -/
def TextNode.sectionStart : List Char := "<![CDATA[".toList

/-- Reads a CDATA section at its opener: its text, if it has any. -/
def TextNode.readSection (c : Cursor) : Reading (Option TextNode) :=
  let inner := c.skip sectionStart.length
  let n := (Text.find sectionEnd inner.rest).getD inner.rest.length
  let close := inner.skip n
  { value := if n = 0 then none else some ⟨inner.rest.take n, inner.locationTo close⟩
    cursor := close.skip sectionEnd.length
    log := if close.atEnd then .error .eofInCdata close.position else .empty }

end Stencil
