import Stencil.Text.Blank
import Stencil.Text.Search

/-! # The marks of tags

Which characters start a tag name, which end one, and when a text starts with the end tag of a
given element.
-/

namespace Stencil.Tag

/-- A character that a tag name can start with: an ASCII letter. -/
def isNameStart (c : Char) : Bool :=
  c.isAlpha

/-- A character that ends a name inside a tag: a solidus, the end of the tag or a blank. -/
def isBreak (c : Char) : Bool :=
  c == '/' || c == '>' || Text.isBlank c

/-- `s` starts with an end tag for `tag`: its name is `tag`, up to the case of ASCII letters, and
either the text or the name ends there. -/
def startsEndTag (tag : List Char) : List Char → Bool
  | '<' :: '/' :: s =>
    Text.sameIgnoringCase (s.take tag.length) tag && (s.drop tag.length).head?.all isBreak
  | _ => false

end Stencil.Tag
