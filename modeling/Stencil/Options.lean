import Stencil.Legacy
import Stencil.Node
import Stencil.Text.Reference

/-! # Options of a reader

What a reader of templates leaves to its caller: the delimiters, what is kept, how deep elements
may nest, and the rules of the platform as functions.
-/

namespace Stencil

/-- How the content of an element is read. -/
inductive TextMode where
  /-- Elements, comments, interpolations and references, up to the end tag of any open element. -/
  | data
  /-- Interpolations and references, up to the end tag of the element. -/
  | rcData
  /-- Text and nothing else, up to the end tag of the element. -/
  | rawText
  /-- Text and nothing else, up to the mark that ends a CDATA section. -/
  | cData
  /-- Text with references, read as in attribute values. -/
  | attributeValue
  deriving DecidableEq, Repr

/-- What happens to white space. -/
inductive Whitespace where
  /-- Runs of blanks become one space, and blank text that carries no meaning is dropped. -/
  | condense
  /-- It is kept. -/
  | preserve
  deriving DecidableEq, Repr

/-- How to read a template. -/
structure Options where
  /-- What an interpolation starts with; with the empty text there are none. -/
  openDelimiter : List Char
  /-- What an interpolation ends with. -/
  closeDelimiter : List Char
  whitespace : Whitespace
  /-- Comments are kept in the tree. -/
  comments : Bool
  /-- Which dropped features are honoured. -/
  legacy : Option Legacy.Config
  /-- The number of elements that may be open at a time. -/
  maxDepth : Nat
  /-- The namespace of a tag inside its parent element. -/
  namespaceOf : List Char → Option Element → Namespace
  /-- How the content of an element inside its parent is read. -/
  textModeOf : Element → Option Element → TextMode
  /-- Elements without content and end tag. -/
  isVoidTag : List Char → Bool
  /-- Elements inside which white space is kept. -/
  isPreTag : List Char → Bool
  /-- Elements that are never components. -/
  isCustomElement : List Char → Bool
  /-- Elements of the platform; the others are components. -/
  isNativeTag : List Char → Bool
  /-- Components that the platform provides. -/
  isBuiltInComponent : List Char → Bool
  /-- Replaces character references; the flag is set for attribute values. -/
  decodeReferences : List Char → Bool → List Char

namespace Options

/-- The nesting limit when none is given. -/
def defaultMaxDepth : Nat := 512

/-- The options that know no platform. -/
def base : Options where
  openDelimiter := ['\x7b', '\x7b']
  closeDelimiter := ['\x7d', '\x7d']
  whitespace := .condense
  comments := true
  legacy := none
  maxDepth := defaultMaxDepth
  namespaceOf := fun _ _ => .html
  textModeOf := fun _ _ => .data
  isVoidTag := fun _ => false
  isPreTag := fun _ => false
  isCustomElement := fun _ => false
  isNativeTag := fun _ => true
  isBuiltInComponent := fun _ => false
  decodeReferences := fun s _ => Text.decodeBasic s

/-- White space is condensed. -/
def condenses (o : Options) : Bool :=
  o.whitespace == .condense

/-- The text that `s` stands for in a mode: references are replaced except in the two modes that
know none. -/
def decode (o : Options) (mode : TextMode) (s : List Char) : List Char :=
  match mode with
  | .rawText | .cData => s
  | .data | .rcData => if s.contains '&' then o.decodeReferences s false else s
  | .attributeValue => if s.contains '&' then o.decodeReferences s true else s

end Options

end Stencil
