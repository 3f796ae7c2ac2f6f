import Stencil.ErrorCode
import Stencil.Legacy
import Stencil.Node
import Stencil.Text.Digit
import Stencil.Text.Quoted

/-! # Outlines and counts

Shows a template tree as text: one line for each node and each property, indented by two spaces a
level, properties before children. Counts the parts of a tree, and writes diagnostics as lines.
-/

namespace Stencil

namespace Location

/-- The offsets of a location. -/
def span (l : Location) : List Char :=
  Text.decimal l.start.offset ++ "..".toList ++ Text.decimal l.stop.offset

end Location

/-- The part of a line that shows a value, if there is one. -/
def shownValue : Option (List Char) → List Char
  | some v => '=' :: Text.Quoted.encode v
  | none => []

namespace Property

/-- The argument of a directive, in brackets if it is to be computed. -/
def shownArg (e : Expression) : List Char :=
  if e.isStatic then ':' :: e.content else ":[".toList ++ e.content ++ [']']

/-- The line of a property. -/
def headline : Property → List Char
  | .attribute a =>
    "Attribute ".toList ++ a.name ++ shownValue (a.value.map TextNode.content) ++
      ' ' :: a.loc.span
  | .directive d =>
    "Directive v-".toList ++ d.name ++ d.arg.elim [] shownArg ++
      (d.modifiers.flatMap fun m => '.' :: m.content) ++
      shownValue (d.exp.map Expression.content) ++ ' ' :: d.loc.span

end Property

namespace Element

/-- The line of an element. -/
def headline (e : Element) : List Char :=
  "Element <".toList ++ e.tag ++ "> ".toList ++ e.loc.span ++
    (if e.kind = .element then [] else ' ' :: e.kind.name.toList) ++
    (if e.ns = .html then [] else " ns=".toList ++ e.ns.name.toList) ++
    (if e.isSelfClosing then " self-closing".toList else [])

end Element

/-- The indent of a level. -/
def indent (depth : Nat) : List Char :=
  List.replicate (2 * depth) ' '

/-- A line that shows a kind of leaf with its content. -/
def leafLine (depth : Nat) (kind : NodeKind) (content : List Char) (loc : Location) : List Char :=
  indent depth ++ kind.name.toList ++ ' ' :: Text.Quoted.encode content ++ ' ' :: loc.span

mutual

/-- The lines of a node and what belongs to it. -/
def Node.outline (depth : Nat) : Node → List (List Char)
  | .element e children =>
    (indent depth ++ e.headline) ::
      (e.props.map fun p => indent (depth + 1) ++ p.headline) ++ Node.outlineAll (depth + 1) children
  | .text t => [leafLine depth .text t.content t.loc]
  | .comment c => [leafLine depth .comment c.content c.loc]
  | .interpolation i => [leafLine depth .interpolation i.content.content i.loc]

/-- The lines of several nodes. -/
def Node.outlineAll (depth : Nat) : List Node → List (List Char)
  | [] => []
  | node :: nodes => node.outline depth ++ Node.outlineAll depth nodes

end

/-- The lines of a template. -/
def Root.outlineLines (r : Root) : List (List Char) :=
  ("Root ".toList ++ r.loc.span) :: Node.outlineAll 1 r.children

/-- The outline of a template as a text of lines. -/
def Root.outline (r : Root) : List Char :=
  r.outlineLines.flatMap (· ++ ['\n'])

/-- How many of each kind a template has. -/
structure Tally where
  elements : Nat
  /-- Those of the elements that are components. -/
  components : Nat
  attributes : Nat
  directives : Nat
  texts : Nat
  comments : Nat
  interpolations : Nat
  deriving DecidableEq, Repr

namespace Tally

def zero : Tally := ⟨0, 0, 0, 0, 0, 0, 0⟩

/-- Counts a property. -/
def countProperty (t : Tally) : Property → Tally
  | .attribute _ => { t with attributes := t.attributes + 1 }
  | .directive _ => { t with directives := t.directives + 1 }

/-- Counts an element without its children. -/
def countElement (t : Tally) (e : Element) : Tally :=
  e.props.foldl countProperty
    { t with
      elements := t.elements + 1
      components := t.components + if e.kind = .component then 1 else 0 }

mutual

/-- Counts a node and what belongs to it. -/
def countNode (t : Tally) : Node → Tally
  | .element e children => countAll (t.countElement e) children
  | .text _ => { t with texts := t.texts + 1 }
  | .comment _ => { t with comments := t.comments + 1 }
  | .interpolation _ => { t with interpolations := t.interpolations + 1 }

/-- Counts several nodes. -/
def countAll (t : Tally) : List Node → Tally
  | [] => t
  | node :: nodes => countAll (countNode t node) nodes

end

/-- The counts in words. -/
def summary (t : Tally) : String :=
  s!"{t.elements} elements ({t.components} components), {t.attributes} attributes, " ++
    s!"{t.directives} directives, {t.texts} texts, {t.comments} comments, " ++
    s!"{t.interpolations} interpolations"

end Tally

/-- The counts of a template. -/
def Root.tally (r : Root) : Tally :=
  Tally.zero.countAll r.children

/-- The start of a diagnostic line: the file, and the place if there is one. -/
def diagnosticStart (filename : String) (loc : Option Location) : String :=
  match loc with
  | some l => filename ++ s!":{l.start.line}:{l.start.column}: "
  | none => filename ++ ": "

/-- The line that shows an error. -/
def ParseError.line (filename : String) (e : ParseError) : String :=
  let number := toString e.code.number
  let padded := if number.length < 2 then "0" ++ number else number
  diagnosticStart filename e.loc ++ "error[E" ++ padded ++ "]: " ++ e.code.message

/-- The line that shows a warning. -/
def Legacy.Warning.line (filename : String) (w : Warning) : String :=
  diagnosticStart filename w.loc ++ "warning[" ++ w.feature.key ++ "]: " ++ w.message

end Stencil
