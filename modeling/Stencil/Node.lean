import Stencil.Position

/-! # Template trees

What a template is read into. Every part knows its location, and every text is kept as characters:
contents with references decoded, names and sources as they were written.
-/

namespace Stencil

/-- The vocabulary an element belongs to. -/
inductive Namespace where
  | html
  | svg
  | mathMl
  deriving DecidableEq, Repr

/-- What an element means to the template language. -/
inductive ElementKind where
  /-- An element of the platform. -/
  | element
  /-- An instance of a component. -/
  | component
  /-- The place where a component shows the content it was given. -/
  | slot
  /-- A group of nodes under a directive. -/
  | template
  deriving DecidableEq, Repr

/-- A piece of program text. The reader does not look inside. -/
structure Expression where
  content : List Char
  /-- The content is a name and not to be computed. -/
  isStatic : Bool
  loc : Location
  deriving DecidableEq, Repr

/-- A run of text, also the value of an attribute. -/
structure TextNode where
  content : List Char
  loc : Location
  deriving DecidableEq, Repr

/-- A comment; its content is what stands between the marks. -/
structure Comment where
  content : List Char
  loc : Location
  deriving DecidableEq, Repr

/-- An expression between the interpolation delimiters. -/
structure Interpolation where
  content : Expression
  loc : Location
  deriving DecidableEq, Repr

/-- A plain attribute. -/
structure Attribute where
  name : List Char
  nameLoc : Location
  value : Option TextNode
  loc : Location
  deriving DecidableEq, Repr

/-- An attribute that instructs the template engine. -/
structure Directive where
  /-- The name without mark or shorthand: `if`, `bind`, `on`. -/
  name : List Char
  /-- The attribute name as written. -/
  rawName : List Char
  exp : Option Expression
  arg : Option Expression
  modifiers : List Expression
  loc : Location
  deriving DecidableEq, Repr

/-- What a start tag can carry. -/
inductive Property where
  | attribute (a : Attribute)
  | directive (d : Directive)
  deriving DecidableEq, Repr

/-- An element apart from its children. -/
structure Element where
  ns : Namespace
  tag : List Char
  kind : ElementKind
  props : List Property
  /-- The start tag ends in a solidus. -/
  isSelfClosing : Bool
  loc : Location
  deriving DecidableEq, Repr

/-- A node of a template tree. -/
inductive Node where
  | element (e : Element) (children : List Node)
  | text (t : TextNode)
  | comment (c : Comment)
  | interpolation (i : Interpolation)
  deriving Repr

/-- A whole template. -/
structure Root where
  children : List Node
  loc : Location
  deriving Repr

/-- The kinds of nodes. -/
inductive NodeKind where
  | element
  | text
  | comment
  | interpolation
  deriving DecidableEq, Repr

/-- The name of a namespace in reports. -/
def Namespace.name : Namespace → String
  | .html => "Html"
  | .svg => "Svg"
  | .mathMl => "MathMl"

/-- The number of a namespace. -/
def Namespace.number : Namespace → Nat
  | .html => 0
  | .svg => 1
  | .mathMl => 2

/-- The name of a kind of element in reports. -/
def ElementKind.name : ElementKind → String
  | .element => "Element"
  | .component => "Component"
  | .slot => "Slot"
  | .template => "Template"

/-- The number of a kind of element. -/
def ElementKind.number : ElementKind → Nat
  | .element => 0
  | .component => 1
  | .slot => 2
  | .template => 3

/-- The name of a kind of node in reports. -/
def NodeKind.name : NodeKind → String
  | .element => "Element"
  | .text => "Text"
  | .comment => "Comment"
  | .interpolation => "Interpolation"

/-- The number of a kind of node. -/
def NodeKind.number : NodeKind → Nat
  | .element => 1
  | .text => 2
  | .comment => 3
  | .interpolation => 5

/-- How much is known of an expression before anything runs: a name can be written out. -/
def Expression.constancy (e : Expression) : String :=
  if e.isStatic then "CanStringify" else "NotConstant"

/-- The number of the constancy of an expression. -/
def Expression.constancyNumber (e : Expression) : Nat :=
  if e.isStatic then 3 else 0

namespace Property

def loc : Property → Location
  | .attribute a => a.loc
  | .directive d => d.loc

/-- The name of an attribute, or that of a directive without mark or shorthand. -/
def name : Property → List Char
  | .attribute a => a.name
  | .directive d => d.name

/-- The name as written. -/
def rawName : Property → List Char
  | .attribute a => a.name
  | .directive d => d.rawName

/-- A directive of the given name. -/
def isDirective (name : List Char) : Property → Bool
  | .attribute _ => false
  | .directive d => d.name == name

end Property

namespace Directive

/-- One of the modifiers is `name`. -/
def hasModifier (d : Directive) (name : List Char) : Bool :=
  d.modifiers.any fun m => m.content == name

/-- The argument is the static name `name`. -/
def isStaticArg (d : Directive) (name : List Char) : Bool :=
  d.arg.any fun a => a.isStatic && a.content == name

end Directive

namespace Element

/-- The first attribute of a name. -/
def attribute? (e : Element) (name : List Char) : Option Attribute :=
  e.props.findSome? fun
    | .attribute a => if a.name == name then some a else none
    | .directive _ => none

/-- The first directive of a name. -/
def directive? (e : Element) (name : List Char) : Option Directive :=
  e.props.findSome? fun
    | .attribute _ => none
    | .directive d => if d.name == name then some d else none

/-- There is a directive of that name. -/
def hasDirective (e : Element) (name : List Char) : Bool :=
  e.props.any (·.isDirective name)

end Element

namespace Node

def kind : Node → NodeKind
  | .element .. => .element
  | .text _ => .text
  | .comment _ => .comment
  | .interpolation _ => .interpolation

def loc : Node → Location
  | .element e _ => e.loc
  | .text t => t.loc
  | .comment c => c.loc
  | .interpolation i => i.loc

def children : Node → List Node
  | .element _ children => children
  | .text _ | .comment _ | .interpolation _ => []

/-- The node that a path of child indexes leads to from `nodes`. -/
def at? (nodes : List Node) : List Nat → Option Node
  | [] => none
  | [i] => nodes[i]?
  | i :: j :: path =>
    match nodes[i]? with
    | some node => at? node.children (j :: path)
    | none => none

end Node

end Stencil
