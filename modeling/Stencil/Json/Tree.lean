import Stencil.Json
import Stencil.Outline
import Stencil.Parse

/-! # Trees as JSON

The JSON form of templates, their parts, and what there is to report about them. A node says in its
member `type` what it is.
-/

namespace Stencil

def Position.toJson (p : Position) : Json :=
  .object [("column", .nat p.column), ("line", .nat p.line), ("offset", .nat p.offset)]

def Location.toJson (l : Location) : Json :=
  .object [("end", l.stop.toJson), ("source", .text l.source), ("start", l.start.toJson)]

def Expression.toJson (e : Expression) : Json :=
  .object
    [("constType", .str e.constancy), ("content", .text e.content), ("isStatic", .bool e.isStatic),
      ("loc", e.loc.toJson), ("type", .str "SimpleExpression")]

def TextNode.toJson (t : TextNode) : Json :=
  .object [("content", .text t.content), ("loc", t.loc.toJson), ("type", .str "Text")]

def Comment.toJson (c : Comment) : Json :=
  .object [("content", .text c.content), ("loc", c.loc.toJson), ("type", .str "Comment")]

def Interpolation.toJson (i : Interpolation) : Json :=
  .object [("content", i.content.toJson), ("loc", i.loc.toJson), ("type", .str "Interpolation")]

def Attribute.toJson (a : Attribute) : Json :=
  .object
    [("loc", a.loc.toJson), ("name", .text a.name), ("nameLoc", a.nameLoc.toJson),
      ("type", .str "Attribute"), ("value", a.value.elim .null TextNode.toJson)]

def Directive.toJson (d : Directive) : Json :=
  .object
    [("arg", d.arg.elim .null Expression.toJson), ("exp", d.exp.elim .null Expression.toJson),
      ("loc", d.loc.toJson), ("modifiers", .arr (d.modifiers.map Expression.toJson)),
      ("name", .text d.name), ("rawName", .text d.rawName), ("type", .str "Directive")]

def Property.toJson : Property → Json
  | .attribute a => a.toJson
  | .directive d => d.toJson

/-- The JSON form of an element with the given children. -/
def Element.toJson (e : Element) (children : List Json) : Json :=
  .object
    [("children", .arr children), ("isSelfClosing", .bool e.isSelfClosing), ("loc", e.loc.toJson),
      ("ns", .str e.ns.name), ("props", .arr (e.props.map Property.toJson)), ("tag", .text e.tag),
      ("tagType", .str e.kind.name), ("type", .str "Element")]

mutual

def Node.toJson : Node → Json
  | .element e children => e.toJson (Node.allToJson children)
  | .text t => t.toJson
  | .comment c => c.toJson
  | .interpolation i => i.toJson

def Node.allToJson : List Node → List Json
  | [] => []
  | node :: nodes => node.toJson :: Node.allToJson nodes

end

def Root.toJson (r : Root) : Json :=
  .object
    [("children", .arr (Node.allToJson r.children)), ("loc", r.loc.toJson), ("type", .str "Root")]

def ParseError.toJson (e : ParseError) : Json :=
  .object
    [("code", .str e.code.name), ("loc", e.loc.elim .null Location.toJson),
      ("message", .str e.code.message)]

def Legacy.Warning.toJson (w : Warning) : Json :=
  .object
    [("code", .str w.feature.key), ("loc", w.loc.elim .null Location.toJson),
      ("message", .str w.message)]

def Tally.toJson (t : Tally) : Json :=
  .object
    [("attributes", .nat t.attributes), ("comments", .nat t.comments),
      ("components", .nat t.components), ("directives", .nat t.directives),
      ("elements", .nat t.elements), ("interpolations", .nat t.interpolations),
      ("texts", .nat t.texts)]

/-- The members of the JSON form of a template that has been read. -/
def Template.members (t : Template) : List (String × Json) :=
  [("ast", t.root.toJson), ("errors", .arr (t.errors.map ParseError.toJson)),
    ("warnings", .arr (t.warnings.map Legacy.Warning.toJson))]

end Stencil
