import Stencil.Options
import Stencil.Tag.Known
import Stencil.Text.HtmlReference

/-! # The browser platform

The rules by which a browser reads markup: which vocabulary an element belongs to, how its content
is read, and what character references there are.
-/

namespace Stencil.Dom

/-- An attribute that declares the content of an annotation to be HTML. -/
def isHtmlEncoding : Property → Bool
  | .attribute a =>
    a.name == "encoding".toList &&
      a.value.any fun v => v.content == "text/html".toList ||
        v.content == "application/xhtml+xml".toList
  | .directive _ => false

/-- The namespace that the children of an element start from: its own, except where foreign content
goes back to HTML. -/
def inherited (tag : List Char) (parent : Element) : Namespace :=
  match parent.ns with
  | .html => .html
  | .svg => if Tag.isOneOf Tag.svgIntegrationPoints parent.tag then .html else .svg
  | .mathMl =>
    if parent.tag == "annotation-xml".toList then
      if tag == "svg".toList then .svg
      else if parent.props.any isHtmlEncoding then .html
      else .mathMl
    else if Tag.isOneOf Tag.mathMlIntegrationPoints parent.tag && tag != "mglyph".toList &&
        tag != "malignmark".toList then .html
    else .mathMl

/-- The namespace of a tag inside its parent. Among HTML, `svg` and `math` start foreign content. -/
def namespaceOf (tag : List Char) (parent : Option Element) : Namespace :=
  match parent.elim .html (inherited tag) with
  | .html =>
    if tag == "svg".toList then .svg
    else if tag == "math".toList then .mathMl
    else .html
  | .svg => .svg
  | .mathMl => .mathMl

/-- How the content of an element is read. Only HTML has elements that hold text alone. -/
def textModeOf (e : Element) : TextMode :=
  if e.ns != .html then .data
  else if Tag.isRcData e.tag then .rcData
  else if Tag.isRawText e.tag then .rawText
  else .data

/-- The options of the browser platform. -/
def options : Options :=
  { Options.base with
    namespaceOf := namespaceOf
    textModeOf := fun e _ => textModeOf e
    isVoidTag := Tag.isVoid
    isPreTag := Tag.isPre
    isNativeTag := Tag.isNative
    isBuiltInComponent := Tag.isBuiltInComponent
    decodeReferences := Text.HtmlReference.decode }

end Stencil.Dom
