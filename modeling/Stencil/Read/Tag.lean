import Stencil.Read.Attribute
import Stencil.Tag.Known

/-! # Tags

Reads a whole tag, and makes an element of a start tag. The directive `pre` turns directives off
for its own tag too, attributes before it included, so the attribute list is then read a second
time and the first reading counts for nothing.
-/

namespace Stencil

/-- A tag as it was read. -/
structure Tag where
  name : List Char
  props : List Property
  isSelfClosing : Bool
  /-- The tag turned directives off. -/
  startsVPre : Bool
  deriving Repr

namespace Tag

/-- The number of characters before the name of a tag. -/
def markLength : TagKind → Nat
  | .opening => 1
  | .closing => 2

/-- The name of the tag that a text starts with. -/
def nameAt (kind : TagKind) (s : List Char) : List Char :=
  (s.drop (markLength kind)).takeWhile fun c => !isBreak c

/-- Where the attributes of the tag at a cursor start. -/
def attributesAt (kind : TagKind) (c : Cursor) : Cursor :=
  (c.skip (markLength kind + (nameAt kind c.rest).length)).skipBlanks

/-- A tag with these properties, read outside, turns directives off. -/
def startsVPreWith (kind : TagKind) (vPre : Bool) (props : List Property) : Bool :=
  kind == .opening && !vPre && props.any (·.isDirective "pre".toList)

/-- Reads the end of a tag, after its attributes; the result tells whether it is self-closing. -/
def readEnd (kind : TagKind) (c : Cursor) : Reading Bool :=
  match c.rest with
  | [] => ⟨false, c, .error .eofInTag c.position⟩
  | '/' :: '>' :: _ =>
    let log := if kind = .closing then .error .endTagWithTrailingSolidus c.position else .empty
    ⟨true, c.skip 2, log⟩
  | _ => ⟨false, c.skip 1, .empty⟩

/-- Reads a tag. -/
def read (o : Options) (kind : TagKind) (vPre : Bool) (c : Cursor) : Reading Tag :=
  let attributes := attributesAt kind c
  let first := Property.readAll o kind vPre [] attributes
  let startsVPre := startsVPreWith kind vPre first.value
  let list := if startsVPre then Property.readAll o kind true [] attributes else first
  let close := readEnd kind list.cursor
  { value :=
      { name := nameAt kind c.rest
        props :=
          if startsVPre then list.value.filter fun p => p.name != "v-pre".toList else list.value
        isSelfClosing := close.value
        startsVPre := startsVPre }
    cursor := close.cursor
    log := list.log ++ close.log }

theorem reaches_readAll (o : Options) (kind : TagKind) (vPre : Bool) (seen : List (List Char))
    (c : Cursor) : c.Reaches (Property.readAll o kind vPre seen c).cursor := by
  fun_induction Property.readAll o kind vPre seen c with
  | case1 | case2 | case3 => exact .refl _
  | case4 seen c _ _ _ r ih =>
    exact ((c.reaches_skip _).trans (Cursor.reaches_skipBlanks _)).trans ih
  | case5 seen c _ _ _ _ _ _ a r _ ih =>
    exact ((Property.reaches_read o vPre seen c).trans (Cursor.reaches_skipBlanks _)).trans ih

theorem reaches_readEnd (kind : TagKind) (c : Cursor) : c.Reaches (readEnd kind c).cursor := by
  unfold readEnd
  split
  · exact .refl c
  · exact c.reaches_skip _
  · exact c.reaches_skip _

/-- What is read of a tag starts with its mark and its name. -/
theorem reaches_read (o : Options) (kind : TagKind) (vPre : Bool) (c : Cursor) :
    (c.skip (markLength kind + (nameAt kind c.rest).length)).Reaches (read o kind vPre c).cursor := by
  unfold read
  dsimp only
  split
  · exact ((Cursor.reaches_skipBlanks _).trans (reaches_readAll _ _ _ _ _)).trans
      (reaches_readEnd _ _)
  · exact ((Cursor.reaches_skipBlanks _).trans (reaches_readAll _ _ _ _ _)).trans
      (reaches_readEnd _ _)

end Tag

namespace Property

/-- A directive that makes a `template` more than a plain element. -/
def isStructural : Property → Bool
  | .attribute _ => false
  | .directive d =>
    ["if".toList, "else".toList, "else-if".toList, "for".toList, "slot".toList].contains d.name

end Property

namespace Element

/-- A property casts its element to a component; with the warnings that are due for it. -/
def castBy (config : Option Legacy.Config) : Property → Bool × List Legacy.Warning
  | .attribute a =>
    if a.name == "is".toList then
      match a.value with
      | some v =>
        if "vue:".toList.isPrefixOf v.content then (true, [])
        else
          (Legacy.isEnabled config .isOnElement, Legacy.check config .isOnElement a.loc none)
      | none => (false, [])
    else (false, [])
  | .directive d =>
    if d.name == "is".toList then (true, [])
    else if d.name == "bind".toList && d.isStaticArg "is".toList then
      (Legacy.isEnabled config .isOnElement, Legacy.check config .isOnElement d.loc none)
    else (false, [])

/-- The first property that casts the element decides. -/
def cast (config : Option Legacy.Config) : List Property → Bool × List Legacy.Warning
  | [] => (false, [])
  | p :: ps =>
    match castBy config p with
    | (true, warnings) => (true, warnings)
    | (false, _) => cast config ps

/-- A tag whose name alone makes it a component. -/
def isComponentTag (o : Options) (tag : List Char) : Bool :=
  tag == "component".toList || tag.head?.any Char.isUpper || Tag.isCoreComponent tag ||
    o.isBuiltInComponent tag || !o.isNativeTag tag

/-- What an element means. Where directives are off, it is an element of the platform. -/
def classify (o : Options) (vPre : Bool) (tag : List Char) (props : List Property) :
    ElementKind × List Legacy.Warning :=
  if vPre then (.element, [])
  else if tag == "slot".toList then (.slot, [])
  else if tag == "template".toList then
    (if props.any Property.isStructural then .template else .element, [])
  else if o.isCustomElement tag then (.element, [])
  else if isComponentTag o tag then (.component, [])
  else
    match cast o.legacy props with
    | (true, warnings) => (.component, warnings)
    | (false, warnings) => (.element, warnings)

/-- The warnings due for `if` and `for` on one element. -/
def precedenceWarnings (o : Options) (props : List Property) (loc : Location) :
    List Legacy.Warning :=
  if props.any (·.isDirective "if".toList) && props.any (·.isDirective "for".toList) then
    Legacy.check o.legacy .vIfVForPrecedence loc none
  else []

/-- Makes an element of a start tag. Its location is that of the tag; `vPre` tells whether
directives are off inside it. -/
def ofTag (o : Options) (vPre : Bool) (parent : Option Element) (tag : Tag) (loc : Location) :
    Element × List Legacy.Warning :=
  let (kind, warnings) := classify o vPre tag.name tag.props
  ({ ns := o.namespaceOf tag.name parent
     tag := tag.name
     kind := kind
     props := tag.props
     isSelfClosing := tag.isSelfClosing
     loc := loc },
    precedenceWarnings o tag.props loc ++ warnings)

end Element

end Stencil
