import Stencil.Read.Leaf
import Stencil.Read.Tag
import Stencil.Siblings

/-! # Reading a template step by step

Reading is a machine. Its state holds the cursor, the elements that are open and the nodes finished
so far. Each step closes the innermost element or reads one construct, and the machine stops at the
end of the template, once every element is closed.

Every step takes away either some text or an open element: opening an element takes at least two
characters. So the number of unread characters and open elements together falls with every step.
-/

namespace Stencil

/-- What is switched on around a place in a template. -/
structure Flags where
  /-- White space is kept. -/
  pre : Bool
  /-- Directives and interpolations are off. -/
  vPre : Bool
  deriving DecidableEq, Repr

/-- An element whose end has not been reached. -/
structure OpenElement where
  /-- The element; its location is that of its start tag. -/
  element : Element
  /-- The start of its start tag. -/
  start : Cursor
  /-- The end of its start tag. -/
  body : Cursor
  /-- How its content is read. -/
  mode : TextMode
  /-- Its children so far, newest first. -/
  children : List Node
  /-- What is switched on outside of it. -/
  outer : Flags
  deriving Repr

/-- A stage of reading a template. -/
structure State where
  cursor : Cursor
  /-- The open elements, innermost first. -/
  stack : List OpenElement
  /-- The finished nodes outside of all elements, newest first. -/
  roots : List Node
  flags : Flags
  /-- The errors so far, newest first. -/
  errors : List ParseError
  /-- The warnings so far, newest first. -/
  warnings : List Legacy.Warning
  deriving Repr

/-- What markup can turn out to be, by what follows its `<`. -/
inductive Markup where
  /-- The end of the template. -/
  | eof
  | comment
  | doctype
  | cdata
  /-- A declaration of another kind. -/
  | declaration
  /-- The end of the template right after the solidus of an end tag. -/
  | endTagEof
  /-- An end tag without a name. -/
  | namelessEndTag
  | endTag
  /-- A solidus that no name follows. -/
  | badEndTag
  | startTag
  /-- A processing instruction. -/
  | instruction
  /-- Nothing that starts markup. -/
  | stray
  deriving DecidableEq, Repr

namespace Markup

/-- What a text with `<` in front is. -/
def classify : List Char → Markup
  | [] => eof
  | '!' :: s =>
    if "--".toList.isPrefixOf s then comment
    else if "DOCTYPE".toList.isPrefixOf s then doctype
    else if "[CDATA[".toList.isPrefixOf s then cdata
    else declaration
  | '/' :: [] => endTagEof
  | '/' :: c :: _ =>
    if c == '>' then namelessEndTag
    else if Tag.isNameStart c then endTag
    else badEndTag
  | c :: _ =>
    if Tag.isNameStart c then startTag
    else if c == '?' then instruction
    else stray

end Markup

namespace State

/-- The state before anything is read. -/
def initial (source : List Char) : State :=
  ⟨.ofText source, [], [], ⟨false, false⟩, [], []⟩

/-- The innermost open element. -/
def parent (s : State) : Option Element :=
  s.stack.head?.map (·.element)

/-- How the text at the cursor is read. -/
def mode (s : State) : TextMode :=
  s.stack.head?.elim .data (·.mode)

/-- The innermost element, or the template, ends here. -/
def atEnd (s : State) : Bool :=
  s.cursor.atEnd ||
    match s.mode with
    | .data => s.stack.any fun e => Tag.startsEndTag e.element.tag s.cursor.rest
    | .rcData | .rawText => s.parent.any fun e => Tag.startsEndTag e.tag s.cursor.rest
    | .cData => s.cursor.startsWith TextNode.sectionEnd
    | .attributeValue => false

/-- Reading is complete. -/
def isDone (s : State) : Bool :=
  s.stack.isEmpty && s.atEnd

/-- Adds to what there is to report. -/
def report (s : State) (log : Log) : State :=
  { s with
    errors := log.errors.reverse ++ s.errors
    warnings := log.warnings.reverse ++ s.warnings }

/-- Reports an error at a position. -/
def reportAt (s : State) (code : ErrorCode) (p : Position) : State :=
  s.report (.error code p)

/-- Goes on after a reading and takes over its reports. -/
def after {α : Type} (s : State) (r : Reading α) : State :=
  { s with cursor := r.cursor }.report r.log

/-- Adds a finished node to the innermost element. -/
def add (s : State) (node : Node) : State :=
  match s.stack with
  | [] => { s with roots := Siblings.push node s.roots }
  | e :: stack => { s with stack := { e with children := Siblings.push node e.children } :: stack }

/-- Adds finished nodes, in order. -/
def addAll (s : State) (nodes : List Node) : State :=
  nodes.foldl add s

/-- Adds a finished element. A plain `template` is left out in favour of its children where that
legacy is honoured. -/
def addElement (o : Options) (s : State) (e : Element) (children : List Node) : State :=
  if e.tag == "template".toList && Legacy.isEnabled o.legacy .nativeTemplate &&
      !e.props.any Property.isStructural then
    (s.report (.ofWarnings (Legacy.warn o.legacy .nativeTemplate e.loc none))).addAll children
  else s.add (.element e children)

/-! ## Steps -/

/-- Reads a run of text. -/
def readText (o : Options) (s : State) : State :=
  let r := TextNode.read o s.mode s.cursor
  (s.after r).add (.text r.value)

/-- Reads a comment, or markup that is taken for one. -/
def addComment (s : State) (r : Reading Comment) : State :=
  (s.after r).add (.comment r.value)

/-- Reads a CDATA section: its text is settled on its own and joins the siblings around it. -/
def readSection (o : Options) (source : List Char) (s : State) : State :=
  let r := TextNode.readSection s.cursor
  let preParent := s.parent.any fun e => o.isPreTag e.tag
  (s.after r).addAll
    (Siblings.settle o source s.flags.pre preParent (r.value.toList.map .text))

/-- Reads a start tag. An element that cannot have content is finished at once, and so is one that
would be nested too deep. -/
def openElement (o : Options) (s : State) : State :=
  let r := Tag.read o .opening s.flags.vPre s.cursor
  let inside : Flags :=
    ⟨s.flags.pre || o.isPreTag r.value.name, s.flags.vPre || r.value.startsVPre⟩
  let (e, warnings) :=
    Element.ofTag o inside.vPre s.parent r.value (s.cursor.locationTo r.cursor)
  let t := (s.after r).report (.ofWarnings warnings)
  if e.isSelfClosing || o.isVoidTag e.tag then t.addElement o e []
  else if o.maxDepth ≤ s.stack.length then
    (t.reportAt .nestingTooDeep e.loc.start).addElement o e []
  else
    { t with
      stack := ⟨e, s.cursor, r.cursor, o.textModeOf e s.parent, [], s.flags⟩ :: s.stack
      flags := inside }

/-- The legacy reading of the attribute `inline-template`: the first one gets `value`. -/
def fillInlineTemplate (value : TextNode) : List Property → List Property
  | [] => []
  | .attribute a :: ps =>
    if a.name == "inline-template".toList then .attribute { a with value := some value } :: ps
    else .attribute a :: fillInlineTemplate value ps
  | p :: ps => p :: fillInlineTemplate value ps

/-- An element with its content as template, where that legacy is honoured and asked for. -/
def withInlineTemplate (o : Options) (e : Element) (content : Location) :
    Element × List Legacy.Warning :=
  match e.attribute? "inline-template".toList with
  | some a =>
    if Legacy.isEnabled o.legacy .inlineTemplate then
      ({ e with props := fillInlineTemplate ⟨content.source, content⟩ e.props },
        Legacy.warn o.legacy .inlineTemplate a.loc none)
    else (e, [])
  | none => (e, [])

/-- A script that starts like a comment. -/
def isCommentLikeScript (tag : List Char) (children : List Node) : Bool :=
  Text.sameIgnoringCase tag "script".toList &&
    children.head?.any fun first => Comment.opener.isPrefixOf first.loc.source

/-- Reads the end tag of an element, if it stands at the cursor. -/
def readEndTag (o : Options) (s : State) (e : Element) (children : List Node) : State :=
  if Tag.startsEndTag e.tag s.cursor.rest then
    s.after (Tag.read o .closing s.flags.vPre s.cursor)
  else
    let t := s.reportAt .missingEndTag e.loc.start
    if s.cursor.atEnd && isCommentLikeScript e.tag children then
      t.reportAt .eofInScriptHtmlCommentLikeText s.cursor.position
    else t

/-- The children of an element that is about to be closed. Texts that are not markup stay as they
were read. -/
def finishedChildren (o : Options) (source : List Char) (inPre : Bool) (e : OpenElement) :
    List Node :=
  match e.mode with
  | .rawText | .rcData => e.children.reverse
  | .data | .cData | .attributeValue =>
    Siblings.settle o source inPre (o.isPreTag e.element.tag) e.children.reverse

/-- Closes the innermost element `e`, which stands on `stack`. -/
def closeElement (o : Options) (source : List Char) (s : State) (e : OpenElement)
    (stack : List OpenElement) : State :=
  let children := finishedChildren o source s.flags.pre e
  let (element, warnings) := withInlineTemplate o e.element (e.body.locationTo s.cursor)
  let t := { s with stack := stack }.report (.ofWarnings warnings)
  let u := t.readEndTag o element children
  let closed := { element with loc := e.start.locationTo u.cursor }
  { u with flags := e.outer }.addElement o closed children

/-- Reads markup. What is none is reported and read as text. -/
def readMarkup (o : Options) (source : List Char) (s : State) : State :=
  let c := s.cursor
  match Markup.classify (c.rest.drop 1) with
  | .eof => (s.reportAt .eofBeforeTagName (c.ahead 1)).readText o
  | .comment => s.addComment (Comment.read c)
  | .doctype => s.addComment (Comment.readBogus c)
  | .cdata =>
    if s.parent.any fun e => e.ns != .html then s.readSection o source
    else (s.reportAt .cdataInHtmlContent c.position).addComment (Comment.readBogus c)
  | .declaration =>
    (s.reportAt .incorrectlyOpenedComment c.position).addComment (Comment.readBogus c)
  | .endTagEof => (s.reportAt .eofBeforeTagName (c.ahead 2)).readText o
  | .namelessEndTag => { s.reportAt .missingEndTagName (c.ahead 2) with cursor := c.skip 3 }
  | .endTag =>
    (s.reportAt .invalidEndTag c.position).after (Tag.read o .closing s.flags.vPre c)
  | .badEndTag =>
    (s.reportAt .invalidFirstCharacterOfTagName (c.ahead 2)).addComment (Comment.readBogus c)
  | .startTag => s.openElement o
  | .instruction =>
    (s.reportAt .unexpectedQuestionMarkInsteadOfTagName (c.ahead 1)).addComment
      (Comment.readBogus c)
  | .stray => (s.reportAt .invalidFirstCharacterOfTagName (c.ahead 1)).readText o

/-- An interpolation starts at the cursor. -/
def startsInterpolation (o : Options) (s : State) : Bool :=
  !s.flags.vPre && !o.openDelimiter.isEmpty && s.cursor.startsWith o.openDelimiter

/-- Reads an interpolation, or text where it is not closed. -/
def readInterpolation (o : Options) (s : State) : State :=
  match Interpolation.read? o s.mode s.cursor with
  | some r => (s.after r).add (.interpolation r.value)
  | none => (s.reportAt .missingInterpolationEnd s.cursor.position).readText o

/-- Reads one construct. -/
def readNode (o : Options) (source : List Char) (s : State) : State :=
  match s.mode with
  | .data =>
    if s.startsInterpolation o then s.readInterpolation o
    else if s.cursor.rest.head? == some '<' then s.readMarkup o source
    else s.readText o
  | .rcData => if s.startsInterpolation o then s.readInterpolation o else s.readText o
  | .rawText | .cData | .attributeValue => s.readText o

/-- One step: closes the innermost element if it ends here, and reads a construct otherwise. -/
def step (o : Options) (source : List Char) (s : State) : State :=
  if s.atEnd then
    match s.stack with
    | [] => s
    | e :: stack => s.closeElement o source e stack
  else s.readNode o source

/-- What every step makes smaller. -/
def size (s : State) : Nat :=
  s.cursor.rest.length + s.stack.length

end State

end Stencil
