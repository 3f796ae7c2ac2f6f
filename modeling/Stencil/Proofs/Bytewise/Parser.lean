import Stencil.Proofs.Bytewise.Comment
import Stencil.Proofs.Bytewise.Mark
import Stencil.Proofs.Bytewise.Section
import Stencil.Proofs.Bytewise.Tag
import Stencil.Proofs.Spans.State

/-! # Parsing by bytes

The machine that reads a template, made of scanners. It keeps no cursors: of where an open element
starts and where its start tag ends, there is only what the location of the element says. Whoever
runs it gets a template or learns what went wrong.
-/

namespace Stencil

/-- An element whose end has not been reached. -/
structure Entry where
  element : Element
  mode : TextMode
  /-- Its children so far, newest first. -/
  children : List Node
  outer : Flags

/-- How far a parser has come. -/
structure Progress where
  scan : Scan
  /-- The open elements, innermost first. -/
  stack : List Entry
  /-- The finished nodes outside of all elements, newest first. -/
  roots : List Node
  flags : Flags

namespace Progress

def start : Progress :=
  ⟨⟨.start, .empty⟩, [], [], ⟨false, false⟩⟩

def parent (s : Progress) : Option Element :=
  s.stack.head?.map (·.element)

def mode (s : Progress) : TextMode :=
  s.stack.head?.elim .data (·.mode)

/-- Adds a finished node to the innermost element. -/
def add (s : Progress) (node : Node) : Progress :=
  match s.stack with
  | [] => { s with roots := Siblings.push node s.roots }
  | e :: stack => { s with stack := { e with children := Siblings.push node e.children } :: stack }

end Progress

/-- Reads a template by its bytes. -/
abbrev Parser := StateT Progress Checked

namespace Parser

/-- Goes on with a scanner. -/
def scan {α : Type} (scanner : Scanner α) : Parser α := do
  let s ← get
  let (a, next) ← scanner.run s.scan
  set { s with scan := next }
  return a

def add (node : Node) : Parser Unit :=
  modify (·.add node)

def addAll (nodes : List Node) : Parser Unit :=
  modify fun s => nodes.foldl Progress.add s

def setStack (stack : List Entry) : Parser Unit :=
  modify fun s => { s with stack := stack }

def setFlags (flags : Flags) : Parser Unit :=
  modify fun s => { s with flags := flags }

/-- The bytes `bs` start with an end tag for one of the open elements. -/
def closesAny (bs : List UInt8) : List Entry → Checked Bool
  | [] => return false
  | e :: stack => do
    if ← Tag.startsEndTagBytes bs e.element.tag then return true
    else closesAny bs stack

/-- The innermost element, or a section, ends where the bytes `bs` follow. -/
def closes (s : Progress) (bs : List UInt8) : Checked Bool :=
  match s.mode with
  | .data => if (Text.bytes ['<', '/']).isPrefixOf bs then closesAny bs s.stack else return false
  | .rcData | .rawText =>
    match s.parent with
    | some e => Tag.startsEndTagBytes bs e.tag
    | none => return false
  | .cData => return (Text.bytes TextNode.sectionEnd).isPrefixOf bs
  | .attributeValue => return false

section

variable (source : List Char) (o : Options)

/-- The innermost element, or the template, ends here. -/
def atEnd : Parser Bool := do
  let rest ← scan (Scanner.rest source)
  let closed ← closes (← get) (Text.bytes rest)
  return closed || rest.isEmpty

def text : Parser Unit := do
  let t ← scan (Scanner.text source o (← get).mode)
  add (.text t)

def addComment (scanner : Scanner Comment) : Parser Unit := do
  let comment ← scan scanner
  add (.comment comment)

def report (code : ErrorCode) (n : Nat) : Parser Unit :=
  scan (Scanner.report source code n)

/-- Adds a finished element, or its children. -/
def addElement (e : Element) (children : List Node) : Parser Unit :=
  if e.tag == "template".toList && Legacy.isEnabled o.legacy .nativeTemplate &&
      !e.props.any Property.isStructural then do
    scan (Scanner.warn (Legacy.warn o.legacy .nativeTemplate e.loc none))
    addAll children
  else add (.element e children)

def openElement : Parser Unit := do
  let s ← get
  let tag ← scan (Scanner.tag source o .opening s.flags.vPre)
  let inside : Flags := ⟨s.flags.pre || o.isPreTag tag.name, s.flags.vPre || tag.startsVPre⟩
  let loc ← scan (Scanner.selection source s.scan.position)
  let (e, warnings) := Element.ofTag o inside.vPre s.parent tag loc
  scan (Scanner.warn warnings)
  if e.isSelfClosing || o.isVoidTag e.tag then addElement o e []
  else if o.maxDepth ≤ s.stack.length then
    scan (Scanner.reportAt .nestingTooDeep e.loc.start)
    addElement o e []
  else
    setStack (⟨e, o.textModeOf e s.parent, [], s.flags⟩ :: s.stack)
    setFlags inside

/-- An element that is about to be closed, with its content as template where that is asked for. -/
def inlineTemplate (e : Element) : Parser Element :=
  match e.attribute? "inline-template".toList with
  | some a =>
    if Legacy.isEnabled o.legacy .inlineTemplate then do
      scan (Scanner.warn (Legacy.warn o.legacy .inlineTemplate a.loc none))
      let loc ← scan (Scanner.selection source e.loc.stop)
      return { e with props := State.fillInlineTemplate ⟨loc.source, loc⟩ e.props }
    else return e
  | none => return e

def endTag (e : Element) (children : List Node) : Parser Unit := do
  let rest ← scan (Scanner.rest source)
  if ← Tag.startsEndTagBytes (Text.bytes rest) e.tag then
    let _ ← scan (Scanner.tag source o .closing (← get).flags.vPre)
    return ()
  else
    scan (Scanner.reportAt .missingEndTag e.loc.start)
    let ends ← scan (Scanner.atEnd source)
    scan (Scanner.reportIf source ((ends && State.isCommentLikeScript e.tag children) = true)
      .eofInScriptHtmlCommentLikeText 0)

def finishedChildren (inPre : Bool) (e : Entry) : Checked (List Node) :=
  match e.mode with
  | .rawText | .rcData => return e.children.reverse
  | .data | .cData | .attributeValue =>
    Siblings.settleChecked o source inPre (o.isPreTag e.element.tag) e.children.reverse

/-- Closes the innermost element `e`, which stands on `stack`. -/
def closeElement (e : Entry) (stack : List Entry) : Parser Unit := do
  setStack stack
  let children ← finishedChildren source o (← get).flags.pre e
  let element ← inlineTemplate source o e.element
  endTag source o element children
  let loc ← scan (Scanner.selection source element.loc.start)
  setFlags e.outer
  addElement o { element with loc := loc } children

def cdata : Parser Unit := do
  let s ← get
  let preParent := s.parent.any fun e => o.isPreTag e.tag
  let nodes ← scan (Scanner.cdata source o s.flags.pre preParent)
  addAll nodes

def markup : Parser Unit := do
  let rest ← scan (Scanner.rest source)
  match Markup.ofBytes (Text.bytes rest) with
  | .eof =>
    report source .eofBeforeTagName 1
    text source o
  | .comment => addComment (Scanner.comment source)
  | .doctype => addComment (Scanner.bogusComment source)
  | .cdata =>
    if (← get).parent.any fun e => e.ns != .html then cdata source o
    else
      report source .cdataInHtmlContent 0
      addComment (Scanner.bogusComment source)
  | .declaration =>
    report source .incorrectlyOpenedComment 0
    addComment (Scanner.bogusComment source)
  | .endTagEof =>
    report source .eofBeforeTagName 2
    text source o
  | .namelessEndTag =>
    report source .missingEndTagName 2
    scan (Scanner.advance source 3)
  | .endTag =>
    report source .invalidEndTag 0
    let _ ← scan (Scanner.tag source o .closing (← get).flags.vPre)
    return ()
  | .badEndTag =>
    report source .invalidFirstCharacterOfTagName 2
    addComment (Scanner.bogusComment source)
  | .startTag => openElement source o
  | .instruction =>
    report source .unexpectedQuestionMarkInsteadOfTagName 1
    addComment (Scanner.bogusComment source)
  | .stray =>
    report source .invalidFirstCharacterOfTagName 1
    text source o

/-- Reads an interpolation, or text where it is not closed. -/
def interpolation : Parser Unit := do
  match ← scan (Scanner.interpolation source o (← get).mode) with
  | some i => add (.interpolation i)
  | none => text source o

def node : Parser Unit := do
  let s ← get
  let opens ← scan (Scanner.startsWith source o.openDelimiter)
  let isMarkup ← scan (Scanner.startsWith source ['<'])
  let interpolates := !s.flags.vPre && !o.openDelimiter.isEmpty && opens
  match s.mode with
  | .data =>
    if interpolates then interpolation source o
    else if isMarkup then markup source o
    else text source o
  | .rcData => if interpolates then interpolation source o else text source o
  | .rawText | .cData | .attributeValue => text source o

/-- Reads on until the template is complete. The loop comes round at most `n` times. -/
def readOn : (n : Nat) → Parser Unit
  | 0 => throw .endless
  | n + 1 => do
    if ← atEnd source then
      match (← get).stack with
      | [] => return ()
      | e :: stack =>
        closeElement source o e stack
        readOn n
    else
      node source o
      readOn n

/-- Reads a template. -/
def parse : Checked Template := do
  let (_, s) ← (readOn source o (Text.byteLength source + 1)).run .start
  let children ← Siblings.settleChecked o source s.flags.pre false s.roots.reverse
  let (loc, _) ← (Scanner.selection source .start).run s.scan
  return ⟨⟨children, loc⟩, s.scan.log.errors, s.scan.log.warnings⟩

end

end Parser

end Stencil
