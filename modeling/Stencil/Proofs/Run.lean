import Stencil.Parse

/-! # Runs

What a single step can do, said once, and the states that steps lead to. Whatever is to hold in
every state of every reading is proved for the initial state and for each kind of step.
-/

namespace Stencil

/-- The errors that are reported before a construct is read as something else. -/
def ErrorCode.isNotice : ErrorCode → Bool
  | .eofBeforeTagName | .cdataInHtmlContent | .incorrectlyOpenedComment
  | .invalidFirstCharacterOfTagName | .unexpectedQuestionMarkInsteadOfTagName
  | .missingInterpolationEnd => true
  | _ => false

/-- What may be reported before a construct is read: nothing, or one error at most a few
    characters ahead. -/
inductive Notice (c : Cursor) : Log → Prop where
  | none : Notice c .empty
  | error (code : ErrorCode) (n : Nat) (notice : code.isNotice = true) :
      Notice c (.error code (c.ahead n))

/-- The kind of the markup at a cursor, if there is any. -/
def Cursor.markup? (c : Cursor) : Option Markup :=
  if c.rest.head? = some '<' then some (Markup.classify (c.rest.drop 1)) else none

theorem Cursor.markup?_eq_some {c : Cursor} {k : Markup} (mark : c.rest.head? = some '<')
    (markup : Markup.classify (c.rest.drop 1) = k) : c.markup? = some k := by
  rw [markup?, if_pos mark, markup]

namespace Comment

/-- The comment that markup is, or that it is taken for. -/
def ofMarkup? (c : Cursor) : Markup → Option (Reading Comment)
  | .comment => some (read c)
  | .doctype | .cdata | .declaration | .badEndTag | .instruction => some (readBogus c)
  | .eof | .endTagEof | .namelessEndTag | .endTag | .startTag | .stray => none

/-- The comment at a cursor. -/
def at? (c : Cursor) : Option (Reading Comment) :=
  c.markup?.bind (ofMarkup? c)

theorem eq_of_at? {c : Cursor} {r : Reading Comment} (h : at? c = some r) :
    r = read c ∨ r = readBogus c := by
  obtain ⟨markup, _, found⟩ := Option.bind_eq_some_iff.mp h
  cases markup with
  | comment => exact .inl (Option.some.inj found).symm
  | doctype | cdata | declaration | badEndTag | instruction =>
      exact .inr (Option.some.inj found).symm
  | eof | endTagEof | namelessEndTag | endTag | startTag | stray => cases found

end Comment

namespace State

variable {o : Options} {source : List Char} {s t : State}

/-- What one step can do. -/
inductive Step (o : Options) (source : List Char) (s : State) : State → Prop where
  /-- The innermost element ends. -/
  | close {e : OpenElement} {stack : List OpenElement} (ends : s.atEnd = true)
      (top : s.stack = e :: stack) : Step o source s (s.closeElement o source e stack)
  /-- A run of text. -/
  | text {log : Log} (goes : s.atEnd = false) (notice : Notice s.cursor log) :
      Step o source s ((s.report log).readText o)
  | interpolation {r : Reading Interpolation} (goes : s.atEnd = false)
      (starts : s.startsInterpolation o = true)
      (read : Interpolation.read? o s.mode s.cursor = some r) :
      Step o source s ((s.after r).add (.interpolation r.value))
  /-- A comment, or markup that is taken for one. -/
  | comment {log : Log} {r : Reading Comment} (goes : s.atEnd = false) (data : s.mode = .data)
      (notice : Notice s.cursor log) (read : Comment.at? s.cursor = some r) :
      Step o source s ((s.report log).addComment r)
  | cdata (goes : s.atEnd = false) (data : s.mode = .data)
      (foreign : (s.parent.any fun e => e.ns != .html) = true)
      (markup : Markup.classify (s.cursor.rest.drop 1) = .cdata)
      (mark : s.cursor.rest.head? = some '<') :
      Step o source s (s.readSection o source)
  | namelessEndTag (goes : s.atEnd = false) (data : s.mode = .data)
      (markup : Markup.classify (s.cursor.rest.drop 1) = .namelessEndTag)
      (mark : s.cursor.rest.head? = some '<') :
      Step o source s { s.reportAt .missingEndTagName (s.cursor.ahead 2) with
        cursor := s.cursor.skip 3 }
  /-- An end tag of no open element. -/
  | strayEndTag (goes : s.atEnd = false) (data : s.mode = .data)
      (markup : Markup.classify (s.cursor.rest.drop 1) = .endTag)
      (mark : s.cursor.rest.head? = some '<') :
      Step o source s ((s.reportAt .invalidEndTag s.cursor.position).after
        (Tag.read o .closing s.flags.vPre s.cursor))
  | startTag (goes : s.atEnd = false) (data : s.mode = .data)
      (markup : Markup.classify (s.cursor.rest.drop 1) = .startTag)
      (mark : s.cursor.rest.head? = some '<') (plain : s.startsInterpolation o = false) :
      Step o source s (s.openElement o)

theorem step_of_readMarkup (goes : s.atEnd = false) (data : s.mode = .data)
    (mark : s.cursor.rest.head? = some '<') (plain : s.startsInterpolation o = false) :
    Step o source s (s.readMarkup o source) := by
  have notice : ∀ {code} (n : Nat), code.isNotice = true →
      Notice s.cursor (.error code (s.cursor.ahead n)) := fun n h => .error _ n h
  have comment : ∀ {log k r}, Notice s.cursor log → Markup.classify (s.cursor.rest.drop 1) = k →
      Comment.ofMarkup? s.cursor k = some r → Step o source s ((s.report log).addComment r) := by
    intro log k r notice markup taken
    refine .comment goes data notice ?_
    rw [Comment.at?, Cursor.markup?_eq_some mark markup]
    exact taken
  unfold readMarkup
  dsimp only
  split
  · exact .text goes (notice 1 rfl)
  · next markup => exact comment .none markup rfl
  · next markup => exact comment .none markup rfl
  · next markup =>
    split
    · next foreign => exact .cdata goes data foreign markup mark
    · exact comment (notice 0 rfl) markup rfl
  · next markup => exact comment (notice 0 rfl) markup rfl
  · exact .text goes (notice 2 rfl)
  · next markup => exact .namelessEndTag goes data markup mark
  · next markup => exact .strayEndTag goes data markup mark
  · next markup => exact comment (notice 2 rfl) markup rfl
  · next markup => exact .startTag goes data markup mark plain
  · next markup => exact comment (notice 1 rfl) markup rfl
  · exact .text goes (notice 1 rfl)

theorem step_of_readInterpolation (goes : s.atEnd = false)
    (starts : s.startsInterpolation o = true) : Step o source s (s.readInterpolation o) := by
  unfold readInterpolation
  split
  · next read => exact .interpolation goes starts read
  · exact .text goes (.error _ 0 rfl)

theorem step_of_readNode (goes : s.atEnd = false) : Step o source s (s.readNode o source) := by
  have plain : Step o source s ((s.report .empty).readText o) := .text goes .none
  unfold readNode
  split
  · next data =>
    split
    · next starts => exact step_of_readInterpolation goes starts
    · next off =>
      split
      · next mark =>
        exact step_of_readMarkup goes data (beq_iff_eq.mp mark) (Bool.eq_false_iff.mpr off)
      · exact plain
  · split
    · next starts => exact step_of_readInterpolation goes starts
    · exact plain
  · exact plain
  · exact plain
  · exact plain

/-- A reading that is not done takes one of the steps. -/
theorem step_cases (h : s.isDone = false) : Step o source s (s.step o source) := by
  unfold step
  split
  · next ends =>
    cases top : s.stack with
    | nil => simp [isDone, top, ends] at h
    | cons e stack => exact .close ends top
  · next goes => exact step_of_readNode (by simpa using goes)

theorem step_eq_readNode (o : Options) (source : List Char) (goes : s.atEnd = false) :
    s.step o source = s.readNode o source := by
  simp [step, goes]

theorem step_eq_closeElement (o : Options) (source : List Char) {e : OpenElement}
    {stack : List OpenElement} (ends : s.atEnd = true) (top : s.stack = e :: stack) :
    s.step o source = s.closeElement o source e stack := by
  simp [step, ends, top]

theorem not_isDone_of_top {e : OpenElement} {stack : List OpenElement}
    (top : s.stack = e :: stack) : s.isDone = false := by
  simp [isDone, top]

/-! ## Start tags -/

/-- The start tag at the cursor. -/
def startTag (o : Options) (s : State) : Reading Tag :=
  Tag.read o .opening s.flags.vPre s.cursor

/-- What is switched on inside the element that starts at the cursor. -/
def flagsInside (o : Options) (s : State) : Flags :=
  ⟨s.flags.pre || o.isPreTag (s.startTag o).value.name,
    s.flags.vPre || (s.startTag o).value.startsVPre⟩

/-- The element that starts at the cursor, with the warnings about its start tag. -/
def started (o : Options) (s : State) : Element × List Legacy.Warning :=
  Element.ofTag o (s.flagsInside o).vPre s.parent (s.startTag o).value
    (s.cursor.locationTo (s.startTag o).cursor)

/-- The state after the start tag, before anything is made of it. -/
def afterStartTag (o : Options) (s : State) : State :=
  (s.after (s.startTag o)).report (.ofWarnings (s.started o).2)

/-- The entry for the element that starts at the cursor. -/
def opened (o : Options) (s : State) : OpenElement :=
  ⟨(s.started o).1, s.cursor, (s.startTag o).cursor, o.textModeOf (s.started o).1 s.parent, [],
    s.flags⟩

/-- The element that starts at the cursor cannot have content. -/
def startsEmpty (o : Options) (s : State) : Bool :=
  (s.started o).1.isSelfClosing || o.isVoidTag (s.started o).1.tag

/-- What a start tag can lead to. -/
inductive Opening (o : Options) (s : State) : State → Prop where
  | empty (empty : s.startsEmpty o = true) :
      Opening o s ((s.afterStartTag o).addElement o (s.started o).1 [])
  | tooDeep (content : s.startsEmpty o = false) (deep : o.maxDepth ≤ s.stack.length) :
      Opening o s (((s.afterStartTag o).reportAt .nestingTooDeep s.cursor.position).addElement o
        (s.started o).1 [])
  | opened (content : s.startsEmpty o = false) (room : s.stack.length < o.maxDepth) :
      Opening o s { s.afterStartTag o with
        stack := s.opened o :: s.stack
        flags := s.flagsInside o }

theorem openElement_eq (o : Options) (s : State) :
    s.openElement o =
      if s.startsEmpty o then (s.afterStartTag o).addElement o (s.started o).1 []
      else if o.maxDepth ≤ s.stack.length then
        ((s.afterStartTag o).reportAt .nestingTooDeep s.cursor.position).addElement o
          (s.started o).1 []
      else
        { s.afterStartTag o with
          stack := s.opened o :: s.stack
          flags := s.flagsInside o } := rfl

theorem openElement_cases (o : Options) (s : State) : Opening o s (s.openElement o) := by
  rw [openElement_eq]
  split
  · next empty => exact .empty empty
  · next content =>
    have content : s.startsEmpty o = false := Bool.eq_false_iff.mpr content
    split
    · next deep => exact .tooDeep content deep
    · next room => exact .opened content (Nat.lt_of_not_le room)

/-! ## Ends of elements -/

/-- The innermost element `e` as it will be closed, with the warnings about that. -/
def filled (o : Options) (s : State) (e : OpenElement) : Element × List Legacy.Warning :=
  withInlineTemplate o e.element (e.body.locationTo s.cursor)

/-- The state after the end tag of the innermost element `e`, if it has one, while nothing is made
    of the element yet. -/
def afterEndTag (o : Options) (source : List Char) (s : State) (e : OpenElement)
    (stack : List OpenElement) : State :=
  ({ s with stack := stack }.report (.ofWarnings (s.filled o e).2)).readEndTag o (s.filled o e).1
    (finishedChildren o source s.flags.pre e)

/-- The innermost element `e` once it is closed. -/
def closed (o : Options) (source : List Char) (s : State) (e : OpenElement)
    (stack : List OpenElement) : Element :=
  { (s.filled o e).1 with loc := e.start.locationTo (s.afterEndTag o source e stack).cursor }

theorem closeElement_eq (o : Options) (source : List Char) (s : State) (e : OpenElement)
    (stack : List OpenElement) :
    s.closeElement o source e stack =
      { s.afterEndTag o source e stack with flags := e.outer }.addElement o
        (s.closed o source e stack) (finishedChildren o source s.flags.pre e) := rfl

theorem reaches_afterEndTag (o : Options) (source : List Char) (s : State) (e : OpenElement)
    (stack : List OpenElement) : s.cursor.Reaches (s.afterEndTag o source e stack).cursor :=
  reaches_readEndTag o ({ s with stack := stack }.report (.ofWarnings (s.filled o e).2)) _ _

/-! ## Reachable states -/

/-- The states that reading a template goes through. -/
inductive Reachable (o : Options) (source : List Char) : State → Prop where
  | initial : Reachable o source (initial source)
  | step {s : State} : Reachable o source s → s.isDone = false →
      Reachable o source (s.step o source)

/-- An exact number of steps, each from a state that is not done. -/
inductive Steps (o : Options) (source : List Char) : Nat → State → State → Prop where
  | refl (s : State) : Steps o source 0 s s
  | step {n : Nat} {s t : State} : s.isDone = false → Steps o source n (s.step o source) t →
      Steps o source (n + 1) s t

theorem Reachable.steps {n : Nat} (h : Reachable o source s) (k : Steps o source n s t) :
    Reachable o source t := by
  induction k with
  | refl => exact h
  | step goes _ ih => exact ih (h.step goes)

/-- Reading takes at most as many steps as the state is large, and ends in a state that is done. -/
theorem steps_run (o : Options) (source : List Char) (s : State) :
    (s.run o source).isDone = true ∧ ∃ n, n ≤ s.size ∧ Steps o source n s (s.run o source) := by
  fun_induction run o source s with
  | case1 s done => exact ⟨done, 0, Nat.zero_le _, .refl s⟩
  | case2 s goes ih =>
      obtain ⟨done, n, bound, steps⟩ := ih
      have goes : s.isDone = false := by simpa using goes
      have smaller := size_step_lt o source goes
      exact ⟨done, n + 1, by omega, .step goes steps⟩

/-- The result of reading is that of a state that is reached and done. -/
theorem exists_reachable_result (o : Options) (source : List Char) :
    ∃ s, Reachable o source s ∧ s.isDone = true ∧ parse o source = s.result o source := by
  obtain ⟨done, n, _, steps⟩ := steps_run o source (initial source)
  exact ⟨_, Reachable.initial.steps steps, done, rfl⟩

/-- Outside of all elements, reading is only done at the end of the template. -/
theorem rest_of_isDone (h : s.isDone = true) : s.stack = [] ∧ s.cursor.rest = [] := by
  rw [isDone, Bool.and_eq_true, List.isEmpty_iff] at h
  obtain ⟨empty, ends⟩ := h
  refine ⟨empty, ?_⟩
  simpa [atEnd, mode, empty, Cursor.atEnd] using ends

/-- Where nothing ends, there is something to read. -/
theorem rest_ne_nil (goes : s.atEnd = false) : s.cursor.rest ≠ [] := by
  intro none
  simp [atEnd, Cursor.atEnd, none] at goes

end State

end Stencil
