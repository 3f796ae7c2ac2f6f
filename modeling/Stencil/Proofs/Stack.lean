import Stencil.Proofs.EndTag
import Stencil.Proofs.Spans.State

/-! # The stack of open elements

What steps do to the open elements. A step puts one element on the stack, or takes the innermost
one off it, or leaves the stack alone except that the innermost element receives nodes. Elements
are only opened where markup is read, so only the innermost element can hold anything else.
-/

namespace Stencil

namespace OpenElement

/-- An open element apart from its children. -/
def bare (e : OpenElement) : OpenElement :=
  { e with children := [] }

/-- An open element that has got more children. -/
def receive (nodes : List Node) (e : OpenElement) : OpenElement :=
  { e with children := nodes.foldl (fun list node => Siblings.push node list) e.children }

/-- The error of an element that ends without an end tag, at the start of the element. -/
def missing (e : OpenElement) : ParseError :=
  .at .missingEndTag e.element.loc.start

@[simp]
theorem missing_bare (e : OpenElement) : e.bare.missing = e.missing := rfl

end OpenElement

/-- What becomes of a finished element: the element, or its children where it is a plain
    `template` and that legacy is honoured. -/
def Element.finished (o : Options) (e : Element) (children : List Node) : List Node :=
  if e.tag == "template".toList && Legacy.isEnabled o.legacy .nativeTemplate &&
      !e.props.any Property.isStructural then children
  else [.element e children]

namespace State

variable {o : Options} {source : List Char} {s t : State}

/-- The innermost open element receives nodes. -/
def receive (nodes : List Node) : List OpenElement → List OpenElement
  | [] => []
  | e :: stack => e.receive nodes :: stack

@[simp]
theorem map_bare_receive (nodes : List Node) (stack : List OpenElement) :
    (receive nodes stack).map OpenElement.bare = stack.map OpenElement.bare := by
  cases stack <;> rfl

@[simp]
theorem tail_receive (nodes : List Node) (stack : List OpenElement) :
    (receive nodes stack).tail = stack.tail := by
  cases stack <;> rfl

theorem receive_append (xs ys : List Node) (stack : List OpenElement) :
    receive (xs ++ ys) stack = receive ys (receive xs stack) := by
  cases stack with
  | nil => rfl
  | cons e stack => simp only [receive, OpenElement.receive, List.foldl_append]

theorem receive_nil (stack : List OpenElement) : receive [] stack = stack := by
  cases stack <;> rfl

theorem stack_add (s : State) (node : Node) : (s.add node).stack = receive [node] s.stack := by
  unfold add
  split
  · next empty => rw [empty]; rfl
  · next e stack top => rw [top]; rfl

theorem stack_addAll (s : State) (nodes : List Node) :
    (s.addAll nodes).stack = receive nodes s.stack := by
  induction nodes generalizing s with
  | nil => exact (receive_nil s.stack).symm
  | cons node nodes ih =>
      rw [addAll, List.foldl_cons, ← addAll, ih, stack_add, ← receive_append]
      rfl

theorem stack_addElement (o : Options) (s : State) (e : Element) (children : List Node) :
    (s.addElement o e children).stack = receive (e.finished o children) s.stack := by
  unfold addElement Element.finished
  split
  · rw [stack_addAll, stack_report]
  · exact stack_add s _

@[simp]
theorem errors_add (s : State) (node : Node) : (s.add node).errors = s.errors := by
  unfold add
  split <;> rfl

@[simp]
theorem errors_addAll (s : State) (nodes : List Node) : (s.addAll nodes).errors = s.errors := by
  induction nodes generalizing s with
  | nil => rfl
  | cons node nodes ih => rw [addAll, List.foldl_cons, ← addAll, ih, errors_add]

@[simp]
theorem errors_addElement (o : Options) (s : State) (e : Element) (children : List Node) :
    (s.addElement o e children).errors = s.errors := by
  unfold addElement
  split
  · rw [errors_addAll]
    rfl
  · exact errors_add s _

theorem filled_tag (o : Options) (s : State) (e : OpenElement) :
    (s.filled o e).1.tag = e.element.tag := by
  unfold filled withInlineTemplate
  split
  · split <;> rfl
  · rfl

theorem filled_loc (o : Options) (s : State) (e : OpenElement) :
    (s.filled o e).1.loc = e.element.loc :=
  withInlineTemplate_loc o e.element _

/-! ## Closing an element -/

theorem stack_closeElement (o : Options) (source : List Char) (s : State) (e : OpenElement)
    (stack : List OpenElement) :
    (s.closeElement o source e stack).stack =
      receive ((s.closed o source e stack).finished o (finishedChildren o source s.flags.pre e))
        stack := by
  rw [closeElement_eq, stack_addElement]
  simp only [afterEndTag, stack_readEndTag, stack_report]

/-- An element that is closed by its end tag takes the tag in. -/
theorem closeElement_matched (o : Options) (source : List Char) (e : OpenElement)
    (stack : List OpenElement) (h : Tag.startsEndTag e.element.tag s.cursor.rest = true) :
    (s.closeElement o source e stack).cursor = (Tag.read o .closing s.flags.vPre s.cursor).cursor ∧
      (s.closeElement o source e stack).errors =
        (Tag.read o .closing s.flags.vPre s.cursor).log.errors.reverse ++ s.errors := by
  have ended : s.afterEndTag o source e stack =
      ({ s with stack := stack }.report (.ofWarnings (s.filled o e).2)).after
        (Tag.read o .closing s.flags.vPre s.cursor) := by
    unfold afterEndTag readEndTag
    rw [filled_tag]
    exact if_pos h
  rw [closeElement_eq, cursor_addElement, errors_addElement, ended]
  exact ⟨rfl, rfl⟩

/-- An element that is closed by something else takes nothing in and is reported. -/
theorem closeElement_unmatched (o : Options) (source : List Char) (e : OpenElement)
    (stack : List OpenElement) (h : Tag.startsEndTag e.element.tag s.cursor.rest = false) :
    (s.closeElement o source e stack).cursor = s.cursor ∧
      ∃ more : List ParseError, (∀ x ∈ more, x.code = .eofInScriptHtmlCommentLikeText) ∧
        (s.cursor.rest ≠ [] → more = []) ∧
        (s.closeElement o source e stack).errors = more ++ e.missing :: s.errors := by
  rw [closeElement_eq, cursor_addElement, errors_addElement, afterEndTag, readEndTag, filled_tag,
    filled_loc, if_neg (by rw [cursor_report, h]; exact Bool.false_ne_true)]
  dsimp only
  split
  · next cut =>
    refine ⟨rfl, [.at .eofInScriptHtmlCommentLikeText s.cursor.position], ?_, ?_, rfl⟩
    · intro x hx
      cases List.mem_singleton.mp hx
      rfl
    · intro more
      rw [Bool.and_eq_true] at cut
      exact absurd (List.isEmpty_iff.mp cut.1) more
  · exact ⟨rfl, [], fun _ hx => (nomatch hx), fun _ => rfl, rfl⟩

/-! ## What steps do to the stack -/

/-- Between `s` and `t` no end tag is reported as missing. -/
def NoneMissing (s t : State) : Prop :=
  ∃ es : List ParseError, t.errors = es ++ s.errors ∧ ∀ x ∈ es, x.code ≠ .missingEndTag

theorem NoneMissing.of_eq (h : t.errors = s.errors) : NoneMissing s t :=
  ⟨[], h, fun _ hx => nomatch hx⟩

theorem NoneMissing.trans {u : State} (h : NoneMissing s t) (k : NoneMissing t u) :
    NoneMissing s u := by
  obtain ⟨es, first, notFirst⟩ := h
  obtain ⟨fs, second, notSecond⟩ := k
  refine ⟨fs ++ es, by rw [second, first, List.append_assoc], ?_⟩
  intro x hx
  rcases List.mem_append.mp hx with hx | hx
  · exact notSecond x hx
  · exact notFirst x hx

theorem noneMissing_report {log : Log} (s : State) (h : log.Local) :
    NoneMissing s (s.report log) := by
  refine ⟨log.errors.reverse, rfl, fun x hx => ?_⟩
  exact h.ne rfl x (List.mem_reverse.mp hx)

theorem noneMissing_reportAt {code : ErrorCode} (s : State) (p : Position)
    (h : code ≠ .missingEndTag) : NoneMissing s (s.reportAt code p) := by
  refine ⟨[.at code p], rfl, fun x hx => ?_⟩
  cases List.mem_singleton.mp hx
  exact h

theorem noneMissing_after {α : Type} {r : Reading α} (s : State) (h : r.log.Local) :
    NoneMissing s (s.after r) :=
  noneMissing_report { s with cursor := r.cursor } h

theorem noneMissing_afterStartTag (o : Options) (s : State) :
    NoneMissing s (s.afterStartTag o) :=
  (noneMissing_after s (Tag.read_local o .opening s.flags.vPre s.cursor)).trans
    (noneMissing_report _ fun _ hx => nomatch hx)

/-- What a step from `s` to `t` does to the open elements. -/
inductive StackStep (o : Options) (source : List Char) (s t : State) : Prop where
  /-- The innermost element is closed, and the next one receives it. -/
  | closed {e : OpenElement} {stack : List OpenElement} (ends : s.atEnd = true)
      (top : s.stack = e :: stack) (result : t = s.closeElement o source e stack)
  /-- An element is opened where markup is read. -/
  | opened (data : s.mode = .data)
      (markup : Markup.classify (s.cursor.rest.drop 1) = .startTag)
      (result : t = { s.afterStartTag o with
        stack := s.opened o :: s.stack
        flags := s.flagsInside o })
  /-- The innermost element receives nodes. -/
  | kept (nodes : List Node) (stack : t.stack = receive nodes s.stack)
      (errors : NoneMissing s t)

theorem Opening.stackStep (k : Opening o s t) (data : s.mode = .data)
    (markup : Markup.classify (s.cursor.rest.drop 1) = .startTag) : StackStep o source s t := by
  have read := noneMissing_afterStartTag o s
  cases k with
  | empty =>
      exact .kept _ (stack_addElement o _ _ _) (read.trans (.of_eq (errors_addElement o _ _ _)))
  | tooDeep =>
      refine .kept _ (stack_addElement o _ _ _) (read.trans ?_)
      exact (noneMissing_reportAt _ _ (by decide)).trans (.of_eq (errors_addElement o _ _ _))
  | opened => exact .opened data markup rfl

theorem Step.stackStep (k : Step o source s t) : StackStep o source s t := by
  cases k with
  | close ends top => exact .closed ends top rfl
  | text _ notice =>
      exact .kept _ (stack_add _ _) ((noneMissing_report s notice.isLocal).trans
        (.of_eq (errors_add _ _)))
  | interpolation _ _ read =>
      exact .kept _ (stack_add _ _) ((noneMissing_after s (Interpolation.read?_local read)).trans
        (.of_eq (errors_add _ _)))
  | comment _ _ notice read =>
      exact .kept _ (stack_add _ _) (((noneMissing_report s notice.isLocal).trans
        (noneMissing_after _ (Comment.at?_local read))).trans (.of_eq (errors_add _ _)))
  | cdata =>
      exact .kept _ (stack_addAll _ _) ((noneMissing_after s
        (TextNode.readSection_local s.cursor)).trans (.of_eq (errors_addAll _ _)))
  | namelessEndTag =>
      exact .kept [] (receive_nil _).symm (noneMissing_reportAt s _ (by decide))
  | strayEndTag =>
      exact .kept [] (receive_nil _).symm ((noneMissing_reportAt s _ (by decide)).trans
        (noneMissing_after _ (Tag.read_local o .closing s.flags.vPre s.cursor)))
  | startTag _ data markup => exact (openElement_cases o s).stackStep data markup

/-! ## What holds of the stack in every state -/

/-- The tag of an element that starts at the cursor can be the name of an end tag. -/
theorem wellNamed_started (markup : Markup.classify (s.cursor.rest.drop 1) = .startTag) :
    Tag.WellNamed (s.started o).1.tag := by
  obtain ⟨c, rest, text, letter⟩ := exists_of_classify_startTag markup
  have name : (s.started o).1.tag = (c :: rest).takeWhile fun d => !Tag.isBreak d := by
    change ((s.cursor.rest.drop 1).takeWhile fun d => !Tag.isBreak d) = _
    rw [text]
  rw [name]
  refine ⟨?_, ?_⟩
  · simp [Tag.not_isBreak_of_isNameStart letter]
  · intro d hd
    simpa using List.all_eq_true.mp List.all_takeWhile d hd

/-- What holds of the open elements in every state: only the innermost one may hold something else
    than markup, each has a tag that an end tag can name, and each starts where it says. -/
structure Disciplined (s : State) : Prop where
  modes : ∀ e ∈ s.stack.tail, e.mode = .data
  names : ∀ e ∈ s.stack, Tag.WellNamed e.element.tag
  starts : ∀ e ∈ s.stack, e.element.loc.start = e.start.position

theorem exists_of_mem_receive {nodes : List Node} {stack : List OpenElement} {e : OpenElement}
    (h : e ∈ receive nodes stack) : ∃ e' ∈ stack, e'.bare = e.bare := by
  have member := List.mem_map_of_mem (f := OpenElement.bare) h
  rw [map_bare_receive] at member
  exact List.mem_map.mp member

theorem Disciplined.of_receive {nodes : List Node} {stack : List OpenElement}
    (h : Disciplined { s with stack := stack }) (k : t.stack = receive nodes stack) :
    Disciplined t where
  modes e he := by
    rw [k, tail_receive] at he
    exact h.modes e he
  names e he := by
    rw [k] at he
    obtain ⟨e', he', same⟩ := exists_of_mem_receive he
    have tag := congrArg (fun x => x.element.tag) same
    exact tag ▸ h.names e' he'
  starts e he := by
    rw [k] at he
    obtain ⟨e', he', same⟩ := exists_of_mem_receive he
    have place := congrArg (fun x => x.element.loc.start) same
    have start := congrArg (fun x => x.start.position) same
    exact (place.symm.trans (h.starts e' he')).trans start

theorem mode_of_top {e : OpenElement} {stack : List OpenElement} (top : s.stack = e :: stack) :
    s.mode = e.mode := by
  rw [mode, top]
  rfl

/-- Where markup is read, every open element holds markup. -/
theorem Disciplined.data (h : Disciplined s) (data : s.mode = .data) :
    ∀ e ∈ s.stack, e.mode = .data := by
  intro e he
  cases top : s.stack with
  | nil =>
      rw [top] at he
      cases he
  | cons d stack =>
      rw [top] at he
      rcases List.mem_cons.mp he with rfl | he
      · exact (mode_of_top top).symm.trans data
      · exact h.modes e (by rw [top]; exact he)

theorem StackStep.disciplined (k : StackStep o source s t) (h : Disciplined s) :
    Disciplined t := by
  cases k with
  | @closed e stack _ top result =>
      have below : Disciplined { s with stack := stack } := by
        refine ⟨fun x hx => ?_, fun x hx => ?_, fun x hx => ?_⟩
        · exact h.modes x (by rw [top]; exact List.mem_of_mem_tail hx)
        · exact h.names x (by rw [top]; exact List.mem_cons_of_mem e hx)
        · exact h.starts x (by rw [top]; exact List.mem_cons_of_mem e hx)
      exact below.of_receive (result ▸ stack_closeElement o source s e stack)
  | opened data markup result =>
      subst result
      refine ⟨h.data data, ?_, ?_⟩
      · intro e he
        rcases List.mem_cons.mp he with rfl | he
        · exact wellNamed_started markup
        · exact h.names e he
      · intro e he
        rcases List.mem_cons.mp he with rfl | he
        · rfl
        · exact h.starts e he
  | kept nodes stack errors => exact Disciplined.of_receive (s := s) h stack

/-- The stack of open elements is in order in every state of a reading. -/
theorem Reachable.disciplined (h : Reachable o source s) : Disciplined s := by
  induction h with
  | initial =>
      exact ⟨fun _ he => (nomatch he), fun _ he => (nomatch he), fun _ he => (nomatch he)⟩
  | step _ goes ih => exact (step_cases goes).stackStep.disciplined ih

end State

end Stencil
