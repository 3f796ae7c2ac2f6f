import Stencil.Proofs.Origin

/-! # What is switched on where

Two things are switched on by start tags and hold inside of the element: white space is kept, and
directives are off. The reader keeps them as flags that it sets when an element is opened and sets
back when the element is closed. In every state the flags are what the open elements make of them,
and so are the flags that each open element keeps for the time after it.
-/

namespace Stencil

namespace OpenElement

/-- The start tag of an open element, read as it was when the element was opened. -/
def startTag (o : Options) (e : OpenElement) : Reading Tag :=
  Tag.read o .opening e.outer.vPre e.start

/-- The start tag of the element switched directives off. -/
def switchesVPre (o : Options) (e : OpenElement) : Bool :=
  (e.startTag o).value.startsVPre

/-- The entry is that of the element that its start tag stands for. -/
structure Stems (o : Options) (e : OpenElement) : Prop where
  tag : e.element.tag = (e.startTag o).value.name
  props : e.element.props = (e.startTag o).value.props
  body : e.body = (e.startTag o).cursor

end OpenElement

/-- What is switched on inside of the open elements `stack`: white space is kept if one of them
    keeps it, and directives are off if the start tag of one of them switched them off. -/
def Flags.within (o : Options) (stack : List OpenElement) : Flags where
  pre := stack.any fun e => o.isPreTag e.element.tag
  vPre := stack.any (·.switchesVPre o)

namespace State

variable {o : Options} {source : List Char} {s t : State} {flags : Flags} {e : OpenElement}
  {stack below : List OpenElement}

theorem OpenedBy.outer (h : OpenedBy o source t flags e below s) : e.outer = s.flags :=
  congrArg OpenElement.outer h.entry

theorem OpenedBy.startTag (h : OpenedBy o source t flags e below s) :
    e.startTag o = s.startTag o := by
  have start : e.start = s.cursor := congrArg OpenElement.start h.entry
  rw [OpenElement.startTag, h.outer, start]
  rfl

theorem OpenedBy.stems (h : OpenedBy o source t flags e below s) : e.Stems o := by
  have element : e.element = (s.started o).1 := congrArg OpenElement.element h.entry
  have body : e.body = (s.startTag o).cursor := congrArg OpenElement.body h.entry
  refine ⟨?_, ?_, ?_⟩
  · rw [element, h.startTag]
    rfl
  · rw [element, h.startTag]
    rfl
  · rw [body, h.startTag]

/-- An element adds to the flags outside of it what its own start tag switches on. -/
theorem OpenedBy.flags_eq (h : OpenedBy o source t flags e below s)
    (outer : e.outer = .within o below) : flags = .within o (e :: below) := by
  have inside : flags = ⟨e.outer.pre || o.isPreTag (e.startTag o).value.name,
      e.outer.vPre || (e.startTag o).value.startsVPre⟩ := by
    rw [← h.flags, h.outer, h.startTag]
    rfl
  rw [inside, outer, ← h.stems.tag, Bool.or_comm, Bool.or_comm (Flags.within o below).vPre]
  rfl

/-- The flags inside of the open elements are what these make of them. -/
theorem StackDerived.flags_eq (h : StackDerived o source t flags stack) :
    flags = .within o stack := by
  induction stack generalizing flags with
  | nil => exact h
  | cons e below ih =>
      obtain ⟨⟨s, opened⟩, _, outer⟩ := h
      exact opened.flags_eq (ih outer)

/-- The same holds further down, at every open element. -/
theorem StackDerived.outer {above : List OpenElement}
    (h : StackDerived o source t flags (above ++ e :: below)) :
    e.Stems o ∧ e.outer = .within o below := by
  induction above generalizing flags with
  | nil =>
      obtain ⟨⟨s, opened⟩, _, outer⟩ := h
      exact ⟨opened.stems, outer.flags_eq⟩
  | cons d above ih =>
      obtain ⟨_, _, outer⟩ := h
      exact ih outer

theorem Reachable.flags_within (h : Reachable o source s) : s.flags = .within o s.stack :=
  h.derives.stack.flags_eq

theorem Reachable.outer_within (h : Reachable o source s) {above : List OpenElement}
    (split : s.stack = above ++ e :: below) : e.Stems o ∧ e.outer = .within o below := by
  have derived := h.derives.stack
  rw [split] at derived
  exact derived.outer

/-- An element that is finished at its start tag leaves the flags and the open elements as they
    are. -/
theorem Opens.flags_of_finished (h : s.Opens o)
    (finished : s.startsEmpty o = true ∨ o.maxDepth ≤ s.stack.length) :
    (s.step o source).flags = s.flags ∧
      (s.step o source).stack.map OpenElement.bare = s.stack.map OpenElement.bare := by
  have added : ∀ t : State, t.flags = s.flags → t.stack = s.stack →
      (t.addElement o (s.started o).1 []).flags = s.flags ∧
        (t.addElement o (s.started o).1 []).stack.map OpenElement.bare =
          s.stack.map OpenElement.bare := by
    intro t flags stack
    rw [stack_addElement, map_bare_receive, stack]
    refine ⟨?_, rfl⟩
    unfold addElement
    split
    · exact flags
    · rw [flags_add]
      exact flags
  rw [h.step_eq, openElement_eq]
  split
  · exact added _ rfl rfl
  · next content =>
    have deep := finished.resolve_left content
    rw [if_pos deep]
    exact added _ rfl rfl

/-- The children of an element are settled under its own flags, and then the flags are those of the
    elements around it. -/
theorem Reachable.step_of_atEnd (h : Reachable o source s) (ends : s.atEnd = true)
    (top : s.stack = e :: below) :
    s.step o source =
      { s.afterEndTag o source e below with flags := .within o below }.addElement o
        (s.closed o source e below)
        (finishedChildren o source (Flags.within o (e :: below)).pre e) := by
  have split : s.stack = [] ++ e :: below := top
  have outer := (h.outer_within split).2
  have now := h.flags_within
  rw [top] at now
  rw [step_eq_closeElement o source ends top, closeElement_eq, outer, now]

end State

open State in
/-- The flags are scoped to elements. In every state of a reading they are what the open elements
    make of them, and each open element keeps the flags that the elements around it make. An element
    that is finished at its start tag changes nothing for what follows. When an element is closed,
    its children are settled under its own flags and reading goes on under those of the elements
    around it; outside of all elements, in the end too, nothing is switched on. -/
theorem parse_scopes_flags (o : Options) (source : List Char) :
    (∀ s, Reachable o source s →
      s.flags = .within o s.stack ∧
      (∀ above e below, s.stack = above ++ e :: below → e.Stems o ∧ e.outer = .within o below) ∧
      (s.Opens o → (s.startsEmpty o = true ∨ o.maxDepth ≤ s.stack.length) →
        (s.step o source).flags = s.flags ∧
          (s.step o source).stack.map OpenElement.bare = s.stack.map OpenElement.bare) ∧
      ∀ e below, s.atEnd = true → s.stack = e :: below →
        s.step o source =
          { s.afterEndTag o source e below with flags := .within o below }.addElement o
            (s.closed o source e below)
            (finishedChildren o source (Flags.within o (e :: below)).pre e)) ∧
    ((initial source).run o source).flags = ⟨false, false⟩ ∧
    (parse o source).root.children =
      Siblings.settle o source false false ((initial source).run o source).roots.reverse := by
  obtain ⟨done, n, _, steps⟩ := steps_run o source (initial source)
  have last := (Reachable.initial.steps steps).flags_of_nil (rest_of_isDone done).1
  refine ⟨fun s reached => ⟨reached.flags_within, fun above e below => reached.outer_within,
    Opens.flags_of_finished, fun e below => reached.step_of_atEnd⟩, last, ?_⟩
  rw [parse, result, last]

open State in
/-- Inside of an element that keeps white space and of one that switches directives off, with a
    tag in between that is finished at once. -/
theorem parse_scopes_flags_nested :
    let o := { Options.base with isPreTag := (· == "pre".toList) }
    let source := "<pre><br/><b v-pre>".toList
    ∃ s, Reachable o source s ∧ s.stack.map (·.element.tag) = ["b".toList, "pre".toList] ∧
      s.flags = ⟨true, true⟩ ∧ Flags.within o s.stack = ⟨true, true⟩ ∧
      ∀ above e below, s.stack = above ++ e :: below → e.Stems o ∧ e.outer = .within o below := by
  intro o source
  have reached : Reachable o source
      ((((initial source).step o source).step o source).step o source) :=
    .step (.step (.step .initial (by decide +kernel)) (by decide +kernel)) (by decide +kernel)
  have flags : ((((initial source).step o source).step o source).step o source).flags =
      ⟨true, true⟩ := by decide +kernel
  obtain ⟨now, saved, _⟩ := (parse_scopes_flags o source).1 _ reached
  exact ⟨_, reached, by decide +kernel, flags, now.symm.trans flags, saved⟩

end Stencil
