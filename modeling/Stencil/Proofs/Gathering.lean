import Stencil.Proofs.Apart
import Stencil.Proofs.Bytewise.Mark
import Stencil.Proofs.Growth

/-! # Siblings as they are gathered

Where nothing legacy is honoured and there are no CDATA sections, siblings are read one behind the
other: each starts where the one before ends, unless an end tag was passed over in between. So what
is to hold of every list that a reading gathers need only be shown for the empty list, for a node
that is read right behind the others, and for an end tag that is passed over.
-/

namespace Stencil

/-- The end tags that are passed over without a node: those of no open element, and those without a
    name. -/
def ErrorCode.isPassedOver : ErrorCode → Bool
  | .invalidEndTag | .missingEndTagName => true
  | _ => false

/-- It is reported that an end tag at the offset `i` was passed over. -/
def ParseError.PassedOver (errors : List ParseError) (i : Nat) : Prop :=
  ∃ x ∈ errors, x.code.isPassedOver = true ∧ x.loc.map (·.start.offset) = some i

/-- A mode in which text may be read. -/
def Options.Uses (o : Options) (mode : TextMode) : Prop :=
  mode = .data ∨ ∃ e parent, mode = o.textModeOf e parent

/-- A property of siblings, newest first, that were read on the way between two cursors, and that is
    kept on the way; `errors` is what is reported about the template. -/
structure Siblings.Gathers (o : Options) (errors : List ParseError)
    (P : Cursor → Cursor → List Node → Prop) : Prop where
  nil (a : Cursor) : P a a []
  text {a m : Cursor} {nodes : List Node} {mode : TextMode} (uses : o.Uses mode)
    (more : m.rest ≠ []) (h : P a m nodes) : P a (TextNode.read o mode m).cursor
      (push (.text (TextNode.read o mode m).value) nodes)
  other {a m b : Cursor} {nodes : List Node} {node : Node} (other : node.kind ≠ .text)
    (forward : m.Reaches b) (place : node.loc = m.locationTo b) (h : P a m nodes) :
    P a b (node :: nodes)
  endTag {a m b : Cursor} {nodes : List Node} {i : Nat} (forward : m.Reaches b)
    (passed : ParseError.PassedOver errors i) (after : m.position.offset ≤ i)
    (before : i < b.position.offset) (h : P a m nodes) : P a b nodes

namespace State

variable {o : Options} {source : List Char} {errors : List ParseError} {s t : State}
  {P : Cursor → Cursor → List Node → Prop} {roots nodes : List Node} {node : Node}
  {stack : List OpenElement} {a b c m : Cursor}

/-- The property holds of the nodes outside of all elements, and then of those inside each open
    element, up to the start tag of the next one and at last up to `c`. -/
def StackGathers (P : Cursor → Cursor → List Node → Prop) (roots : List Node) (a : Cursor) :
    List OpenElement → Cursor → Prop
  | [], c => P a c roots
  | e :: stack, c => P e.body c e.children ∧ StackGathers P roots a stack e.start

/-- The property holds of every list that was gathered from `source` up to `m`. -/
def Gathered (P : Cursor → Cursor → List Node → Prop) (source : List Char) (m : Cursor)
    (s : State) : Prop :=
  StackGathers P s.roots (.ofText source) s.stack m

/-- What changes in the innermost list is all that changes. -/
theorem StackGathers.last (h : StackGathers P roots a stack m)
    (keeps : ∀ a nodes, P a m nodes → P a b nodes) : StackGathers P roots a stack b := by
  cases stack with
  | nil => exact keeps a roots h
  | cons e stack => exact ⟨keeps e.body e.children h.1, h.2⟩

theorem Gathered.add (h : Gathered P source m s)
    (keeps : ∀ a nodes, P a m nodes → P a b (Siblings.push node nodes)) :
    Gathered P source b (s.add node) := by
  unfold Gathered at h ⊢
  unfold State.add
  split
  · next empty =>
    rw [empty] at h
    dsimp only
    rw [empty]
    exact keeps _ _ h
  · next e stack top =>
    rw [top] at h
    exact ⟨keeps _ _ h.1, h.2⟩

section

variable (gathers : Siblings.Gathers o errors P)

include gathers

theorem Gathered.addOther (h : Gathered P source m s) (other : node.kind ≠ .text)
    (forward : m.Reaches b) (place : node.loc = m.locationTo b) :
    Gathered P source b (s.add node) := by
  refine h.add fun a nodes h => ?_
  rw [push_of_ne other]
  exact gathers.other other forward place h

theorem Gathered.addElement {e : Element} (modern : o.legacy = none) (h : Gathered P source m s)
    (forward : m.Reaches b) (place : e.loc = m.locationTo b) :
    Gathered P source b (s.addElement o e nodes) := by
  rw [State.addElement, modern]
  simp only [Legacy.isEnabled, Option.any_none, Bool.and_false, Bool.false_and, Bool.false_eq_true,
    if_false]
  exact h.addOther gathers (by rintro ⟨⟩) forward place

theorem Gathered.readText (uses : o.Uses s.mode) (more : s.cursor.rest ≠ [])
    (h : Gathered P source s.cursor s) :
    Gathered P source (s.readText o).cursor (s.readText o) := by
  rw [State.readText, cursor_add, cursor_after]
  exact Gathered.add (s := s.after _) h fun a nodes h => gathers.text uses more h

theorem Gathered.addComment {r : Reading Comment} (h : Gathered P source s.cursor s)
    (read : r = Comment.read s.cursor ∨ r = Comment.readBogus s.cursor) :
    Gathered P source (s.addComment r).cursor (s.addComment r) := by
  obtain ⟨forward, place⟩ := Comment.place_of_read read
  rw [State.addComment, cursor_add, cursor_after]
  exact Gathered.addOther (s := s.after r) gathers h (by rintro ⟨⟩) forward place

theorem Gathered.closeElement {e : OpenElement} (modern : o.legacy = none)
    (placed : Placed source s) (h : Gathered P source s.cursor s) (top : s.stack = e :: stack) :
    Gathered P source (s.closeElement o source e stack).cursor
      (s.closeElement o source e stack) := by
  have spans := placed.nodes
  rw [top] at spans
  have forward := (spans.1.tag.trans spans.1.children.reaches).trans
    (s.reaches_afterEndTag o source e stack)
  unfold Gathered at h
  rw [top] at h
  rw [closeElement_eq, cursor_addElement]
  refine Gathered.addElement gathers modern ?_ forward rfl
  simp only [Gathered, afterEndTag, stack_readEndTag, (flags_readEndTag o _ _ _).2]
  exact h.2

theorem Opening.gathered (k : Opening o s t) (modern : o.legacy = none)
    (h : Gathered P source s.cursor s) : Gathered P source t.cursor t := by
  have read := Tag.read_sound o .opening s.flags.vPre s.cursor s.cursor s.cursor
  cases k with
  | empty =>
      rw [cursor_addElement]
      exact Gathered.addElement (s := s.afterStartTag o) gathers modern h read.reaches rfl
  | tooDeep =>
      rw [cursor_addElement]
      exact Gathered.addElement (s := (s.afterStartTag o).reportAt _ _) gathers modern h
        read.reaches rfl
  | opened => exact ⟨gathers.nil _, h⟩

end

/-- The entry of the innermost element was made when its start tag was read. -/
theorem Reachable.opened {e : OpenElement} (h : Reachable o source s)
    (top : s.stack = e :: stack) : ∃ u : State, e.bare = u.opened o := by
  have derived := h.derives.stack
  rw [top] at derived
  obtain ⟨⟨u, opened⟩, _⟩ := derived
  exact ⟨u, opened.entry⟩

theorem Reachable.uses_top {e : OpenElement} (h : Reachable o source s)
    (top : s.stack = e :: stack) : o.Uses e.mode := by
  obtain ⟨u, entry⟩ := h.opened top
  exact .inr ⟨_, _, congrArg OpenElement.mode entry⟩

theorem Reachable.uses (h : Reachable o source s) : o.Uses s.mode := by
  cases top : s.stack with
  | nil =>
      rw [mode, top]
      exact .inl rfl
  | cons e stack =>
      rw [mode_of_top top]
      exact h.uses_top top

/-- Where every element is one of HTML there are no CDATA sections. -/
theorem Reachable.html (h : Reachable o source s)
    (html : ∀ tag parent, o.namespaceOf tag parent = .html) :
    (s.parent.any fun e => e.ns != .html) = false := by
  cases top : s.stack with
  | nil => rw [parent, top]; rfl
  | cons e stack =>
      obtain ⟨u, entry⟩ := h.opened top
      have started : e.element = (u.started o).1 := congrArg OpenElement.element entry
      have ns : e.element.ns = .html := by
        rw [started]
        exact html _ _
      simp [parent, top, ns]

/-- The position that is reported of an end tag without a name lies inside of it. -/
theorem ahead_lt_of_nameless (markup : Markup.classify (c.rest.drop 1) = .namelessEndTag) :
    (c.ahead 2).offset < (c.skip 3).position.offset := by
  have mark := Markup.mark_classify (c.rest.drop 1)
  rw [markup] at mark
  have three : 3 ≤ (c.rest.drop 1).length + 1 := mark.length_le
  refine (c.skip_reaches_skip (by decide : 2 ≤ 3)).offset_lt ?_
  rw [List.length_drop] at three
  simp only [Cursor.length_skip]
  omega

theorem gathered_step (gathers : Siblings.Gathers o errors P) (modern : o.legacy = none)
    (html : ∀ tag parent, o.namespaceOf tag parent = .html) (reachable : Reachable o source s)
    (goes : s.isDone = false) (reported : ∀ x ∈ (s.step o source).errors, x ∈ errors)
    (h : Gathered P source s.cursor s) :
    Gathered P source (s.step o source).cursor (s.step o source) := by
  have smaller := size_step_lt o source goes
  have step : Step o source s (s.step o source) := step_cases goes
  generalize s.step o source = t at smaller reported step
  cases step with
  | close _ top => exact h.closeElement gathers modern reachable.placed top
  | text reads =>
      exact Gathered.readText (s := s.report _) gathers reachable.uses (rest_ne_nil reads) h
  | interpolation _ _ read =>
      rw [cursor_add, cursor_after]
      exact Gathered.addOther (s := s.after _) gathers h nofun
        (Interpolation.read?_sound read).reaches (Interpolation.loc_of_read? read)
  | comment _ _ _ read =>
      exact Gathered.addComment (s := s.report _) gathers h (Comment.eq_of_at? read)
  | cdata _ _ foreign =>
      rw [reachable.html html] at foreign
      cases foreign
  | namelessEndTag _ _ markup =>
      have passed := reported _ List.mem_cons_self
      refine StackGathers.last h fun a nodes h => ?_
      exact gathers.endTag (s.cursor.reaches_skip 3) ⟨_, passed, rfl, rfl⟩
        (s.cursor.reaches_skip 2).offset_le (ahead_lt_of_nameless markup) h
  | strayEndTag =>
      have passed := reported (.at .invalidEndTag s.cursor.position)
        (List.mem_append_right _ List.mem_cons_self)
      have read := Tag.read_sound o .closing s.flags.vPre s.cursor s.cursor s.cursor
      -- The stack stays, so it is the rest of the template that the step makes smaller.
      have fewer : (Tag.read o .closing s.flags.vPre s.cursor).cursor.rest.length <
          s.cursor.rest.length := Nat.lt_of_add_lt_add_right smaller
      refine StackGathers.last h fun a nodes h => ?_
      exact gathers.endTag read.reaches ⟨_, passed, rfl, rfl⟩ (Nat.le_refl _)
        (read.reaches.offset_lt fewer) h
  | startTag => exact (openElement_cases o s).gathered gathers modern h

/-- What is kept on the way holds in every state. -/
theorem Reachable.gathered (h : Reachable o source s) (gathers : Siblings.Gathers o errors P)
    (modern : o.legacy = none) (html : ∀ tag parent, o.namespaceOf tag parent = .html)
    (reported : ∀ x ∈ s.errors, x ∈ errors) : Gathered P source s.cursor s := by
  induction h with
  | initial => exact gathers.nil _
  | @step s reachable goes ih =>
      have step : Step o source s (s.step o source) := step_cases goes
      refine gathered_step gathers modern html reachable goes reported (ih fun x hx => ?_)
      exact reported x (step.stackStep.errors_suffix.subset hx)

end State

end Stencil
