import Stencil.Proofs.Excerpt.Tag
import Stencil.Proofs.Origin
import Stencil.Proofs.RoundTrip

/-! # Reading only adds

A step takes nothing back: what was reported stays reported, the cursor does not go back, and the
finished nodes outside of all elements stay, but for a last text that is extended. So a template
without errors has been without errors all the way, and each of its tags is complete.
-/

namespace Stencil

namespace State

variable {o : Options} {source : List Char} {s t : State}

/-! ## Reports -/

theorem errors_closeElement (o : Options) (source : List Char) (s : State) (e : OpenElement)
    (stack : List OpenElement) : s.errors <:+ (s.closeElement o source e stack).errors := by
  cases ends : Tag.startsEndTag e.element.tag s.cursor.rest with
  | true =>
      rw [(closeElement_matched o source e stack ends).2]
      exact List.suffix_append _ _
  | false =>
      obtain ⟨_, more, _, _, errors⟩ := closeElement_unmatched o source e stack ends
      rw [errors]
      exact (List.suffix_cons _ _).trans (List.suffix_append _ _)

theorem StackStep.errors_suffix (k : StackStep o source s t) : s.errors <:+ t.errors := by
  cases k with
  | closed _ _ result => exact result ▸ errors_closeElement o source s _ _
  | opened _ _ result =>
      subst result
      exact List.suffix_append _ _
  | kept _ _ errors =>
      obtain ⟨more, errors, _⟩ := errors
      exact ⟨more, errors.symm⟩

theorem Steps.errors_suffix {n : Nat} (h : Steps o source n s t) : s.errors <:+ t.errors := by
  induction h with
  | refl => exact List.suffix_rfl
  | step goes _ ih => exact (step_cases goes).stackStep.errors_suffix.trans ih

/-! ## The rest of a reading -/

/-- From every state of a reading, reading on leads to the same end. -/
theorem Reachable.run_eq (h : Reachable o source s) :
    (State.initial source).run o source = s.run o source := by
  induction h with
  | initial => rfl
  | step _ goes ih => exact ih.trans (Steps.step goes (.refl _)).run_eq

theorem Reachable.parse_eq (h : Reachable o source s) (done : s.isDone = true) :
    parse o source = s.result o source := by
  rw [parse, h.run_eq, run_of_isDone done]

/-- A template without errors is read without errors all the way. -/
theorem Reachable.errors_eq_nil (h : Reachable o source s) (quiet : (parse o source).errors = []) :
    s.errors = [] := by
  obtain ⟨_, n, _, steps⟩ := steps_run o source s
  have last : (s.run o source).errors = [] := by
    rw [← h.run_eq]
    exact List.reverse_eq_nil_iff.mp quiet
  exact List.suffix_nil.mp (last ▸ steps.errors_suffix)

/-- Where no error is reported, every element is closed by its own end tag. -/
theorem Reachable.matched {e : OpenElement} {stack : List OpenElement} (h : Reachable o source s)
    (quiet : (parse o source).errors = []) (ends : s.atEnd = true) (top : s.stack = e :: stack) :
    Tag.startsEndTag e.element.tag s.cursor.rest = true := by
  cases matched : Tag.startsEndTag e.element.tag s.cursor.rest with
  | true => rfl
  | false =>
      have next := (h.step (not_isDone_of_top top)).errors_eq_nil quiet
      obtain ⟨_, more, _, _, errors⟩ := closeElement_unmatched o source e stack matched
      rw [step_eq_closeElement o source ends top, errors] at next
      simp at next

/-- Where no error is reported, elements are open only before the end of the template. -/
theorem Reachable.rest_ne_nil (h : Reachable o source s) (quiet : (parse o source).errors = [])
    (inside : s.stack ≠ []) : s.cursor.rest ≠ [] := by
  intro none
  obtain ⟨e, stack, top⟩ := List.exists_cons_of_ne_nil inside
  have ends : s.atEnd = true := by simp [atEnd, Cursor.atEnd, none]
  have matched := h.matched quiet ends top
  rw [none] at matched
  cases matched

/-! ## Tags of a template without errors -/

theorem Opening.cursor_eq (k : Opening o s t) : t.cursor = (s.startTag o).cursor := by
  cases k with
  | empty | tooDeep => exact cursor_addElement ..
  | opened => rfl

theorem Opening.startTag_errors (k : Opening o s t) (quiet : t.errors = []) :
    (s.startTag o).log.errors = [] := by
  have read : (s.afterStartTag o).errors = [] → (s.startTag o).log.errors = [] := by
    intro none
    change (s.startTag o).log.errors.reverse ++ s.errors = [] at none
    exact List.reverse_eq_nil_iff.mp (List.append_eq_nil_iff.mp none).1
  cases k with
  | empty => exact read (errors_addElement o _ _ _ ▸ quiet)
  | tooDeep =>
      rw [errors_addElement] at quiet
      cases quiet
  | opened => exact read quiet

/-- Where no error is reported, the start tag that is read next is complete. -/
theorem Reachable.startTag_errors (h : Reachable o source s) (quiet : (parse o source).errors = [])
    (opens : s.Opens o) : (s.startTag o).log.errors = [] := by
  have next := (h.step opens.not_isDone).errors_eq_nil quiet
  rw [opens.step_eq] at next
  exact (openElement_cases o s).startTag_errors next

/-- Where no error is reported, an element ends with a complete end tag. -/
theorem Reachable.endTag {e : OpenElement} {stack : List OpenElement} (h : Reachable o source s)
    (quiet : (parse o source).errors = []) (ends : s.atEnd = true) (top : s.stack = e :: stack) :
    (s.afterEndTag o source e stack).cursor = (Tag.read o .closing s.flags.vPre s.cursor).cursor ∧
      (Tag.read o .closing s.flags.vPre s.cursor).log.errors = [] ∧
      (s.afterEndTag o source e stack).errors = [] := by
  have next := (h.step (not_isDone_of_top top)).errors_eq_nil quiet
  rw [step_eq_closeElement o source ends top] at next
  obtain ⟨cursor, errors⟩ := closeElement_matched o source e stack (h.matched quiet ends top)
  rw [closeElement_eq, cursor_addElement] at cursor
  refine ⟨cursor, ?_, ?_⟩
  · rw [errors] at next
    exact List.reverse_eq_nil_iff.mp (List.append_eq_nil_iff.mp next).1
  · rw [closeElement_eq, errors_addElement] at next
    exact next

/-- The source of an element of a template without errors ends with a tag. -/
theorem Finished.getLast?_source {e : Element} {children : List Node}
    (h : s.Finished o source e children) (reachable : Reachable o source s) (opens : s.Opens o)
    (quiet : (parse o source).errors = []) : e.loc.source.getLast? = some '>' := by
  have goes := opens.not_isDone
  cases h with
  | empty | tooDeep =>
      exact Tag.getLast?_textTo_read o .opening _ _ (reachable.startTag_errors quiet opens)
  | @closed t e content room inside top entry flags ends =>
      have later := (reachable.step goes).staysInside inside
      obtain ⟨cursor, errors, _⟩ := later.endTag quiet ends top
      have nodes := later.placed.nodes
      rw [top] at nodes
      have before := nodes.1.tag.trans nodes.1.children.reaches
      have last := Tag.getLast?_textTo_read o .closing _ _ errors
      change (e.start.textTo (t.afterEndTag o source e s.stack).cursor).getLast? = _
      rw [cursor, Cursor.textTo_append before ((t.cursor.reaches_skip _).trans
        (Tag.reaches_read _ _ _ _)), List.getLast?_append, last]
      rfl

/-- Where no legacy is honoured, every element goes back to its own start tag. -/
theorem exists_of_derived {flags : Flags} {e : Element} {children : List Node}
    (modern : o.legacy = none) (h : (Node.element e children).Derived o source flags) :
    ∃ s, s.flags = flags ∧ Reachable o source s ∧ s.Opens o ∧ s.Finished o source e children ∧
      ∀ n ∈ children, n.Derived o source (s.flagsInside o) := by
  generalize node : Node.element e children = n at h
  cases h with
  | leaf leaf =>
      subst node
      exact absurd rfl leaf
  | @element s _ _ reachable opens finished inner =>
      cases node
      exact ⟨s, rfl, reachable, opens, finished, inner⟩
  | spliced honoured =>
      rw [modern] at honoured
      cases honoured

/-! ## Nodes outside of all elements -/

/-- What a step does to the nodes outside of all elements. -/
inductive RootsStep (s t : State) : Prop where
  | kept (roots : t.roots = s.roots) (outside : t.stack = [] → s.stack = [])
  | pushed (node : Node) (roots : t.roots = Siblings.push node s.roots) (outside : t.stack = [])
      (kind : node.kind = .element ∨ s.stack = [])

theorem RootsStep.add (node : Node) (roots : t.roots = s.roots)
    (kind : node.kind = .element ∨ (t.stack = [] → s.stack = [])) : RootsStep s (t.add node) := by
  unfold State.add
  split
  · next empty => exact .pushed node (by rw [roots]) empty (kind.imp_right (· empty))
  · exact .kept roots nofun

theorem roots_addAll (nodes : List Node) (inside : s.stack ≠ []) :
    (s.addAll nodes).roots = s.roots := by
  induction nodes generalizing s with
  | nil => rfl
  | cons node nodes ih =>
      obtain ⟨e, stack, top⟩ := List.exists_cons_of_ne_nil inside
      rw [State.addAll, List.foldl_cons]
      refine (ih ?_).trans ?_
      · rw [State.add, top]
        exact List.cons_ne_nil _ _
      · rw [State.add, top]

theorem Opening.roots (modern : o.legacy = none) (k : Opening o s t) : RootsStep s t := by
  cases k with
  | empty | tooDeep =>
      rw [addElement_eq modern]
      exact .add _ rfl (.inl rfl)
  | opened => exact .kept rfl nofun

theorem Step.roots (modern : o.legacy = none) (k : Step o source s t) : RootsStep s t := by
  cases k with
  | close =>
      rw [closeElement_eq, addElement_eq modern]
      exact .add _ (flags_readEndTag o _ _ _).2 (.inl rfl)
  | text => exact .add _ rfl (.inr id)
  | interpolation => exact .add _ rfl (.inr id)
  | comment => exact .add _ rfl (.inr id)
  | cdata goes data foreign =>
      have inside : s.stack ≠ [] := by
        intro none
        simp [parent, none] at foreign
      refine .kept (roots_addAll _ inside) fun none => ?_
      rw [readSection, ← List.length_eq_zero_iff, length_stack_addAll] at none
      exact List.length_eq_zero_iff.mp none
  | namelessEndTag => exact .kept rfl id
  | strayEndTag => exact .kept rfl id
  | startTag => exact (openElement_cases o s).roots modern

/-- Inside of an element, the nodes outside of all elements stay as they are. -/
theorem StaysInside.roots_eq {depth : Nat} (modern : o.legacy = none)
    (h : StaysInside o source depth s t) (deep : depth < t.stack.length) : t.roots = s.roots := by
  induction h with
  | refl => rfl
  | step _ inside ih =>
      cases (step_cases (not_isDone_of_length inside)).roots modern with
      | kept roots => exact roots.trans (ih inside)
      | pushed _ _ outside =>
          rw [outside] at deep
          exact absurd deep (Nat.not_lt_zero _)

end State

end Stencil
