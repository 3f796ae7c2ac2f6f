import Stencil.Proofs.Excerpt.State
import Stencil.Proofs.Termination

/-! # Elements on their own

An element of a template without errors can be cut out and read as a template of its own. The
reading of the cut goes through the states that the template goes through inside of the element,
without the elements around it. Only directives must not be off there.
-/

namespace Stencil

/-- The cut between two cursors of a template, as an excerpt of it. -/
theorem Cursor.exists_excerpt {source : List Char} {c d : Cursor}
    (inside : (ofText source).Reaches c) (reached : c.Reaches d) :
    ∃ u, source = u ++ c.textTo d ++ d.rest ∧ Text.byteLength u = c.position.offset ∧
      c = (ofText (c.textTo d)).within u d.rest := by
  obtain ⟨u, rest, position, offset⟩ := inside.exists_before
  have split := reached.rest_eq
  refine ⟨u, ?_, ?_, ?_⟩
  · rw [List.append_assoc, ← split]
    exact rest
  · exact offset.symm
  · rw [Position.past_start, ← Position.start_behind] at position
    rw [within, ofText, ← position]
    exact congrArg (Cursor.mk c.position) split

namespace State

variable {o : Options} {u t text source : List Char} {base long short s : State}

/-! ## Reading on inside of an element -/

/-- As long as reading stays inside of an element and before the end of the excerpt, it goes through
    states of reading the excerpt. -/
theorem StaysInside.exists_embeds (modern : o.legacy = none) (seam : Seam o t text)
    (quiet : (parse o (u ++ text ++ t)).errors = [])
    (reached : Reachable o (u ++ text ++ t) s) (start : Embeds u t base s short)
    (reachable : Reachable (o.behind u) text short)
    (h : StaysInside o (u ++ text ++ t) base.stack.length s long)
    (deep : base.stack.length < long.stack.length) (far : t.length < long.cursor.rest.length) :
    ∃ short', Reachable (o.behind u) text short' ∧ Embeds u t base long short' := by
  induction h with
  | refl => exact ⟨short, reachable, start⟩
  | @step long way inside ih =>
      have now := reached.staysInside way
      have goes := not_isDone_of_length inside
      have next := now.step goes
      have taken : Step o (u ++ text ++ t) long (long.step o (u ++ text ++ t)) := step_cases goes
      have forward := taken.reaches.length_le
      obtain ⟨short', reachable', embeds⟩ := ih inside (Nat.lt_of_lt_of_le far forward)
      have depth : long.stack.length = short'.stack.length + base.stack.length := by
        rw [embeds.stack, List.length_append, List.length_map]
      have nonempty : short'.stack ≠ [] := by
        intro none
        rw [depth, none] at inside
        simp at inside
      have rest : short'.cursor.rest ≠ [] := by
        intro none
        rw [embeds.cursor, Cursor.rest_within, none] at forward
        exact Nat.not_lt_of_le forward far
      have goes : short'.isDone = false := by
        rw [isDone, List.isEmpty_eq_false_iff.mpr nonempty]
        rfl
      have around : base.Surrounds short' := fun none => absurd none nonempty
      -- the outermost element of the excerpt is not closed yet
      have last : ∀ e, short'.stack = [e] → short'.atEnd = true → base.Clear := by
        intro e top ends
        obtain ⟨fits, _⟩ := seam.at reachable'.placed.inside (.inl rest)
        rcases embeds.atEnd around fits (.inl rest) reachable'.disciplined.names with
          same | ⟨_, _, goes, _⟩
        · have stack := embeds.stack
          rw [top] at stack
          have closed : (long.step o (u ++ text ++ t)).stack.length = base.stack.length := by
            rw [State.step, if_pos (same.trans ends), stack]
            simp only [List.map_cons, List.map_nil, List.cons_append, List.nil_append,
              stack_closeElement]
            rw [← List.length_map, map_bare_receive, List.length_map]
          rw [closed] at deep
          exact absurd deep (Nat.lt_irrefl _)
        · rw [ends] at goes
          cases goes
      rcases embeds.step modern seam reachable' goes (.inl rest) around last with same | parts
      · exact ⟨_, reachable'.step goes, same⟩
      · cases parts with
        | runsOver beyond => exact absurd far (Nat.lt_asymm beyond)
        | outside _ fails => exact absurd (next.errors_eq_nil quiet) fails

/-- The element that was opened in `s` goes on from its start tag to the end of its end tag. -/
theorem StaysInside.reaches_stop {s' : State} {e : OpenElement} (reachable : Reachable o source s)
    (opens : s.Opens o)
    (inside : StaysInside o source s.stack.length (s.step o source) s')
    (top : s'.stack = e :: s.stack) (entry : e.bare = s.opened o) :
    (s.startTag o).cursor.Reaches (s'.afterEndTag o source e s.stack).cursor := by
  have goes := opens.not_isDone
  have nodes := ((reachable.step goes).staysInside inside).placed.nodes
  rw [top] at nodes
  have body : e.body = (s.startTag o).cursor := congrArg OpenElement.body entry
  rw [← body]
  exact nodes.1.children.reaches.trans (reaches_afterEndTag _ _ _ _ _)

/-- An element goes from its start tag, which it holds all of, to where it was finished. -/
theorem Finished.exists_stop {e : Element} {children : List Node}
    (h : s.Finished o source e children) (reachable : Reachable o source s) (opens : s.Opens o) :
    ∃ d, e.loc = s.cursor.locationTo d ∧ (s.startTag o).cursor.Reaches d := by
  cases h with
  | empty | tooDeep => exact ⟨_, rfl, .refl _⟩
  | @closed s' e _ _ inside top entry =>
      have start : e.start = s.cursor := congrArg OpenElement.start entry
      exact ⟨(s'.afterEndTag o source e s.stack).cursor, start ▸ rfl,
        inside.reaches_stop reachable opens top entry⟩

/-! ## The cut at its start -/

/-- The cut of an element stands in the template behind `u` and before `t`, and reading the template
    comes to it in `s` with nothing switched on. -/
structure Cut (o : Options) (u t text : List Char) (s : State) : Prop where
  cursor : s.cursor = (Cursor.ofText text).within u t
  opens : s.Opens o
  last : text.getLast? = some '>'
  tag : t.length ≤ (s.startTag o).cursor.rest.length
  flags : s.flags = ⟨false, false⟩

namespace Cut

theorem fits (h : Cut o u t text s) : (Cursor.ofText text).Fits t :=
  ⟨Nat.le_refl 1, .inr h.last⟩

/-- The cut starts with the start tag. -/
theorem initial_opens (h : Cut o u t text s) (delimiter : '<' ∉ o.openDelimiter) :
    (initial text).Opens o := by
  have mark := h.opens.mark
  obtain ⟨letter, rest, next, isLetter⟩ := exists_of_classify_startTag h.opens.markup
  obtain ⟨y, start⟩ := List.head?_eq_some_iff.mp mark
  rw [start] at next
  change y = letter :: rest at next
  rw [next, h.cursor] at start
  change text ++ t = '<' :: letter :: rest at start
  -- the end of a tag is neither of the first two characters
  have last := h.last
  match text, start, last with
  | [], _, last => cases last
  | [c], start, last =>
      cases (List.cons.inj start).1
      cases last
  | [c, d], start, last =>
      have same : d = letter := (List.cons.inj (List.cons.inj start).2).1
      have close : d = '>' := Option.some.inj last
      rw [← same, close] at isLetter
      cases isLetter
  | c :: d :: e :: z, start, _ =>
      obtain ⟨first, tail⟩ := List.cons.inj start
      obtain ⟨second, _⟩ := List.cons.inj tail
      subst first second
      exact opens_initial delimiter isLetter _

theorem embeds (h : Cut o u t text s) : Embeds u t s s (initial text) where
  cursor := h.cursor
  stack := rfl
  roots := rfl
  flags := h.flags
  errors := rfl

/-- The start tag is the same in the cut, since the cut has all of it. -/
theorem startTag (h : Cut o u t text s) (modern : o.legacy = none) :
    (s.startTag o).Matches u t (Tag.behind u) ((initial text).startTag (o.behind u)) := by
  have mark : text.head? = some '<' := by
    have mark := h.opens.mark
    rw [h.cursor, Cursor.rest_within] at mark
    exact h.fits.text.head?_append.symm.trans mark
  rcases h.embeds.startTag modern h.fits mark with same | ⟨beyond, _⟩
  · exact same
  · exact absurd h.tag (Nat.not_le_of_lt beyond.long)

end Cut

theorem Reachable.exists_cut {d : Cursor} (h : Reachable o source s) (opens : s.Opens o)
    (flags : s.flags = ⟨false, false⟩) (reached : (s.startTag o).cursor.Reaches d)
    (last : (s.cursor.textTo d).getLast? = some '>') :
    ∃ u, source = u ++ s.cursor.textTo d ++ d.rest ∧
      Text.byteLength u = s.cursor.position.offset ∧ Cut o u d.rest (s.cursor.textTo d) s := by
  have tag : s.cursor.Reaches (s.startTag o).cursor :=
    (s.cursor.reaches_skip _).trans (Tag.reaches_read _ _ _ _)
  obtain ⟨u, split, width, cursor⟩ := Cursor.exists_excerpt h.placed.inside (tag.trans reached)
  exact ⟨u, split, width, cursor, opens, last, reached.length_le, flags⟩

/-! ## The cut alone -/

/-- Reading `text` alone gives the element `e` with `children`, but for its place behind `u`. -/
def ReadsAlone (u text : List Char) (e : Element) (children : List Node) : Prop :=
  (parse .base text).errors = [] ∧ ∃ e' children',
    (parse .base text).root.children = [.element e' children'] ∧
      Node.element e children = (Node.element e' children').behind u

theorem Reachable.readsAlone {e : Element} {children : List Node} {e' : Element}
    {children' : List Node} (h : Reachable .base text s) (outside : s.stack = [])
    (read : s.cursor.rest = []) (roots : s.roots = [.element e' children']) (errors : s.errors = [])
    (element : e = e'.behind u) (nodes : children = children'.map (Node.behind u)) :
    ReadsAlone u text e children := by
  have done : s.isDone = true := by simp [isDone, atEnd, Cursor.atEnd, outside, read]
  rw [ReadsAlone, h.parse_eq done]
  refine ⟨by simp [State.result, errors], e', children', ?_, ?_⟩
  · simp only [State.result, roots, h.flags_of_nil outside]
    rfl
  · rw [Node.element_behind, element, nodes]

namespace Cut

theorem readsAlone_empty (h : Cut .base u (s.startTag .base).cursor.rest text s)
    (empty : s.startsEmpty .base = true) (complete : (s.startTag .base).log.errors = []) :
    ReadsAlone u text (s.started .base).1 [] := by
  have same := h.startTag rfl
  have opens := h.initial_opens (by decide)
  have names : ∀ tag, Options.base.namespaceOf tag s.parent =
      (Options.base.behind u).namespaceOf tag (initial text).parent := fun _ => rfl
  have goes := opens.not_isDone
  have next : (initial text).step .base text = ((initial text).afterStartTag .base).add
      (.element ((initial text).started .base).1 []) := by
    rw [opens.step_eq, openElement_eq, if_pos, addElement_eq rfl]
    exact (h.embeds.startsEmpty same names).symm.trans empty
  have read : ((initial text).startTag .base).cursor.rest = [] := by
    have rest := congrArg Cursor.rest same.cursor
    exact List.append_left_eq_self.mp rest.symm
  have errors : ((initial text).startTag .base).log.errors = [] := by
    have errors := same.errors
    rw [complete] at errors
    exact List.map_eq_nil_iff.mp errors.symm
  have none : [] = ([] : List Node).map (Node.behind u) := rfl
  refine Reachable.readsAlone (Reachable.initial.step goes) ?_ ?_ ?_ ?_
    (h.embeds.started same names) none
  · rw [next]
    rfl
  · rw [next]
    exact read
  · rw [next]
    rfl
  · rw [next]
    change ((initial text).startTag .base).log.errors.reverse ++ [] = []
    rw [errors]
    rfl

/-- The element is open after its start tag in the cut as in the template. -/
theorem enter (h : Cut .base u t text s) (content : s.startsEmpty .base = false)
    (room : s.stack.length < Options.base.maxDepth) (source : List Char) :
    Reachable .base text ((initial text).step .base text) ∧
      Embeds u t s (s.step .base source) ((initial text).step .base text) ∧
      (s.step .base source).roots = s.roots := by
  have same := h.startTag rfl
  have opens := h.initial_opens (by decide)
  have names : ∀ tag, Options.base.namespaceOf tag s.parent =
      (Options.base.behind u).namespaceOf tag (initial text).parent := fun _ => rfl
  have goes := opens.not_isDone
  have content' : (initial text).startsEmpty .base = false :=
    (h.embeds.startsEmpty same names).symm.trans content
  have shallow : ¬Options.base.maxDepth ≤ (initial text).stack.length :=
    show ¬512 ≤ 0 by decide
  refine ⟨Reachable.initial.step goes, ?_⟩
  rw [h.opens.step_eq, opens.step_eq, openElement_eq, openElement_eq,
    if_neg (Bool.eq_false_iff.mp content), if_neg (Bool.eq_false_iff.mp content'),
    if_neg (Nat.not_le_of_lt room), if_neg shallow]
  exact ⟨h.embeds.enter same names fun _ => rfl, rfl⟩

theorem seam (h : Cut .base u t text s) : Seam .base t text :=
  ⟨.inr h.last, Text.seamless_isPrefixOf (by decide) (.inr h.last)⟩

theorem readsAlone_closed {s' : State} {e : OpenElement}
    (h : Cut .base u t text s) (quiet : (parse .base (u ++ text ++ t)).errors = [])
    (reachable : Reachable .base (u ++ text ++ t) s) (content : s.startsEmpty .base = false)
    (room : s.stack.length < Options.base.maxDepth)
    (inside : StaysInside .base (u ++ text ++ t) s.stack.length (s.step .base (u ++ text ++ t)) s')
    (top : s'.stack = e :: s.stack) (ends : s'.atEnd = true)
    (stop : t = (s'.afterEndTag .base (u ++ text ++ t) e s.stack).cursor.rest) :
    ReadsAlone u text (s'.closed .base (u ++ text ++ t) e s.stack)
      (finishedChildren .base (u ++ text ++ t) s'.flags.pre e) := by
  have modern : Options.base.legacy = none := rfl
  have goes := h.opens.not_isDone
  obtain ⟨entered, start, roots⟩ := h.enter content room (u ++ text ++ t)
  have reached := reachable.step goes
  have reached' := reached.staysInside inside
  have deep : s.stack.length < s'.stack.length := by rw [top]; exact Nat.lt_succ_self _
  obtain ⟨cursor, _, errors⟩ := reached'.endTag quiet ends top
  have far : t.length < s'.cursor.rest.length := by
    rw [stop, cursor]
    exact Tag.length_read_lt _ _ _ (reached'.rest_ne_nil quiet (by simp [top]))
  obtain ⟨short, reachable', embeds⟩ :=
    inside.exists_embeds rfl h.seam quiet reached start entered deep far
  -- the element is the only one that is open in the cut
  obtain ⟨e', top', rfl⟩ : ∃ e', short.stack = [e'] ∧ e'.within u t = e := by
    have stack := embeds.stack
    rw [top] at stack
    exact List.map_eq_singleton_iff.mp (List.append_cancel_right stack).symm
  have roots' : short.roots = [] := by
    have same := embeds.roots
    rw [inside.roots_eq rfl deep, roots] at same
    exact List.map_eq_nil_iff.mp (List.append_left_eq_self.mp same.symm)
  have rest : short.cursor.rest ≠ [] := by
    intro none
    rw [embeds.cursor, Cursor.rest_within, none] at far
    exact Nat.lt_irrefl _ far
  obtain ⟨fits, _⟩ := h.seam.at reachable'.placed.inside (.inl rest)
  have named := reachable'.disciplined.names
  have named' := named e' (top' ▸ List.mem_cons_self)
  have ends' : short.atEnd = true := by
    have around : s.Surrounds short := fun none => by rw [top'] at none; cases none
    rcases embeds.atEnd around fits (.inl rest) named with same | ⟨_, data, goes, _⟩
    · exact same.symm.trans ends
    · have matched := reached'.matched quiet ends top
      rw [embeds.cursor] at matched
      have matched : Tag.startsEndTag e'.element.tag short.cursor.rest = true :=
        (Tag.startsEndTag_within named' fits.text).symm.trans matched
      simp [atEnd, data, top', matched] at goes
  obtain ⟨finished, ⟨after, closed⟩ | ⟨beyond, _⟩⟩ :=
    Embeds.afterEndTag modern embeds reachable'.placed fits (.inl rest) top' named'
  · have next : short.step .base text = { short.afterEndTag .base text e' [] with
        flags := e'.outer }.add (.element (short.closed .base text e' [])
          (finishedChildren .base text short.flags.pre e')) := by
      rw [step_eq_closeElement .base text ends' top', closeElement_eq, addElement_eq rfl]
    have outside : (short.afterEndTag .base text e' []).stack = [] := by
      simp only [State.afterEndTag, stack_readEndTag, stack_report]
    have kept : (short.afterEndTag .base text e' []).roots = [] :=
      (flags_readEndTag .base _ _ _).2.trans roots'
    have reached : Reachable .base text (short.step .base text) :=
      reachable'.step (not_isDone_of_top top')
    refine reached.readsAlone ?_ ?_ ?_ ?_ closed finished
    · rw [next, add]
      simp only [outside]
    · rw [next, cursor_add]
      have rest := congrArg Cursor.rest after.cursor
      change (s'.afterEndTag .base (u ++ text ++ t) (e'.within u t) s.stack).cursor.rest = _ at rest
      rw [← stop] at rest
      exact List.append_left_eq_self.mp rest.symm
    · rw [next, add]
      simp only [outside, kept]
      rfl
    · rw [next, errors_add]
      have same := after.errors
      change (s'.afterEndTag .base (u ++ text ++ t) (e'.within u t) s.stack).errors = _ at same
      rw [errors] at same
      exact List.map_eq_nil_iff.mp (List.append_eq_nil_iff.mp same.symm).1
  · have length := congrArg List.length stop
    exact absurd beyond (Nat.not_lt_of_le (Nat.le_of_eq length))

end Cut

/-! ## Switched-off directives -/

end State

/-- The start tag of `e` switches directives off, for `e` and for all that it holds. -/
def Element.turnsDirectivesOff (e : Element) : Bool :=
  (Tag.read .base .opening false (.ofText e.loc.source)).value.startsVPre

namespace State

variable {e : Element} {children : List Node}

/-- Where directives are on, an element switches them off in the template if it does so alone. -/
theorem Finished.flagsInside_eq (h : s.Finished .base source e children)
    (quiet : (parse .base source).errors = []) (reachable : Reachable .base source s)
    (opens : s.Opens .base) (on : s.flags = ⟨false, false⟩) :
    s.flagsInside .base = ⟨false, e.turnsDirectivesOff⟩ := by
  obtain ⟨d, loc, reached⟩ := h.exists_stop reachable opens
  have last := h.getLast?_source reachable opens quiet
  have text : e.loc.source = s.cursor.textTo d := congrArg Location.source loc
  rw [text] at last
  obtain ⟨u, _, _, cut⟩ := reachable.exists_cut opens on reached last
  have same : (s.startTag .base).value.startsVPre = e.turnsDirectivesOff := by
    rw [(cut.startTag rfl).value, Element.turnsDirectivesOff, text]
    rfl
  rw [flagsInside, on, same]
  rfl

/-! ## Elements of a template without errors -/

theorem Finished.readsAlone (h : s.Finished .base source e children)
    (quiet : (parse .base source).errors = []) (reachable : Reachable .base source s)
    (opens : s.Opens .base) (on : s.flags = ⟨false, false⟩) :
    ∃ u t, source = u ++ e.loc.source ++ t ∧ Text.byteLength u = e.loc.start.offset ∧
      ReadsAlone u e.loc.source e children := by
  have goes := opens.not_isDone
  have last := h.getLast?_source reachable opens quiet
  cases h with
  | empty empty =>
      obtain ⟨u, split, width, cut⟩ := reachable.exists_cut opens on (.refl _) last
      exact ⟨u, _, split, width,
        cut.readsAlone_empty empty (reachable.startTag_errors quiet opens)⟩
  | tooDeep content deep =>
      have next := (reachable.step goes).errors_eq_nil quiet
      rw [opens.step_eq, openElement_eq, if_neg (Bool.eq_false_iff.mp content), if_pos deep,
        errors_addElement] at next
      cases next
  | @closed s' e content room inside top entry flags ends =>
      have start : e.start = s.cursor := congrArg OpenElement.start entry
      have loc : (s'.closed .base source e s.stack).loc =
          s.cursor.locationTo (s'.afterEndTag .base source e s.stack).cursor := start ▸ rfl
      rw [loc] at last ⊢
      have reached := inside.reaches_stop reachable opens top entry
      obtain ⟨u, split, width, cut⟩ := reachable.exists_cut opens on reached last
      refine ⟨u, _, split, width, ?_⟩
      generalize cursor : (s'.afterEndTag .base source e s.stack).cursor = d at *
      subst split
      have stop := congrArg Cursor.rest cursor
      exact cut.readsAlone_closed quiet reachable content room inside top ends stop.symm

end State

/-- Down a path of elements none of which switches directives off, directives stay on. -/
theorem Node.derived_at? {source : List Char} {nodes : List Node} {path : List Nat} {node : Node}
    (quiet : (parse .base source).errors = [])
    (derived : ∀ n ∈ nodes, n.Derived .base source ⟨false, false⟩)
    (found : at? nodes path = some node)
    (on : ∀ above i below a inner, path = above ++ i :: below →
      at? nodes above = some (.element a inner) → a.turnsDirectivesOff = false) :
    node.Derived .base source ⟨false, false⟩ := by
  fun_induction at? nodes path with
  | case1 => cases found
  | case2 => exact derived _ (List.mem_of_getElem? found)
  | case3 nodes i j path parent parentAt ih =>
      refine ih ?_ found fun above k below a inner split found => ?_
      · have above := derived _ (List.mem_of_getElem? parentAt)
        cases parent with
        | text | comment | interpolation => exact fun _ member => nomatch member
        | element a inner =>
            obtain ⟨s, flags, reachable, opens, finished, children⟩ :=
              State.exists_of_derived rfl above
            rw [finished.flagsInside_eq quiet reachable opens flags,
              on [i] j path a inner rfl parentAt] at children
            exact children
      · refine on (i :: above) k below a inner (congrArg _ split) ?_
        cases above with
        | nil => cases found
        | cons _ _ =>
            rw [at?, parentAt]
            exact found
  | case4 => cases found

/-- An element of a template without errors, with no element around it that switches directives
    off, can be read on its own. Its source is then a template without errors that holds nothing but
    the same element, in its place behind what stands before it. -/
theorem parse_source {source : List Char} {path : List Nat} {e : Element} {children : List Node}
    (quiet : (parse .base source).errors = [])
    (found : Node.at? (parse .base source).root.children path = some (.element e children))
    (on : ∀ above i below a inner, path = above ++ i :: below →
      Node.at? (parse .base source).root.children above = some (.element a inner) →
        a.turnsDirectivesOff = false) :
    (parse .base e.loc.source).errors = [] ∧
      ∃ before after e' children', source = before ++ e.loc.source ++ after ∧
        Text.byteLength before = e.loc.start.offset ∧
        (parse .base e.loc.source).root.children = [.element e' children'] ∧
        Node.element e children = (Node.element e' children').behind before := by
  have derived := Node.derived_at? quiet (parse_derived .base source) found on
  obtain ⟨s, flags, reachable, opens, finished, _⟩ := State.exists_of_derived rfl derived
  obtain ⟨before, after, split, width, errors, e', children', alone, same⟩ :=
    finished.readsAlone quiet reachable opens flags
  exact ⟨errors, before, after, e', children', split, width, alone, same⟩

theorem parse_source_of_item :
    let source := "é\n<ul :id=\"a\"> <li v-pre @click=\"b\">\n <i>\x7b\x7b c</i></li></ul>".toList
    (parse .base source).errors = [] ∧
      ∃ e children before e' children',
        Node.at? (parse .base source).root.children [1, 0] = some (.element e children) ∧
          (parse .base e.loc.source).errors = [] ∧
          (parse .base e.loc.source).root.children = [.element e' children'] ∧
          Node.element e children = (Node.element e' children').behind before := by
  intro source
  have quiet : (parse .base source).errors = [] := by decide +kernel
  have item : ((Node.at? (parse .base source).root.children [1, 0]).any fun node =>
      node.kind == .element) = true := by decide +kernel
  have list : ((Node.at? (parse .base source).root.children [1]).any fun
      | .element a _ => a.turnsDirectivesOff
      | _ => false) = false := by decide +kernel
  obtain ⟨node, found, kind⟩ := (Option.any_eq_true _ _).mp item
  cases node with
  | text | comment | interpolation => cases kind
  | element e children =>
      obtain ⟨errors, before, _, e', children', _, _, alone, same⟩ :=
        parse_source quiet found fun above i below a inner split at' => by
          match above, split with
          | [], _ => cases at'
          | [_], split =>
              cases split
              rw [at'] at list
              exact list
          | _ :: _ :: _, split => simp at split
      exact ⟨quiet, e, children, before, e', children', found, errors, alone, same⟩

end Stencil
