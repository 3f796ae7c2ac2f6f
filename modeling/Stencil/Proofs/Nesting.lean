import Stencil.Proofs.History

/-! # Nesting

How end tags and open elements belong together. An end tag closes the innermost open element of
its name, after the elements inside of that have been closed without one; an end tag of no open
element is passed over. Over a whole reading every element that is opened is closed once, by an end
tag of its name or with a report that the tag is missing.
-/

namespace Stencil

namespace State

variable {o : Options} {source : List Char} {s t : State}

theorem Steps.snoc {n : Nat} (h : Steps o source n s t) (goes : t.isDone = false) :
    Steps o source (n + 1) s (t.step o source) := by
  induction h with
  | refl s => exact .step goes (.refl _)
  | step first _ ih => exact .step first (ih goes)

/-- Where markup is read, an element ends at the end tag of any open element. -/
theorem atEnd_of_mem {e : OpenElement} (data : s.mode = .data) (member : e ∈ s.stack)
    (h : Tag.startsEndTag e.element.tag s.cursor.rest = true) : s.atEnd = true := by
  rw [atEnd, data, Bool.or_eq_true]
  exact .inr (List.any_eq_true.mpr ⟨e, member, h⟩)

/-! ## The end tag of an open element -/

/-- The state `t` comes `i` steps after `s`, and all that these steps have done is to close the `i`
    innermost elements without reading anything. Each of them is reported once, at its start, and
    further down only the element that is now the innermost one has received anything. -/
structure Abandons (o : Options) (source : List Char) (s : State) (i : Nat) (t : State) : Prop where
  steps : Steps o source i s t
  cursor : t.cursor = s.cursor
  errors : t.errors = ((s.stack.take i).map OpenElement.missing).reverse ++ s.errors
  open_elements : t.stack.map OpenElement.bare = (s.stack.drop i).map OpenElement.bare
  below : t.stack.tail = s.stack.drop (i + 1)

theorem Abandons.refl (s : State) : Abandons o source s 0 s where
  steps := .refl s
  cursor := rfl
  errors := rfl
  open_elements := rfl
  below := List.drop_one.symm

theorem Abandons.top {i : Nat} {e : OpenElement} (h : Abandons o source s i t)
    (entry : s.stack[i]? = some e) :
    ∃ e', t.stack = e' :: s.stack.drop (i + 1) ∧ e'.bare = e.bare := by
  have drop := List.drop_eq_getElem?_toList_append (l := s.stack) (i := i)
  rw [entry] at drop
  have bares := h.open_elements
  rw [drop] at bares
  cases top : t.stack with
  | nil =>
      rw [top] at bares
      cases bares
  | cons e' stack =>
      rw [top] at bares
      have tail := h.below
      rw [top] at tail
      exact ⟨e', by rw [← tail]; rfl, (List.cons.inj bares).1⟩

theorem eq_of_bare {e e' : OpenElement} (h : e'.bare = e.bare) :
    e'.element = e.element ∧ e'.mode = e.mode ∧ e'.start = e.start :=
  ⟨congrArg (·.element) h, congrArg (·.mode) h, congrArg (·.start) h⟩

/-- One more element is closed without its end tag. -/
theorem Abandons.next {i : Nat} {e : OpenElement} (h : Abandons o source s i t)
    (entry : s.stack[i]? = some e) (ends : t.atEnd = true) (more : s.cursor.rest ≠ [])
    (other : Tag.startsEndTag e.element.tag s.cursor.rest = false) :
    Abandons o source s (i + 1) (t.step o source) := by
  obtain ⟨e', top, same⟩ := h.top entry
  have stays : Tag.startsEndTag e'.element.tag t.cursor.rest = false := by
    rw [(eq_of_bare same).1, h.cursor]
    exact other
  obtain ⟨cursor, extra, _, none, errors⟩ := closeElement_unmatched o source e' _ stays
  have report : e'.missing = e.missing := by
    rw [OpenElement.missing, (eq_of_bare same).1, OpenElement.missing]
  rw [none (h.cursor ▸ more), List.nil_append, report] at errors
  have step := step_eq_closeElement o source ends top
  refine ⟨h.steps.snoc (not_isDone_of_top top), ?_, ?_, ?_, ?_⟩
  · rw [step, cursor, h.cursor]
  · rw [step, errors, h.errors, List.take_add_one, entry]
    simp
  · rw [step, stack_closeElement, map_bare_receive]
  · rw [step, stack_closeElement, tail_receive, List.tail_drop]

section

variable {above below : List OpenElement} {e : OpenElement}

theorem getElem?_above (stack : s.stack = above ++ e :: below) {i : Nat} (h : i ≤ above.length) :
    ∃ x, s.stack[i]? = some x ∧ (x ∈ above ∧ i < above.length ∨ x = e ∧ i = above.length) := by
  rcases Nat.lt_or_eq_of_le h with inside | last
  · refine ⟨above[i], ?_, .inl ⟨List.getElem_mem inside, inside⟩⟩
    rw [stack, List.getElem?_append_left inside]
    exact List.getElem?_eq_getElem inside
  · refine ⟨e, ?_, .inr ⟨rfl, last⟩⟩
    rw [stack, last, List.getElem?_append_right (Nat.le_refl _), Nat.sub_self]
    rfl

/-- As long as the element that the end tag belongs to is open, the innermost element ends. -/
theorem Abandons.atEnd {i : Nat} (h : Abandons o source s i t)
    (data : ∀ x ∈ s.stack, x.mode = .data) (stack : s.stack = above ++ e :: below)
    (inside : i ≤ above.length) (own : Tag.startsEndTag e.element.tag s.cursor.rest = true) :
    t.atEnd = true := by
  obtain ⟨x, entry, _⟩ := getElem?_above stack inside
  obtain ⟨x', top, same⟩ := h.top entry
  have mode : t.mode = .data := by
    rw [mode_of_top top, (eq_of_bare same).2.1]
    exact data x (List.mem_of_getElem? entry)
  have member : e.bare ∈ t.stack.map OpenElement.bare := by
    rw [h.open_elements, stack, List.drop_append_of_le_length inside]
    simp
  obtain ⟨e', open_element, bare⟩ := List.mem_map.mp member
  refine atEnd_of_mem mode open_element ?_
  rw [(eq_of_bare bare).1, h.cursor]
  exact own

/-- The elements inside of the one that an end tag belongs to are closed one after the other. -/
theorem exists_abandons (data : ∀ x ∈ s.stack, x.mode = .data)
    (stack : s.stack = above ++ e :: below) (more : s.cursor.rest ≠ [])
    (own : Tag.startsEndTag e.element.tag s.cursor.rest = true)
    (others : ∀ x ∈ above, Tag.startsEndTag x.element.tag s.cursor.rest = false) {i : Nat}
    (inside : i ≤ above.length) : ∃ t, Abandons o source s i t := by
  induction i with
  | zero => exact ⟨s, .refl s⟩
  | succ i ih =>
      obtain ⟨t, abandons⟩ := ih (Nat.le_of_succ_le inside)
      have ends := abandons.atEnd data stack (Nat.le_of_succ_le inside) own
      obtain ⟨x, entry, ⟨member, _⟩ | ⟨_, last⟩⟩ :=
        getElem?_above stack (Nat.le_of_succ_le inside)
      · exact ⟨_, abandons.next entry ends more (others x member)⟩
      · omega

end

/-- What the end tag at the cursor does when it belongs to `e`, which is open with `above` inside
    of it: in turn each of these is closed without an end tag, and then `e` by this one. Each time
    the element below receives what was finished, and nothing else changes further down. -/
structure Closes (o : Options) (source : List Char) (s : State) (above : List OpenElement)
    (e : OpenElement) (below : List OpenElement) : Prop where
  abandons : ∀ i ≤ above.length, ∃ t, Abandons o source s i t
  receives : ∀ i t, i ≤ above.length → Abandons o source s i t →
    ∃ x element children, s.stack[i]? = some x ∧ element.tag = x.element.tag ∧
      element.loc.start = x.element.loc.start ∧
      (t.step o source).stack = receive (Element.finished o element children) (s.stack.drop (i + 1))
  closes : ∀ t, Abandons o source s above.length t →
    t.isDone = false ∧
      (t.step o source).stack.map OpenElement.bare = below.map OpenElement.bare ∧
      (t.step o source).cursor = (Tag.read o .closing t.flags.vPre s.cursor).cursor ∧
      Tag.IsEndTagOf e.element.tag (s.cursor.textTo (t.step o source).cursor) ∧
      (t.step o source).errors =
        (Tag.read o .closing t.flags.vPre s.cursor).log.errors.reverse ++ t.errors ∧
      ∀ x ∈ (Tag.read o .closing t.flags.vPre s.cursor).log.errors, x.code ≠ .missingEndTag

/-- What an end tag at the cursor does when it belongs to no open element: it is reported and passed
    over. -/
structure PassesOver (o : Options) (source : List Char) (s : State) : Prop where
  goes : s.isDone = false
  stack : (s.step o source).stack = s.stack
  roots : (s.step o source).roots = s.roots
  cursor : (s.step o source).cursor = (Tag.read o .closing s.flags.vPre s.cursor).cursor
  errors : (s.step o source).errors = (Tag.read o .closing s.flags.vPre s.cursor).log.errors.reverse
    ++ .at .invalidEndTag s.cursor.position :: s.errors
  inside : ∀ x ∈ (Tag.read o .closing s.flags.vPre s.cursor).log.errors, x.code ≠ .invalidEndTag

theorem closes_of_endTag {above below : List OpenElement} {e : OpenElement} (h : Disciplined s)
    (data : s.mode = .data) (stack : s.stack = above ++ e :: below)
    (own : Tag.IsEndTagOf e.element.tag s.cursor.rest)
    (others : ∀ x ∈ above, ¬ Tag.IsEndTagOf x.element.tag s.cursor.rest) :
    Closes o source s above e below := by
  have more : s.cursor.rest ≠ [] := by
    obtain ⟨t, rest⟩ := own.1
    rw [← rest]
    exact List.cons_ne_nil _ _
  have named : ∀ x ∈ s.stack, Tag.startsEndTag x.element.tag s.cursor.rest = true ↔
      Tag.IsEndTagOf x.element.tag s.cursor.rest := fun x hx =>
    Tag.startsEndTag_iff (h.names x hx)
  have starts := (named e (by simp [stack])).mpr own
  have data := h.data data
  have ends : ∀ {i t}, i ≤ above.length → Abandons o source s i t → t.atEnd = true :=
    fun inside abandons => abandons.atEnd data stack inside starts
  refine ⟨fun i inside => ?_, fun i t inside abandons => ?_, fun t abandons => ?_⟩
  · refine exists_abandons data stack more starts (fun x hx => ?_) inside
    rw [Bool.eq_false_iff, ne_eq, named x (by simp [stack, hx])]
    exact others x hx
  · obtain ⟨x, entry, _⟩ := getElem?_above stack inside
    obtain ⟨x', top, same⟩ := abandons.top entry
    refine ⟨x, t.closed o source x' (s.stack.drop (i + 1)),
      finishedChildren o source t.flags.pre x', entry, ?_, ?_, ?_⟩
    · exact (filled_tag o t x').trans (by rw [(eq_of_bare same).1])
    · rw [h.starts x (List.mem_of_getElem? entry), ← (eq_of_bare same).2.2]
      rfl
    · rw [step_eq_closeElement o source (ends inside abandons) top, stack_closeElement]
  · have entry : s.stack[above.length]? = some e := by simp [stack]
    obtain ⟨e', top, same⟩ := abandons.top entry
    have below : s.stack.drop (above.length + 1) = below := by simp [stack]
    have matched : Tag.startsEndTag e'.element.tag t.cursor.rest = true := by
      rw [(eq_of_bare same).1, abandons.cursor]
      exact starts
    obtain ⟨cursor, errors⟩ := closeElement_matched o source e' (s.stack.drop (above.length + 1))
      matched
    rw [abandons.cursor] at cursor errors
    rw [step_eq_closeElement o source (ends (Nat.le_refl _) abandons) top, cursor, errors,
      stack_closeElement, map_bare_receive, below]
    refine ⟨not_isDone_of_top top, rfl, rfl, Tag.isEndTagOf_textTo o _ own, rfl, ?_⟩
    exact Log.Local.ne (Tag.read_local o .closing t.flags.vPre s.cursor) rfl

/-- The unread text starts with `</` and the first letter of a name. -/
def AtEndTag (s : State) : Prop :=
  ∃ letter rest, s.cursor.rest = '<' :: '/' :: letter :: rest ∧ Tag.isNameStart letter = true

theorem AtEndTag.classify (h : AtEndTag s) :
    Markup.classify (s.cursor.rest.drop 1) = .endTag := by
  obtain ⟨letter, rest, text, named⟩ := h
  have other : (letter == '>') = false := by
    rw [beq_eq_false_iff_ne]
    rintro rfl
    cases named
  rw [text]
  simp [Markup.classify, named, other]

theorem passesOver_of_endTag (h : Disciplined s) (data : s.mode = .data) (tag : AtEndTag s)
    (delimiter : o.openDelimiter.head? ≠ some '<')
    (none : ∀ e ∈ s.stack, ¬ Tag.IsEndTagOf e.element.tag s.cursor.rest) :
    PassesOver o source s := by
  obtain ⟨letter, rest, text, named⟩ := id tag
  have goes : s.atEnd = false := by
    have more : s.cursor.atEnd = false := by rw [Cursor.atEnd, text]; rfl
    rw [atEnd, data, more, Bool.false_or]
    refine List.any_eq_false.mpr fun e he => ?_
    rw [Tag.startsEndTag_iff (h.names e he)]
    exact none e he
  have plain : s.startsInterpolation o = false := by
    rw [startsInterpolation, Cursor.startsWith, text]
    cases start : o.openDelimiter with
    | nil => simp
    | cons c cs =>
        rw [start] at delimiter
        have other : c ≠ '<' := fun same => delimiter (by rw [same]; rfl)
        simp [List.isPrefixOf, other]
  have step : s.step o source = (s.reportAt .invalidEndTag s.cursor.position).after
      (Tag.read o .closing s.flags.vPre s.cursor) := by
    have head : s.cursor.rest.head? = some '<' := by rw [text]; rfl
    simp only [step, goes, readNode, data, plain, head, readMarkup, tag.classify]
    rfl
  refine ⟨?_, ?_, ?_, ?_, ?_, Log.Local.ne (Tag.read_local o .closing s.flags.vPre s.cursor) rfl⟩
  · rw [isDone, goes, Bool.and_false]
  all_goals rw [step]; rfl

end State

open State in
/-- The discipline of end tags and open elements, for every reading whose interpolations do not
    start like a tag. In every state only the innermost element can hold something else than
    markup. Where markup is read, an end tag closes the innermost open element of its name and,
    before that, all elements inside of that one, each with a report at its start; an end tag of no
    open element is reported and passed over. And each element that is ever open is closed once, by
    an end tag of its name or with one report that the tag is missing. -/
theorem parse_nesting (o : Options) (source : List Char)
    (delimiter : o.openDelimiter.head? ≠ some '<') (s : State) (reached : Reachable o source s) :
    (∀ e ∈ s.stack.tail, e.mode = .data) ∧
    (s.mode = .data → AtEndTag s →
      (∀ above e below, s.stack = above ++ e :: below →
        Tag.IsEndTagOf e.element.tag s.cursor.rest →
        (∀ x ∈ above, ¬ Tag.IsEndTagOf x.element.tag s.cursor.rest) →
        Closes o source s above e below) ∧
      ((∀ e ∈ s.stack, ¬ Tag.IsEndTagOf e.element.tag s.cursor.rest) → PassesOver o source s)) ∧
    ∀ e ∈ s.stack, Settled o source e.bare := by
  have disciplined := reached.disciplined
  refine ⟨disciplined.modes, fun data tag => ⟨fun above e below stack own others => ?_, ?_⟩,
    reached.settled⟩
  · exact closes_of_endTag disciplined data stack own others
  · exact passesOver_of_endTag disciplined data tag delimiter

open State in
theorem parse_nesting_of_unclosed :
    ∃ s b p, Options.base.openDelimiter.head? ≠ some '<' ∧
      Reachable .base "<p><b></P>".toList s ∧ s.stack = [b, p] ∧ s.mode = .data ∧ AtEndTag s ∧
      ¬ Tag.IsEndTagOf b.element.tag s.cursor.rest ∧ Tag.IsEndTagOf p.element.tag s.cursor.rest ∧
      Closes .base "<p><b></P>".toList s [b] p [] ∧
      Settled .base "<p><b></P>".toList b.bare := by
  generalize text : "<p><b></P>".toList = source
  have reached :
      Reachable .base source (((initial source).step .base source).step .base source) := by
    subst text
    exact .step (.step .initial (by decide +kernel)) (by decide +kernel)
  have tags : (((initial source).step .base source).step .base source).stack.map
      (fun e => e.element.tag) = [['b'], ['p']] := by
    subst text
    decide +kernel
  have mode : (((initial source).step .base source).step .base source).mode = .data := by
    subst text
    decide +kernel
  have rest : (((initial source).step .base source).step .base source).cursor.rest =
      "</P>".toList := by
    subst text
    decide +kernel
  revert reached tags mode rest
  generalize ((initial source).step .base source).step .base source = s
  intro reached tags mode rest
  obtain ⟨b, more, stack, b_tag, tags⟩ := List.map_eq_cons_iff.mp tags
  obtain ⟨p, more, rfl, p_tag, tags⟩ := List.map_eq_cons_iff.mp tags
  cases List.map_eq_nil_iff.mp tags
  have delimiter : Options.base.openDelimiter.head? ≠ some '<' := by decide
  have tag : AtEndTag s := ⟨'P', ['>'], rest, rfl⟩
  have other : ¬ Tag.IsEndTagOf b.element.tag s.cursor.rest := by
    rw [b_tag, rest]
    decide
  have own : Tag.IsEndTagOf p.element.tag s.cursor.rest := by
    rw [p_tag, rest]
    decide
  obtain ⟨_, ends, settled⟩ := parse_nesting .base source delimiter s reached
  refine ⟨s, b, p, delimiter, reached, stack, mode, tag, other, own, ?_, ?_⟩
  · exact (ends mode tag).1 [b] p [] stack own (by simpa using other)
  · exact settled b (by simp [stack])

end Stencil
