import Stencil.Proofs.AttributeList
import Stencil.Proofs.Containment
import Stencil.Proofs.Scoping
import Stencil.Proofs.Termination

/-! # Directives switched off

The directive `pre` is noticed only when its attribute list has been read, so the list is read again
without directives. The two readings of a list differ only in what they make of it: they take the
same text, find the same names in the same places and report the same errors, those about
directives apart. What is inside of the element is literal then, to its end.
-/

namespace Stencil

/-! ## Two readings of a list -/

/-- A plain attribute. -/
def Property.isAttribute : Property → Bool
  | .attribute _ => true
  | .directive _ => false

/-- How the reading `off` of an attribute list without directives compares to the reading `on` of
    the same list with directives. -/
structure Reading.WithoutDirectives (on off : Reading (List Property)) : Prop where
  cursor : off.cursor = on.cursor
  names : off.value.map (fun p => (p.loc, p.rawName)) = on.value.map fun p => (p.loc, p.rawName)
  attributes : ∀ p ∈ off.value, p.isAttribute = true
  errors : off.log.errors = on.log.errors.filter (!·.code.isAboutDirective)
  warnings : off.log.warnings = []

namespace Property

variable (o : Options) (seen : List (List Char)) (c : Cursor)

theorem isAttribute_read : (read o true seen c).value.isAttribute = true := by
  simp [read, isAttribute]

/-- Without directives an attribute is reported as it is with them, the errors about directives
    apart. -/
theorem errors_read :
    (read o true seen c).log.errors =
      (read o false seen c).log.errors.filter (!·.code.isAboutDirective) := by
  obtain ⟨off, whole, _, none⟩ := log_read o true seen c
  obtain ⟨on, whole', directive, _⟩ := log_read o false seen c
  have names := (allOf_nameErrors seen c (nameAt c.rest)).filter_eq_self
    (p := (!·.isAboutDirective)) (by simp_all [ErrorCode.not_isAboutDirective])
  have values := (log_readValue o (c.skip (nameAt c.rest).length)).1.filter_eq_self
    (p := (!·.isAboutDirective)) (by simp_all [ErrorCode.not_isAboutDirective])
  have directives := directive.filter_eq_nil (p := (!·.isAboutDirective)) (by simp)
  simp [whole, whole', none rfl, names, values, directives]

theorem warnings_read : (read o true seen c).log.warnings = [] := by
  obtain ⟨log, whole, _, none⟩ := log_read o true seen c
  simp [whole, none rfl, (log_readValue o (c.skip (nameAt c.rest).length)).2]

theorem withoutDirectives_readAll (kind : TagKind) :
    (readAll o kind false seen c).WithoutDirectives (readAll o kind true seen c) := by
  fun_induction readAll o kind false seen c with
  | case1 seen c text =>
      rw [readAll_of_nil o kind true seen text]
      exact ⟨rfl, rfl, List.forall_mem_nil _, rfl, rfl⟩
  | case2 seen c s text =>
      rw [readAll_of_end o kind true seen text]
      exact ⟨rfl, rfl, List.forall_mem_nil _, rfl, rfl⟩
  | case3 seen c s text =>
      rw [readAll_of_selfEnd o kind true seen text]
      exact ⟨rfl, rfl, List.forall_mem_nil _, rfl, rfl⟩
  | case4 seen c s other text r ih =>
      rw [readAll_of_solidus o kind true seen text other]
      refine { ih with errors := ?_, warnings := ?_ }
      · simp [ih.errors, r, ErrorCode.isAboutDirective]
      · simpa using ih.warnings
  | case5 seen c x s bracket _ solidus text a r atEndTag ih =>
      obtain ⟨name, loc, _⟩ := value_read o true seen c
      obtain ⟨name', loc', _⟩ := value_read o false seen c
      have cursor : (read o true seen c).cursor = a.cursor := by
        rw [cursor_read, cursor_read]
      -- Both readings go on behind the same names, so they agree on what is a duplicate later.
      have same : (read o true seen c).value.rawName = a.value.rawName := name.trans name'.symm
      have place : (read o true seen c).value.loc = a.value.loc := by
        rw [loc, loc', cursor]
      rw [readAll_of_name o kind true seen text bracket solidus, same, cursor]
      refine ⟨ih.cursor, ?_, ?_, ?_, ?_⟩
      · cases kind with
        | opening => simp [same, place, ih.names, r]
        | closing => exact ih.names
      · cases kind with
        | opening => simpa [isAttribute_read] using ih.attributes
        | closing => exact ih.attributes
      · have other : ErrorCode.isAboutDirective .endTagWithAttributes = false := rfl
        have spacing := (allOf_spacingErrors a.cursor).filter_eq_self
          (p := (!·.isAboutDirective)) (by simp [ErrorCode.isAboutDirective])
        cases kind <;> simp [errors_read, ih.errors, spacing, atEndTag, a, r, other]
      · simp [warnings_read, ih.warnings]

end Property

/-! ## Tags -/

namespace Tag

variable {o : Options} {c : Cursor}

/-- With directives on, the tag at `c` has the directive `pre`. -/
def HasPre (o : Options) (c : Cursor) : Prop :=
  (pass o .opening c false).value.any (·.isDirective "pre".toList) = true

theorem read_of_hasPre (h : HasPre o c) :
    read o .opening false c =
      ofList .opening (nameAt .opening c.rest) true (pass o .opening c true) := by
  have off : startsVPreWith .opening false (pass o .opening c false).value = true := by
    rw [startsVPreWith, h]
    rfl
  rw [pass] at off
  simp only [read_eq, off, if_true]
  rfl

/-- Where directives are off, or are switched off by the tag itself, a tag has attributes only. -/
theorem isAttribute_of_mem_read {vPre : Bool} (off : vPre = true ∨ HasPre o c) :
    ∀ p ∈ (read o .opening vPre c).value.props, p.isAttribute = true := by
  have plain : ∀ p ∈ (pass o .opening c true).value, p.isAttribute = true :=
    (Property.withoutDirectives_readAll o [] _ .opening).attributes
  cases vPre with
  | true =>
      simp only [read_eq, not_startsVPreWith_true, ofList, Bool.false_eq_true, if_false]
      exact plain
  | false =>
      rw [read_of_hasPre (off.resolve_left Bool.false_ne_true)]
      exact fun p member => plain p (List.mem_filter.mp member).1

end Tag

/-! ## What is inside -/

/-- An element of the platform with attributes only. -/
def Element.IsLiteral (e : Element) : Prop :=
  e.kind = .element ∧ ∀ p ∈ e.props, p.isAttribute = true

/-- A tree of literal elements, texts and comments. -/
inductive Node.IsLiteral : Node → Prop where
  | element {e : Element} {children : List Node} (plain : e.IsLiteral)
      (inner : ∀ n ∈ children, IsLiteral n) : IsLiteral (.element e children)
  | text (t : TextNode) : IsLiteral (.text t)
  | comment (c : Comment) : IsLiteral (.comment c)

/-- An open element that is literal, with what it holds so far. -/
def OpenElement.IsLiteral (e : OpenElement) : Prop :=
  e.element.IsLiteral ∧ ∀ n ∈ e.children, n.IsLiteral

/-- Above `below` stands the entry `first`, and it is literal, as are all entries above it. -/
inductive OpenElement.LiteralAbove (first : OpenElement) (below : List OpenElement) :
    List OpenElement → Prop where
  | first {e : OpenElement} (entry : e.bare = first) (plain : e.IsLiteral) :
      LiteralAbove first below (e :: below)
  | inner {e : OpenElement} {stack : List OpenElement} (plain : e.IsLiteral)
      (rest : LiteralAbove first below stack) : LiteralAbove first below (e :: stack)

namespace OpenElement

variable {o : Options} {first e : OpenElement} {below stack : List OpenElement} {nodes : List Node}

theorem IsLiteral.receive (h : e.IsLiteral) (plain : ∀ n ∈ nodes, n.IsLiteral) :
    (e.receive nodes).IsLiteral := by
  induction nodes generalizing e with
  | nil => exact h
  | cons node nodes ih =>
      obtain ⟨now, later⟩ := List.forall_mem_cons.mp plain
      have pushed : (e.receive [node]).IsLiteral := ⟨h.1, Siblings.forall_push .text h.2 now⟩
      exact ih pushed later

theorem LiteralAbove.receive (h : LiteralAbove first below stack)
    (plain : ∀ n ∈ nodes, n.IsLiteral) : LiteralAbove first below (State.receive nodes stack) := by
  cases h with
  | first entry literal => exact .first entry (literal.receive plain)
  | inner literal rest => exact .inner (literal.receive plain) rest

theorem LiteralAbove.top (h : LiteralAbove first below (e :: stack)) : e.IsLiteral := by
  cases h with
  | first _ literal => exact literal
  | inner literal _ => exact literal

theorem LiteralAbove.tail (h : LiteralAbove first below (e :: stack))
    (deep : below.length < stack.length) : LiteralAbove first below stack := by
  cases h with
  | first => exact absurd deep (Nat.lt_irrefl _)
  | inner _ rest => exact rest

/-- What the lowest of these elements switched off is off inside of all of them. -/
theorem LiteralAbove.vPre (h : LiteralAbove first below stack) (off : first.switchesVPre o = true) :
    (Flags.within o stack).vPre = true := by
  induction h with
  | @first e entry =>
      have same : e.switchesVPre o = true := by
        rw [← entry] at off
        exact off
      simp [Flags.within, same]
  | inner _ _ ih =>
      simp only [Flags.within, List.any_cons] at ih ⊢
      simp [ih]

end OpenElement

namespace State

open OpenElement

variable {o : Options} {source : List Char} {s t : State} {first e : OpenElement}
  {below stack : List OpenElement}

/-- The start tag at the cursor switches directives off. -/
structure SwitchesOff (o : Options) (s : State) : Prop where
  outside : s.flags.vPre = false
  pre : Tag.HasPre o s.cursor

theorem SwitchesOff.startsVPre (h : s.SwitchesOff o) : (s.startTag o).value.startsVPre = true := by
  rw [startTag, h.outside, Tag.read_of_hasPre h.pre]
  rfl

theorem isLiteral_started (off : s.flags.vPre = true ∨ s.SwitchesOff o) :
    (s.started o).1.IsLiteral := by
  constructor
  · have inside : (s.flagsInside o).vPre = true := by
      rcases off with off | off
      · simp [flagsInside, off]
      · simp [flagsInside, off.startsVPre]
    simp [started, Element.ofTag, Element.classify, inside]
  · exact Tag.isAttribute_of_mem_read (off.imp_right SwitchesOff.pre)

theorem isLiteral_closed (h : e.element.IsLiteral) : (s.closed o source e stack).IsLiteral := by
  constructor
  · have kind : (s.filled o e).1.kind = e.element.kind := by
      unfold filled withInlineTemplate
      split
      · split <;> rfl
      · rfl
    exact kind.trans h.1
  · intro p member
    rcases mem_withInlineTemplate member with old | ⟨a, rfl, _⟩
    · exact h.2 p old
    · rfl

/-- Also the children of a `template` that is left out are literal. -/
theorem isLiteral_finished {e : Element} {nodes : List Node} (h : e.IsLiteral)
    (inner : ∀ n ∈ nodes, n.IsLiteral) : ∀ n ∈ e.finished o nodes, n.IsLiteral := by
  unfold Element.finished
  split
  · exact inner
  · simpa using .element h inner

theorem Opening.literalAbove (k : Opening o s t) (off : s.flags.vPre = true)
    (h : LiteralAbove first below s.stack) : LiteralAbove first below t.stack := by
  have started := isLiteral_started (o := o) (.inl off)
  cases k with
  | empty =>
      rw [stack_addElement]
      exact h.receive (isLiteral_finished started nofun)
  | tooDeep =>
      rw [stack_addElement]
      exact h.receive (isLiteral_finished started nofun)
  | opened => exact .inner ⟨started, nofun⟩ h

/-- Where directives are off, a step inside of a literal element adds nothing that is not. -/
theorem Step.literalAbove (k : Step o source s t) (off : s.flags.vPre = true)
    (h : LiteralAbove first below s.stack) (deep : below.length < t.stack.length) :
    LiteralAbove first below t.stack := by
  cases k with
  | @close e stack ends top =>
      rw [top] at h
      rw [stack_closeElement] at deep ⊢
      have inner := forall_finishedChildren .text o source s.flags.pre h.top.2
      refine (h.tail ?_).receive (isLiteral_finished (isLiteral_closed h.top.1) inner)
      cases stack with
      | nil => exact deep
      | cons => exact deep
  | text =>
      rw [readText, stack_add]
      exact h.receive (by simp [Node.IsLiteral.text])
  | interpolation _ starts =>
      rw [startsInterpolation, off] at starts
      cases starts
  | comment =>
      rw [addComment, stack_add]
      exact h.receive (by simp [Node.IsLiteral.comment])
  | cdata =>
      rw [readSection, stack_addAll]
      refine h.receive (Siblings.forall_settle .text o source _ _ fun n hn => ?_)
      obtain ⟨t, _, rfl⟩ := List.mem_map.mp hn
      exact .text t
  | namelessEndTag => exact h
  | strayEndTag => exact h
  | startTag => exact (openElement_cases o s).literalAbove off h

theorem Opens.stack_of_deeper (opens : s.Opens o)
    (deep : s.stack.length < (s.step o source).stack.length) :
    (s.step o source).stack = s.opened o :: s.stack := by
  rw [opens.step_eq source] at deep ⊢
  have opening := openElement_cases o s
  generalize s.openElement o = t at opening deep
  cases opening with
  | empty =>
      rw [length_stack_addElement] at deep
      exact absurd deep (Nat.lt_irrefl _)
  | tooDeep =>
      rw [length_stack_addElement] at deep
      exact absurd deep (Nat.lt_irrefl _)
  | opened => rfl

/-- From its start tag until it is closed, an element that switches directives off holds literal
    nodes only, and directives are off inside of it. -/
theorem SwitchesOff.inside (h : s.SwitchesOff o) (reachable : Reachable o source s)
    (opens : s.Opens o) (inside : StaysInside o source s.stack.length (s.step o source) t)
    (deep : s.stack.length < t.stack.length) :
    LiteralAbove (s.opened o) s.stack t.stack ∧ t.flags.vPre = true := by
  have reached : ∀ {t}, StaysInside o source s.stack.length (s.step o source) t →
      Reachable o source t := (reachable.step opens.not_isDone).staysInside
  -- The entry of the element stays on the stack, and its start tag decides about the flags.
  have off : ∀ {t}, StaysInside o source s.stack.length (s.step o source) t →
      LiteralAbove (s.opened o) s.stack t.stack → t.flags.vPre = true := by
    intro t inside literal
    rw [(reached inside).flags_within]
    exact literal.vPre h.startsVPre
  induction inside with
  | refl =>
      have literal : LiteralAbove (s.opened o) s.stack (s.step o source).stack := by
        rw [opens.stack_of_deeper deep]
        exact .first rfl ⟨isLiteral_started (.inr h), List.forall_mem_nil _⟩
      exact ⟨literal, off .refl literal⟩
  | step inside deep' ih =>
      obtain ⟨literal, vPre⟩ := ih deep'
      have next := (step_cases (not_isDone_of_length deep')).literalAbove vPre literal deep
      exact ⟨next, off (inside.step deep') next⟩

/-- An element that switches directives off is literal when it is finished, and so is everything in
    it. -/
theorem SwitchesOff.finished {e : Element} {children : List Node} (h : s.SwitchesOff o)
    (reachable : Reachable o source s) (opens : s.Opens o)
    (finished : s.Finished o source e children) : (Node.element e children).IsLiteral := by
  have started := isLiteral_started (.inr h)
  cases finished with
  | empty => exact .element started nofun
  | tooDeep => exact .element started nofun
  | closed _ _ inside top _ _ _ =>
      have literal := (h.inside reachable opens inside (by simp [top])).1
      rw [top] at literal
      exact .element (isLiteral_closed literal.top.1)
        (forall_finishedChildren .text o source _ literal.top.2)

end State

open State in
/-- An attribute list can be read again without directives. Both readings of a list take the same
    text, find the same names in the same places and report the same errors, those about directives
    apart; the one without directives has attributes only and no warnings. So when the first reading
    of a start tag finds the directive `pre`, the tag ends where that reading left it, and what is
    reported and kept is that of the second one, without `v-pre` itself. The element and everything
    that is opened before it is closed are elements of the platform with attributes only, and
    no interpolation is read in it. -/
theorem vPre_switches_directives_off (o : Options) :
    (∀ kind seen c, (Property.readAll o kind false seen c).WithoutDirectives
      (Property.readAll o kind true seen c)) ∧
    (∀ c, Tag.HasPre o c →
      let first := Tag.pass o .opening c false
      let second := Tag.pass o .opening c true
      let close := Tag.readEnd .opening first.cursor
      let tag := Tag.read o .opening false c
      tag.cursor = close.cursor ∧ tag.log = second.log ++ close.log ∧
        tag.value.props = second.value.filter (fun p => p.name != "v-pre".toList) ∧
        tag.value.isSelfClosing = close.value ∧ tag.value.startsVPre = true) ∧
    ∀ source s, Reachable o source s → s.Opens o → s.SwitchesOff o →
      (s.started o).1.IsLiteral ∧
      (∀ t, StaysInside o source s.stack.length (s.step o source) t →
        s.stack.length < t.stack.length →
          t.startsInterpolation o = false ∧ (t.Opens o → (t.started o).1.IsLiteral)) ∧
      ∀ e children, s.Finished o source e children → (Node.element e children).IsLiteral := by
  have again := fun kind seen c => Property.withoutDirectives_readAll o seen c kind
  refine ⟨again, fun c pre => ?_, fun source s reachable opens off => ?_⟩
  · intro first second close tag
    have cursor : second.cursor = first.cursor := (again .opening [] _).cursor
    have whole : tag = Tag.ofList .opening (Tag.nameAt .opening c.rest) true second :=
      Tag.read_of_hasPre pre
    simp [whole, Tag.ofList, cursor, close]
  · refine ⟨isLiteral_started (.inr off), fun t inside deep => ?_,
      fun e children => off.finished reachable opens⟩
    have vPre := (off.inside reachable opens inside deep).2
    exact ⟨by simp [startsInterpolation, vPre], fun _ => isLiteral_started (.inl vPre)⟩

open State in
/-- A start tag whose first reading has an error that the second one does not have, with what would
    be a component and an interpolation inside. -/
theorem vPre_switches_directives_off_nested :
    let o := Options.base
    let source := "<p :[a=b v-pre #c><Q :d>{{ e }}".toList
    let s := initial source
    let t := s.step o source
    let u := t.step o source
    Reachable o source s ∧ s.Opens o ∧ s.SwitchesOff o ∧
      (Tag.pass o .opening s.cursor false).log.errors.map (·.code) =
        [.missingDynamicDirectiveArgumentEnd] ∧
      (Tag.pass o .opening s.cursor true).log.errors = [] ∧
      t.Opens o ∧ (t.started o).1.tag = "Q".toList ∧ (t.started o).1.IsLiteral ∧
      u.cursor.startsWith o.openDelimiter = true ∧ u.startsInterpolation o = false := by
  intro o source s t u
  have opens : s.Opens o := ⟨by decide +kernel, by decide +kernel, by decide +kernel,
    by decide +kernel, by decide +kernel⟩
  have off : s.SwitchesOff o := ⟨rfl, by unfold Tag.HasPre; decide +kernel⟩
  have next : t.Opens o := ⟨by decide +kernel, by decide +kernel,
    by decide +kernel, by decide +kernel, by decide +kernel⟩
  have deep : s.stack.length < t.stack.length := by decide +kernel
  have deeper : s.stack.length < u.stack.length := by decide +kernel
  obtain ⟨again, _, inside⟩ := vPre_switches_directives_off o
  obtain ⟨_, inner, _⟩ := inside source s .initial opens off
  have silent : (Tag.pass o .opening s.cursor true).log.errors = [] := by
    rw [Tag.pass, (again .opening [] _).errors]
    decide +kernel
  exact ⟨.initial, opens, off, by decide +kernel, silent, next, by decide +kernel,
    (inner t .refl deep).2 next, by decide +kernel, (inner u (.step .refl deep) deeper).1⟩

end Stencil
