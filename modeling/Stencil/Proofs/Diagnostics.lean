import Mathlib.Data.List.Forall2
import Stencil.Proofs.Diagnostics.Siblings
import Stencil.Proofs.Excerpt.Tag

/-! # Diagnostics and output settings

What is kept of white space and comments says how the tree is to look. Two readings of a template
that differ in nothing else go through the same stages: they open and close the same elements in the
same places. Only their finished nodes differ, and these are asked about once, when a script is cut
off by the end of the template. So both report the same, with the exception of that one error; and
that one as well if both keep comments, or if scripts hold nothing but text.
-/

namespace Stencil

open Node (StartAlike)

/-- The same options, with what is kept of white space and comments said anew. -/
def Options.showing (o : Options) (w : Whitespace) (k : Bool) : Options :=
  { o with whitespace := w, comments := k }

theorem Tag.read_showing (o : Options) (w : Whitespace) (k : Bool) (kind : TagKind) (vPre : Bool)
    (c : Cursor) : read (o.showing w k) kind vPre c = read o kind vPre c :=
  read_congr o (o.showing w k) (fun _ _ _ => rfl) kind vPre c

/-- Reading content in a mode does not depend on what is kept: nothing is settled, or comments are
    kept. -/
def TextMode.IsSteady (o : Options) (k : Bool) (mode : TextMode) : Prop :=
  mode = .rawText ∨ mode = .rcData ∨ (o.comments = true ∧ k = true)

theorem TextMode.IsSteady.kept {o : Options} {k : Bool} (h : data.IsSteady o k) :
    o.comments = true ∧ k = true := by
  rcases h with h | h | h
  · cases h
  · cases h
  · exact h

/-- The errors that are compared leave out the one about scripts, unless all scripts are steady. -/
def Options.Compares (o : Options) (k : Bool) (reports : ErrorCode → Bool) : Prop :=
  reports .eofInScriptHtmlCommentLikeText = true → ∀ e parent,
    Text.sameIgnoringCase e.tag "script".toList = true → (o.textModeOf e parent).IsSteady o k

/-- Two open elements differ at most in what they hold, and where that matters not at the start. -/
structure OpenElement.Twin (o : Options) (k : Bool) (reports : ErrorCode → Bool)
    (e f : OpenElement) : Prop where
  bare : e.bare = f.bare
  children : e.mode.IsSteady o k → StartAlike e.children.reverse f.children.reverse
  /-- A script that may be asked about starts the same on both sides. -/
  script : reports .eofInScriptHtmlCommentLikeText = true →
    Text.sameIgnoringCase e.element.tag "script".toList = true → e.mode.IsSteady o k

/-- Two stages of reading are the same, apart from finished nodes and from errors that are not
    compared. -/
structure State.Twin (o : Options) (k : Bool) (reports : ErrorCode → Bool) (s t : State) :
    Prop where
  cursor : s.cursor = t.cursor
  flags : s.flags = t.flags
  warnings : s.warnings = t.warnings
  errors : s.errors.filter (fun x => reports x.code) = t.errors.filter (fun x => reports x.code)
  stack : List.Forall₂ (OpenElement.Twin o k reports) s.stack t.stack

namespace OpenElement.Twin

variable {o : Options} {k : Bool} {reports : ErrorCode → Bool} {e f : OpenElement}
  {ms ns : List Node}

theorem element (h : Twin o k reports e f) : e.element = f.element :=
  congrArg (fun x => x.element) h.bare

theorem start (h : Twin o k reports e f) : e.start = f.start :=
  congrArg (fun x => x.start) h.bare

theorem body (h : Twin o k reports e f) : e.body = f.body :=
  congrArg (fun x => x.body) h.bare

theorem mode (h : Twin o k reports e f) : e.mode = f.mode :=
  congrArg (fun x => x.mode) h.bare

theorem outer (h : Twin o k reports e f) : e.outer = f.outer :=
  congrArg (fun x => x.outer) h.bare

theorem receive (h : Twin o k reports e f) (alike : e.mode.IsSteady o k → StartAlike ms ns) :
    Twin o k reports (e.receive ms) (f.receive ns) where
  bare := h.bare
  children steady := Siblings.foldl_push_startAlike (h.children steady) (alike steady)
  script := h.script

theorem finishedChildren (h : Twin o k reports e f) (steady : e.mode.IsSteady o k)
    (w : Whitespace) (source : List Char) (inPre : Bool) :
    StartAlike (State.finishedChildren o source inPre e)
      (State.finishedChildren (o.showing w k) source inPre f) := by
  have children := h.children steady
  unfold State.finishedChildren
  rw [← h.mode, ← h.element]
  rcases steady with raw | rcData | ⟨kept, kept'⟩
  · rw [raw]
    exact children
  · rw [rcData]
    exact children
  · split
    · exact children
    · exact children
    · exact Siblings.settle_startAlike kept kept' children _ _
    · exact Siblings.settle_startAlike kept kept' children _ _
    · exact Siblings.settle_startAlike kept kept' children _ _

end OpenElement.Twin

namespace State

variable {o : Options} {w : Whitespace} {k : Bool} {reports : ErrorCode → Bool}
  {source : List Char} {s t : State} {ms ns : List Node}

theorem addAll_eq (s : State) (nodes : List Node) :
    ∃ roots, s.addAll nodes = { s with stack := receive nodes s.stack, roots := roots } := by
  induction nodes generalizing s with
  | nil => exact ⟨s.roots, by rw [receive_nil]; rfl⟩
  | cons node nodes ih =>
      obtain ⟨cursor, stack, roots, flags, errors, warnings⟩ := s
      obtain ⟨roots', rest⟩ := ih (add ⟨cursor, stack, roots, flags, errors, warnings⟩ node)
      refine ⟨roots', rest.trans ?_⟩
      rw [stack_add, ← receive_append]
      cases stack <;> rfl

namespace Twin

/-! ## What decides the next step -/

theorem bares (h : Twin o k reports s t) :
    s.stack.map OpenElement.bare = t.stack.map OpenElement.bare := by
  have all : ∀ {es fs}, List.Forall₂ (OpenElement.Twin o k reports) es fs →
      es.map OpenElement.bare = fs.map OpenElement.bare := by
    intro es fs twins
    induction twins with
    | nil => rfl
    | cons twin _ ih => rw [List.map_cons, List.map_cons, twin.bare, ih]
  exact all h.stack

theorem parent (h : Twin o k reports s t) : s.parent = t.parent := by
  have heads := congrArg (fun stack => stack.head?.map OpenElement.element) h.bares
  simpa [State.parent, Function.comp_def, OpenElement.bare] using heads

theorem mode (h : Twin o k reports s t) : s.mode = t.mode := by
  have heads := congrArg (fun stack => stack.head?.elim .data OpenElement.mode) h.bares
  simpa [State.mode, Function.comp_def, OpenElement.bare] using heads

theorem atEnd (h : Twin o k reports s t) : s.atEnd = t.atEnd := by
  have tags : (s.stack.any fun e => Tag.startsEndTag e.element.tag s.cursor.rest) =
      t.stack.any fun e => Tag.startsEndTag e.element.tag s.cursor.rest := by
    have tags := congrArg
      (fun stack => stack.any fun e => Tag.startsEndTag e.element.tag s.cursor.rest) h.bares
    simpa only [List.any_map, Function.comp_def, OpenElement.bare] using tags
  unfold State.atEnd
  rw [← h.cursor, ← h.mode, ← h.parent, tags]

theorem isDone (h : Twin o k reports s t) : s.isDone = t.isDone := by
  have empty : s.stack.isEmpty = t.stack.isEmpty := by
    have empty := congrArg List.isEmpty h.bares
    simpa only [List.isEmpty_map] using empty
  rw [State.isDone, State.isDone, empty, h.atEnd]

/-! ## Reports and finished nodes -/

theorem report (h : Twin o k reports s t) (log : Log) :
    Twin o k reports (s.report log) (t.report log) where
  cursor := h.cursor
  flags := h.flags
  warnings := congrArg (log.warnings.reverse ++ ·) h.warnings
  errors := by
    simp only [State.report, List.filter_append, h.errors]
  stack := h.stack

theorem reportAt (h : Twin o k reports s t) (code : ErrorCode) (p : Position) :
    Twin o k reports (s.reportAt code p) (t.reportAt code p) :=
  h.report (.error code p)

theorem filter_reportAt {code : ErrorCode} (hidden : reports code = false) (s : State)
    (p : Position) : (s.reportAt code p).errors.filter (fun x => reports x.code) =
      s.errors.filter (fun x => reports x.code) :=
  List.filter_cons_of_neg (Bool.eq_false_iff.mp hidden)

/-- An error that is not compared may be reported on one side only. -/
theorem reportAt_left (h : Twin o k reports s t) {code : ErrorCode} (hidden : reports code = false)
    (p : Position) : Twin o k reports (s.reportAt code p) t :=
  { h with errors := (filter_reportAt hidden s p).trans h.errors }

theorem reportAt_right (h : Twin o k reports s t) {code : ErrorCode}
    (hidden : reports code = false) (p : Position) : Twin o k reports s (t.reportAt code p) :=
  { h with errors := h.errors.trans (filter_reportAt hidden t p).symm }

theorem after {α : Type} (h : Twin o k reports s t) (r : Reading α) :
    Twin o k reports (s.after r) (t.after r) := by
  have moved : Twin o k reports { s with cursor := r.cursor } { t with cursor := r.cursor } :=
    { h with cursor := rfl }
  exact moved.report r.log

theorem addAll (h : Twin o k reports s t) (alike : s.mode.IsSteady o k → StartAlike ms ns) :
    Twin o k reports (s.addAll ms) (t.addAll ns) := by
  obtain ⟨roots, left⟩ := addAll_eq s ms
  obtain ⟨roots', right⟩ := addAll_eq t ns
  have stack : List.Forall₂ (OpenElement.Twin o k reports) (receive ms s.stack)
      (receive ns t.stack) := by
    have twins := h.stack
    generalize top : s.stack = stack, t.stack = stack' at twins ⊢
    cases twins with
    | nil => exact .nil
    | cons twin below => exact .cons (twin.receive (mode_of_top top ▸ alike)) below
  rw [left, right]
  exact { h with stack := stack }

theorem add (h : Twin o k reports s t) {m n : Node} (alike : StartAlike [m] [n]) :
    Twin o k reports (s.add m) (t.add n) :=
  h.addAll fun _ => alike

theorem addElement (h : Twin o k reports s t) (e : Element)
    (alike : s.mode.IsSteady o k → StartAlike ms ns) :
    Twin o k reports (s.addElement o e ms) (t.addElement (o.showing w k) e ns) := by
  have honoured : (o.showing w k).legacy = o.legacy := rfl
  unfold State.addElement
  rw [honoured]
  split
  · exact (h.report _).addAll alike
  · have other : ∀ children, (Node.element e children).kind ≠ .text := fun _ => by simp [Node.kind]
    exact h.add (.other (other ms) (other ns) rfl [] [])

/-! ## Steps -/

theorem readText (h : Twin o k reports s t) :
    Twin o k reports (s.readText o) (t.readText (o.showing w k)) := by
  have read : TextNode.read (o.showing w k) t.mode t.cursor = TextNode.read o s.mode s.cursor := by
    rw [← h.mode, ← h.cursor]
    rfl
  rw [State.readText, State.readText, read]
  exact (h.after _).add (.refl _)

theorem addComment (h : Twin o k reports s t) (r : Reading Comment) :
    Twin o k reports (s.addComment r) (t.addComment r) :=
  (h.after r).add (.refl _)

theorem readSection (h : Twin o k reports s t) (data : s.mode = .data) :
    Twin o k reports (s.readSection o source) (t.readSection (o.showing w k) source) := by
  rw [State.readSection, State.readSection, ← h.cursor, ← h.flags, ← h.parent]
  refine (h.after _).addAll fun steady => ?_
  obtain ⟨kept, kept'⟩ := TextMode.IsSteady.kept (data ▸ steady)
  exact Siblings.settle_startAlike kept kept' (.refl _) _ _

theorem readInterpolation (h : Twin o k reports s t) :
    Twin o k reports (s.readInterpolation o) (t.readInterpolation (o.showing w k)) := by
  have read : Interpolation.read? (o.showing w k) t.mode t.cursor =
      Interpolation.read? o s.mode s.cursor := by
    rw [← h.mode, ← h.cursor]
    rfl
  rw [State.readInterpolation, State.readInterpolation, read]
  split
  · exact (h.after _).add (.refl _)
  · rw [← h.cursor]
    exact (h.reportAt _ _).readText

theorem openElement (h : Twin o k reports s t) (compares : o.Compares k reports) :
    Twin o k reports (s.openElement o) (t.openElement (o.showing w k)) := by
  have tag : t.startTag (o.showing w k) = s.startTag o := by
    rw [startTag, ← h.cursor, ← h.flags, Tag.read_showing]
    rfl
  have inside : t.flagsInside (o.showing w k) = s.flagsInside o := by
    rw [flagsInside, tag, ← h.flags]
    rfl
  have started : t.started (o.showing w k) = s.started o := by
    rw [State.started, inside, tag, ← h.cursor, ← h.parent]
    rfl
  have after : Twin o k reports (s.afterStartTag o) (t.afterStartTag (o.showing w k)) := by
    rw [afterStartTag, afterStartTag, tag, started]
    exact (h.after _).report _
  have empty : t.startsEmpty (o.showing w k) = s.startsEmpty o := by
    rw [startsEmpty, started]
    rfl
  have entry : t.opened (o.showing w k) = s.opened o := by
    rw [opened, started, tag, ← h.cursor, ← h.parent, ← h.flags]
    rfl
  have depth : (o.showing w k).maxDepth ≤ t.stack.length ↔ o.maxDepth ≤ s.stack.length := by
    rw [h.stack.length_eq]
    rfl
  rw [openElement_eq, openElement_eq, empty, started, inside, entry, ← h.cursor]
  simp only [depth]
  split
  · exact after.addElement _ fun _ => .nil
  · split
    · exact (after.reportAt _ _).addElement _ fun _ => .nil
    · have twin : OpenElement.Twin o k reports (s.opened o) (s.opened o) :=
        ⟨rfl, fun _ => .nil, fun told script => compares told _ _ script⟩
      exact { after with flags := rfl, stack := .cons twin h.stack }

/-- The end of an element is the same on both sides if its children start alike whenever that is
    asked for. -/
theorem readEndTag (h : Twin o k reports s t) (e : Element)
    (alike : reports .eofInScriptHtmlCommentLikeText = true →
      Text.sameIgnoringCase e.tag "script".toList = true → StartAlike ms ns) :
    Twin o k reports (s.readEndTag o e ms) (t.readEndTag (o.showing w k) e ns) := by
  have missing := h.reportAt .missingEndTag e.loc.start
  unfold State.readEndTag
  rw [← h.cursor, ← h.flags, Tag.read_showing]
  dsimp only
  split
  · exact h.after _
  · cases told : reports .eofInScriptHtmlCommentLikeText with
    | true =>
        have same : isCommentLikeScript e.tag ms = isCommentLikeScript e.tag ns := by
          unfold isCommentLikeScript
          cases script : Text.sameIgnoringCase e.tag "script".toList with
          | false => rfl
          | true =>
              rw [(alike told script).any_head? fun loc => Comment.opener.isPrefixOf loc.source]
        rw [same]
        split
        · exact missing.reportAt _ _
        · exact missing
    | false =>
        -- The error is left out, so either side may report it or not.
        split
        · split
          · exact missing.reportAt _ _
          · exact missing.reportAt_left told _
        · split
          · exact missing.reportAt_right told _
          · exact missing

theorem closeElement (h : Twin o k reports s t) (disciplined : Disciplined s) {e f : OpenElement}
    {stack stack' : List OpenElement} (top : s.stack = e :: stack) (top' : t.stack = f :: stack') :
    Twin o k reports (s.closeElement o source e stack)
      (t.closeElement (o.showing w k) source f stack') := by
  have twins := h.stack
  rw [top, top'] at twins
  obtain ⟨twin, below⟩ := List.forall₂_cons.mp twins
  have popped : Twin o k reports { s with stack := stack } { t with stack := stack' } :=
    { h with stack := below }
  have finished (steady : e.mode.IsSteady o k) :
      StartAlike (finishedChildren o source s.flags.pre e)
        (finishedChildren (o.showing w k) source t.flags.pre f) :=
    h.flags ▸ twin.finishedChildren steady w source s.flags.pre
  have filled : t.filled (o.showing w k) f = s.filled o e := by
    rw [State.filled, ← twin.element, ← twin.body, ← h.cursor]
    rfl
  have after : Twin o k reports (s.afterEndTag o source e stack)
      (t.afterEndTag (o.showing w k) source f stack') := by
    rw [afterEndTag, afterEndTag, filled]
    refine (popped.report _).readEndTag _ fun told script => ?_
    rw [filled_tag] at script
    exact finished (twin.script told script)
  have closed : t.closed (o.showing w k) source f stack' = s.closed o source e stack := by
    rw [State.closed, State.closed, filled, ← after.cursor, twin.start]
  have outside : Twin o k reports { s.afterEndTag o source e stack with flags := e.outer }
      { t.afterEndTag (o.showing w k) source f stack' with flags := f.outer } :=
    { after with flags := twin.outer }
  rw [closeElement_eq, closeElement_eq, closed]
  refine outside.addElement _ fun steady => ?_
  -- Only the innermost element can hold anything else than markup, so the next one does not.
  have data : { s.afterEndTag o source e stack with flags := e.outer }.mode = .data := by
    have left : (s.afterEndTag o source e stack).stack = stack := by
      simp only [afterEndTag, stack_readEndTag, stack_report]
    cases stack with
    | nil => rw [State.mode, left]; rfl
    | cons d stack => exact (mode_of_top left).trans (disciplined.modes d (by simp [top]))
  exact finished (.inr (.inr (TextMode.IsSteady.kept (data ▸ steady))))

theorem readMarkup (h : Twin o k reports s t) (compares : o.Compares k reports)
    (data : s.mode = .data) :
    Twin o k reports (s.readMarkup o source) (t.readMarkup (o.showing w k) source) := by
  unfold State.readMarkup
  dsimp only
  rw [← h.cursor, ← h.flags, ← h.parent, Tag.read_showing]
  split
  · exact (h.reportAt _ _).readText
  · exact h.addComment _
  · exact h.addComment _
  · split
    · exact h.readSection data
    · exact (h.reportAt _ _).addComment _
  · exact (h.reportAt _ _).addComment _
  · exact (h.reportAt _ _).readText
  · exact { h.reportAt .missingEndTagName (s.cursor.ahead 2) with cursor := rfl }
  · exact (h.reportAt _ _).after _
  · exact (h.reportAt _ _).addComment _
  · exact h.openElement compares
  · exact (h.reportAt _ _).addComment _
  · exact (h.reportAt _ _).readText

theorem readNode (h : Twin o k reports s t) (compares : o.Compares k reports) :
    Twin o k reports (s.readNode o source) (t.readNode (o.showing w k) source) := by
  have starts : t.startsInterpolation (o.showing w k) = s.startsInterpolation o := by
    rw [startsInterpolation, ← h.cursor, ← h.flags]
    rfl
  unfold State.readNode
  rw [← h.mode, ← h.cursor, starts]
  split
  · next data =>
    split
    · exact h.readInterpolation
    · split
      · exact h.readMarkup compares data
      · exact h.readText
  · split
    · exact h.readInterpolation
    · exact h.readText
  · exact h.readText
  · exact h.readText
  · exact h.readText

theorem step (h : Twin o k reports s t) (compares : o.Compares k reports)
    (disciplined : Disciplined s) :
    Twin o k reports (s.step o source) (t.step (o.showing w k) source) := by
  have twins := h.stack
  unfold State.step
  rw [← h.atEnd]
  split
  · cases top : s.stack with
    | nil =>
        rw [top] at twins
        rw [List.forall₂_nil_left_iff.mp twins]
        exact h
    | cons e stack =>
        rw [top] at twins
        obtain ⟨f, stack', _, _, top'⟩ := List.forall₂_cons_left_iff.mp twins
        rw [top']
        exact h.closeElement disciplined top top'
  · exact h.readNode compares

theorem run (h : Twin o k reports s t) (compares : o.Compares k reports)
    (disciplined : Disciplined s) :
    Twin o k reports (s.run o source) (t.run (o.showing w k) source) := by
  fun_induction State.run o source s generalizing t with
  | case1 s done =>
      rw [run_of_isDone (h.isDone ▸ done)]
      exact h
  | case2 s goes ih =>
      have goes : s.isDone = false := Bool.eq_false_iff.mpr goes
      have goes' : t.isDone = false := h.isDone ▸ goes
      rw [run_of_not_isDone goes']
      exact ih (h.step compares disciplined) ((step_cases goes).stackStep.disciplined disciplined)

end Twin

end State

/-- Two readings of a template that differ in what they keep report the same, as far as errors are
    compared. -/
theorem parse_showing {o : Options} {k : Bool} {reports : ErrorCode → Bool}
    (compares : o.Compares k reports) (w : Whitespace) (source : List Char) :
    (parse o source).warnings = (parse (o.showing w k) source).warnings ∧
      (parse o source).errors.filter (fun x => reports x.code) =
        (parse (o.showing w k) source).errors.filter (fun x => reports x.code) := by
  have start : State.Twin o k reports (.initial source) (.initial source) :=
    ⟨rfl, rfl, rfl, rfl, .nil⟩
  have reached : State.Reachable o source (.initial source) := .initial
  have twin : State.Twin o k reports ((State.initial source).run o source)
      ((State.initial source).run (o.showing w k) source) := start.run compares reached.disciplined
  refine ⟨congrArg List.reverse twin.warnings, ?_⟩
  have errors := congrArg List.reverse twin.errors
  rwa [← List.filter_reverse, ← List.filter_reverse] at errors

/-- What is kept of white space and comments changes no warning, and no error but the one about a
    script that starts like a comment. It does not change that one if comments are kept either way,
    or if scripts hold nothing but text. -/
theorem parse_diagnostics (o : Options) (w : Whitespace) (k : Bool) (source : List Char) :
    let told := parse o source
    let other := parse { o with whitespace := w, comments := k } source
    told.warnings = other.warnings ∧
      told.errors.filter (fun x => x.code != .eofInScriptHtmlCommentLikeText) =
        other.errors.filter (fun x => x.code != .eofInScriptHtmlCommentLikeText) ∧
      ((o.comments = true ∧ k = true) ∨ (∀ e parent,
          Text.sameIgnoringCase e.tag "script".toList = true →
            o.textModeOf e parent = .rawText ∨ o.textModeOf e parent = .rcData) →
        told.errors = other.errors) := by
  intro told other
  have apart : o.Compares k fun code => code != .eofInScriptHtmlCommentLikeText :=
    fun told => absurd told (by decide)
  obtain ⟨warnings, errors⟩ := parse_showing apart w source
  refine ⟨warnings, errors, fun steady => ?_⟩
  have whole : o.Compares k fun _ => true := by
    intro _ e parent script
    rcases steady with kept | raw
    · exact .inr (.inr kept)
    · rcases raw e parent script with raw | raw
      · exact .inl raw
      · exact .inr (.inl raw)
  have errors := (parse_showing whole w source).2
  simp only [List.filter_true] at errors
  exact errors

/-- With comments kept, a script that starts like a comment is found whatever the white space. -/
theorem parse_diagnostics_script :
    let source := "<script> <!-- a".toList
    let told := parse .base source
    let other := parse { Options.base with whitespace := .preserve, comments := true } source
    told.errors = other.errors ∧ other.errors.map (fun x => x.code) =
      [.eofInComment, .missingEndTag, .eofInScriptHtmlCommentLikeText] := by
  intro source told other
  refine ⟨(parse_diagnostics .base .preserve true source).2.2 (.inl ⟨rfl, rfl⟩), ?_⟩
  decide +kernel

/-- Without comments in the tree, the comment that an unclosed script starts with goes
    unnoticed. -/
theorem errors_ne_of_comments_dropped :
    ¬ ∀ (o : Options) (w : Whitespace) (k : Bool) (source : List Char),
      (parse o source).errors =
          (parse { o with whitespace := w, comments := k } source).errors ∧
        (parse o source).warnings =
          (parse { o with whitespace := w, comments := k } source).warnings := by
  intro same
  have errors := (same .base .condense false "<script><!-- a".toList).1
  revert errors
  decide +kernel

end Stencil
