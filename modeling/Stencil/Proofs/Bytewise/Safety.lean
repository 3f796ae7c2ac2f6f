import Stencil.Proofs.Bytewise.Parser

/-! # Parsing by bytes does no wrong

The parser that counts bytes follows the reader of characters step by step: what the parser knows
of a state of the reader is all of it except for the cursors. So it comes to the same template, and
on the way nothing is cut inside of a character, nothing is consumed beyond the end, no difference
is negative, no position too large and no loop endless, as long as the template has room for its
positions.
-/

namespace Stencil

/-- What a parser knows of an open element. -/
def OpenElement.entry (e : OpenElement) : Entry :=
  ⟨e.element, e.mode, e.children, e.outer⟩

namespace State

/-- What a parser knows of a state. -/
def progress (s : State) : Progress :=
  ⟨⟨s.cursor.position, ⟨s.errors.reverse, s.warnings.reverse⟩⟩, s.stack.map OpenElement.entry,
    s.roots, s.flags⟩

variable (s : State)

@[simp]
theorem parent_progress : s.progress.parent = s.parent := by
  cases top : s.stack <;> simp [Progress.parent, progress, parent, top, OpenElement.entry]

@[simp]
theorem mode_progress : s.progress.mode = s.mode := by
  cases top : s.stack <;> simp [Progress.mode, progress, mode, top, OpenElement.entry]

@[simp]
theorem flags_progress : s.progress.flags = s.flags := rfl

theorem progress_add (node : Node) : (s.add node).progress = s.progress.add node := by
  unfold add Progress.add
  cases top : s.stack with
  | nil => simp [progress, top]
  | cons e stack => simp [progress, top, OpenElement.entry]

theorem progress_addAll (nodes : List Node) :
    (s.addAll nodes).progress = nodes.foldl Progress.add s.progress := by
  induction nodes generalizing s with
  | nil => rfl
  | cons node nodes ih =>
      rw [addAll, List.foldl_cons, ← addAll, ih, progress_add]
      rfl

theorem progress_after {α : Type} (r : Reading α) :
    (s.after r).progress = { s.progress with
      scan := ⟨r.cursor.position, s.progress.scan.log ++ r.log⟩ } := by
  simp only [progress, after, report, List.reverse_append, List.reverse_reverse]
  rfl

end State

namespace Parser

variable {source : List Char} {o : Options} {s : State} {c : Cursor}

/-! ## Steps of a parser -/

/-- To go on with a scanner is to go on after what the reader reads. -/
theorem scan_run {α : Type} {scanner : Scanner α} {r : Reading α}
    (h : scanner.Performs s.cursor r) :
    (scan scanner).run s.progress = pure (r.value, (s.after r).progress) := by
  have run := h s.progress.scan.log
  change scanner.run s.progress.scan = _ at run
  rw [State.progress_after]
  simp [scan, run]

/-- A scanner that only looks around leaves the state as it is. -/
theorem scan_look {α : Type} {scanner : Scanner α} {a : α}
    (h : ∀ log, scanner.run ⟨s.cursor.position, log⟩ = pure (a, ⟨s.cursor.position, log⟩)) :
    (scan scanner).run s.progress = pure (a, s.progress) := by
  have performs : scanner.Performs s.cursor ⟨a, s.cursor, .empty⟩ := fun log => by
    rw [h, Log.append_empty]
  exact scan_run performs

/-- A scanner that only reports something. -/
theorem scan_report {scanner : Scanner Unit} {new : Log}
    (h : ∀ log, scanner.run ⟨s.cursor.position, log⟩ = pure ((), ⟨s.cursor.position, log ++ new⟩)) :
    (scan scanner).run s.progress = pure ((), (s.report new).progress) :=
  scan_run (r := ⟨(), s.cursor, new⟩) h

theorem add_run (s : State) (node : Node) :
    (add node).run s.progress = pure ((), (s.add node).progress) := by
  rw [State.progress_add]
  rfl

theorem addAll_run (s : State) (nodes : List Node) :
    (addAll nodes).run s.progress = pure ((), (s.addAll nodes).progress) := by
  rw [State.progress_addAll]
  rfl

theorem setStack_run (s : State) (stack : List OpenElement) :
    (setStack (stack.map OpenElement.entry)).run s.progress =
      pure ((), { s with stack := stack }.progress) := rfl

theorem setFlags_run (s : State) (flags : Flags) :
    (setFlags flags).run s.progress = pure ((), { s with flags := flags }.progress) := rfl

theorem get_run (s : State) :
    (get : Parser Progress).run s.progress = pure (s.progress, s.progress) := rfl

theorem warn_run (s : State) (warnings : List Legacy.Warning) :
    (scan (Scanner.warn warnings)).run s.progress =
      pure ((), (s.report (.ofWarnings warnings)).progress) :=
  scan_report fun _ => rfl

theorem reportAt_run (s : State) (code : ErrorCode) (p : Position) :
    (scan (Scanner.reportAt code p)).run s.progress = pure ((), (s.reportAt code p).progress) :=
  scan_report fun _ => rfl

/-- Reports ahead, along characters of one byte. -/
theorem report_ascii_run (h : s.cursor.Within source) {a : List Char}
    (starts : a <+: s.cursor.rest) (ascii : Text.AllAscii a) (code : ErrorCode) {n : Nat}
    (inside : n ≤ a.length) :
    (report source code n).run s.progress =
      pure ((), (s.reportAt code (s.cursor.ahead n)).progress) := by
  have count := Text.byteLength_take_add (n := 0) starts ascii inside
  rw [Nat.zero_add, List.take_zero, Text.byteLength_nil, Nat.zero_add] at count
  refine scan_report fun log => ?_
  have run := Scanner.report_run h code n log
  rw [count] at run
  exact run

/-! ## Where elements end -/

theorem closesAny_eq (rest : List Char) (stack : List OpenElement) :
    closesAny (Text.bytes rest) (stack.map OpenElement.entry) =
      pure (stack.any fun e => Tag.startsEndTag e.element.tag rest) := by
  induction stack with
  | nil => rfl
  | cons e stack ih =>
      rw [List.map_cons, closesAny, Tag.startsEndTagBytes_bytes, pure_bind, ih, List.any_cons]
      change (if Tag.startsEndTag e.element.tag rest = true then _ else _) = _
      split
      · next here => rw [here, Bool.true_or]
      · next other => rw [Bool.eq_false_iff.mpr other, Bool.false_or]

theorem closes_eq (s : State) :
    closes s.progress (Text.bytes s.cursor.rest) =
      pure (match s.mode with
        | .data => s.stack.any fun e => Tag.startsEndTag e.element.tag s.cursor.rest
        | .rcData | .rawText => s.parent.any fun e => Tag.startsEndTag e.tag s.cursor.rest
        | .cData => s.cursor.startsWith TextNode.sectionEnd
        | .attributeValue => false) := by
  unfold closes
  rw [State.mode_progress, State.parent_progress, Text.isPrefixOf_bytes]
  cases s.mode with
  | data =>
      dsimp only
      split
      · exact closesAny_eq s.cursor.rest s.stack
      · next other =>
        have none :
            (s.stack.any fun e => Tag.startsEndTag e.element.tag s.cursor.rest) = false := by
          refine List.any_eq_false.mpr fun e _ starts => other ?_
          exact List.isPrefixOf_iff_prefix.mpr (Tag.prefix_of_startsEndTag starts)
        rw [none]
  | rcData | rawText =>
      cases s.parent with
      | none => rfl
      | some e => exact Tag.startsEndTagBytes_bytes s.cursor.rest e.tag
  | cData =>
      dsimp only
      rw [Text.isPrefixOf_bytes]
      rfl
  | attributeValue => rfl

theorem atEnd_run (h : s.cursor.Within source) :
    (atEnd source).run s.progress = pure (s.atEnd, s.progress) := by
  have look := scan_look (s := s) (Scanner.rest_run h)
  simp only [atEnd, StateT.run_bind, look, pure_bind, get_run, closes_eq, StateT.run_monadLift,
    monadLift_self, StateT.run_pure, State.atEnd, Cursor.atEnd]
  exact congrArg (fun ends => pure (ends, s.progress)) (Bool.or_comm _ _)

/-! ## Constructs -/

theorem text_run (h : s.cursor.Within source) (o : Options) :
    (text source o).run s.progress = pure ((), (s.readText o).progress) := by
  have read := scan_run (Scanner.text_performs h o s.mode)
  simp only [text, StateT.run_bind, get_run, State.mode_progress, pure_bind, read, add_run]
  rfl

theorem addComment_run {scanner : Scanner Comment} {r : Reading Comment}
    (h : scanner.Performs s.cursor r) :
    (addComment scanner).run s.progress = pure ((), (s.addComment r).progress) := by
  simp only [addComment, StateT.run_bind, scan_run h, pure_bind, add_run]
  rfl

theorem interpolation_run (h : s.cursor.Within source) (o : Options)
    (starts : o.openDelimiter <+: s.cursor.rest) :
    (interpolation source o).run s.progress = pure ((), (s.readInterpolation o).progress) := by
  have read := Scanner.interpolation_run h s.mode starts
  unfold State.readInterpolation
  cases found : Interpolation.read? o s.mode s.cursor with
  | some r =>
      have run : (scan (Scanner.interpolation source o s.mode)).run s.progress =
          pure (some r.value, (s.after r).progress) :=
        scan_run (r := ⟨some r.value, r.cursor, r.log⟩) fun log => by rw [read, found]
      simp only [interpolation, StateT.run_bind, get_run, State.mode_progress, pure_bind, run,
        add_run]
  | none =>
      have run : (scan (Scanner.interpolation source o s.mode)).run s.progress =
          pure (none, (s.reportAt .missingInterpolationEnd s.cursor.position).progress) :=
        scan_run (r := ⟨none, s.cursor, .error .missingInterpolationEnd s.cursor.position⟩)
          fun log => by rw [read, found]
      simp only [interpolation, StateT.run_bind, get_run, State.mode_progress, pure_bind, run]
      exact text_run (s := s.reportAt _ _) h o

theorem cdata_run (h : s.cursor.Within source) (o : Options)
    (starts : TextNode.sectionStart <+: s.cursor.rest) :
    (cdata source o).run s.progress = pure ((), (s.readSection o source).progress) := by
  have read := scan_run (Scanner.cdata_performs h o s.flags.pre
    (s.parent.any fun e => o.isPreTag e.tag) starts)
  simp only [cdata, StateT.run_bind, get_run, pure_bind, State.flags_progress,
    State.parent_progress, read, addAll_run]
  rfl

theorem addElement_run (o : Options) (s : State) (e : Element) (children : List Node) :
    (addElement o e children).run s.progress = pure ((), (s.addElement o e children).progress) := by
  unfold addElement State.addElement
  split
  · simp only [StateT.run_bind, warn_run, pure_bind, addAll_run]
  · exact add_run s _

/-! ## Elements -/

theorem selection_run {s : State} (h : c.Within source) (k : c.Reaches s.cursor) :
    (scan (Scanner.selection source c.position)).run s.progress =
      pure (c.locationTo s.cursor, s.progress) :=
  scan_look (Scanner.selection_run h k)

theorem openElement_run (h : s.cursor.Within source) (o : Options)
    (starts : ['<'] <+: s.cursor.rest) :
    (openElement source o).run s.progress = pure ((), (s.openElement o).progress) := by
  have read : (scan (Scanner.tag source o .opening s.flags.vPre)).run s.progress =
      pure ((s.startTag o).value, (s.after (s.startTag o)).progress) :=
    scan_run (Scanner.tag_performs h o .opening s.flags.vPre starts)
  have reached : s.cursor.Reaches (s.startTag o).cursor :=
    (s.cursor.reaches_skip _).trans (Tag.reaches_read o .opening s.flags.vPre s.cursor)
  have loc : (scan (Scanner.selection source s.progress.scan.position)).run
      (s.after (s.startTag o)).progress =
      pure (s.cursor.locationTo (s.startTag o).cursor, (s.after (s.startTag o)).progress) :=
    selection_run (s := s.after (s.startTag o)) h reached
  have depth : s.progress.stack.length = s.stack.length := List.length_map _
  rw [State.openElement_eq]
  simp only [openElement, StateT.run_bind, get_run, pure_bind, State.flags_progress, read,
    loc, State.parent_progress, warn_run, depth]
  change StateT.run (if s.startsEmpty o = true then _ else _) (s.afterStartTag o).progress = _
  split
  · exact addElement_run o (s.afterStartTag o) _ _
  · split
    · simp only [StateT.run_bind, reportAt_run, pure_bind, addElement_run]
      rfl
    · rfl

theorem inlineTemplate_run {e : Element} (h : c.Within source) (k : c.Reaches s.cursor)
    (o : Options) (ends : e.loc.stop = c.position) :
    (inlineTemplate source o e).run s.progress =
      pure ((State.withInlineTemplate o e (c.locationTo s.cursor)).1,
        (s.report (.ofWarnings
          (State.withInlineTemplate o e (c.locationTo s.cursor)).2)).progress) := by
  unfold inlineTemplate State.withInlineTemplate
  cases e.attribute? "inline-template".toList with
  | none => rfl
  | some a =>
      cases Legacy.isEnabled o.legacy .inlineTemplate with
      | false => rfl
      | true =>
          have loc := fun ws => selection_run (s := s.report (.ofWarnings ws)) h k
          simp only [if_true, StateT.run_bind, warn_run, pure_bind, ends, loc, StateT.run_pure]
          rfl

theorem endTag_run (h : s.cursor.Within source) (o : Options) (e : Element)
    (children : List Node) :
    (endTag source o e children).run s.progress =
      pure ((), (s.readEndTag o e children).progress) := by
  have look := scan_look (s := s) (Scanner.rest_run h)
  unfold State.readEndTag
  simp only [endTag, StateT.run_bind, look, pure_bind, Tag.startsEndTagBytes_bytes,
    StateT.run_monadLift, monadLift_self]
  split
  · next starts =>
    have read := scan_run (Scanner.tag_performs h o .closing s.flags.vPre
      (Tag.prefix_of_startsEndTag starts))
    simp only [StateT.run_bind, get_run, pure_bind, State.flags_progress, read, StateT.run_pure]
  · have ends := scan_look (s := s.reportAt .missingEndTag e.loc.start)
      (Scanner.atEnd_run h)
    have noted := scan_report (s := s.reportAt .missingEndTag e.loc.start)
      (Scanner.reportIf_zero_run h
        ((s.cursor.atEnd && State.isCommentLikeScript e.tag children) = true)
        .eofInScriptHtmlCommentLikeText)
    simp only [StateT.run_bind, reportAt_run, pure_bind, ends]
    refine noted.trans ?_
    split <;> rfl

theorem finishedChildren_eq (o : Options) (inPre : Bool) {e : OpenElement}
    (h : e.body.Within source) (k : e.Spans c) :
    finishedChildren source o inPre e.entry = pure (State.finishedChildren o source inPre e) := by
  have settled := Siblings.settleChecked_eq o inPre (o.isPreTag e.element.tag) h k.children
  cases mode : e.mode <;> simp [finishedChildren, State.finishedChildren, OpenElement.entry, mode,
    settled]

theorem closeElement_run (small : Text.byteLength source ≤ UInt32.size - 2) (o : Options)
    (placed : s.Placed source) {e : OpenElement} {stack : List OpenElement}
    (top : s.stack = e :: stack) :
    (closeElement source o e.entry (stack.map OpenElement.entry)).run s.progress =
      pure ((), (s.closeElement o source e stack).progress) := by
  have nodes := placed.nodes
  rw [top] at nodes
  obtain ⟨here, below⟩ := nodes
  have start : e.start.Within source := ⟨below.reaches, small⟩
  have body := start.of_reaches here.tag
  have content := here.children.reaches
  have children := finishedChildren_eq o s.flags.pre body here
  have filled : (inlineTemplate source o e.element).run { s with stack := stack }.progress =
      pure ((s.filled o e).1,
        ({ s with stack := stack }.report (.ofWarnings (s.filled o e).2)).progress) :=
    inlineTemplate_run (s := { s with stack := stack }) body content o (by rw [here.loc]; rfl)
  have tag := endTag_run (s := { s with stack := stack }.report (.ofWarnings (s.filled o e).2))
    (body.of_reaches content) o (s.filled o e).1 (State.finishedChildren o source s.flags.pre e)
  rw [← State.afterEndTag] at tag
  have place : (s.filled o e).1.loc.start = e.start.position := by
    rw [State.filled, State.withInlineTemplate_loc, here.loc]
    rfl
  have loc := selection_run (s := s.afterEndTag o source e stack) start
    ((here.tag.trans content).trans (s.reaches_afterEndTag o source e stack))
  simp only [closeElement, StateT.run_bind, setStack_run, pure_bind, get_run, State.flags_progress,
    children, StateT.run_monadLift, monadLift_self]
  rw [show e.entry.element = e.element from rfl, filled, State.closeElement_eq]
  simp only [pure_bind, tag, place, loc, setFlags_run]
  exact addElement_run o { s.afterEndTag o source e stack with flags := e.outer } _ _

/-! ## Markup -/

theorem bogusComment_run (h : s.cursor.Within source) {d : Char} (ascii : d.toNat < 128)
    (starts : ['<', d] <+: s.cursor.rest) :
    (addComment (Scanner.bogusComment source)).run s.progress =
      pure ((), (s.addComment (Comment.readBogus s.cursor)).progress) :=
  addComment_run (Scanner.bogusComment_performs h ascii starts)

theorem markup_run (h : s.cursor.Within source) (o : Options) {t : List Char}
    (rest : s.cursor.rest = '<' :: t) :
    (markup source o).run s.progress = pure ((), (s.readMarkup o source).progress) := by
  have look := scan_look (s := s) (Scanner.rest_run h)
  have kind : Markup.ofBytes (Text.bytes s.cursor.rest) =
      Markup.classify (s.cursor.rest.drop 1) := by
    rw [rest]
    exact Markup.ofBytes_bytes t
  have mark : (Markup.classify (s.cursor.rest.drop 1)).mark <+: s.cursor.rest := by
    rw [rest]
    exact Markup.mark_classify t
  unfold State.readMarkup
  simp only [markup, StateT.run_bind, look, pure_bind, kind]
  generalize Markup.classify (s.cursor.rest.drop 1) = kind at mark ⊢
  have noted := fun code n => report_ascii_run (n := n) h mark kind.mark_ascii code
  cases kind with
  | eof =>
      simp only [StateT.run_bind, noted _ 1 (by decide), pure_bind]
      exact text_run (s := s.reportAt _ _) h o
  | comment => exact addComment_run (Scanner.comment_performs h mark)
  | doctype => exact bogusComment_run h (by decide) mark
  | cdata =>
      simp only [StateT.run_bind, get_run, pure_bind, State.parent_progress]
      split
      · exact cdata_run h o mark
      · simp only [StateT.run_bind, noted _ 0 (by decide), pure_bind]
        exact bogusComment_run (s := s.reportAt _ _) (d := '!') h (by decide)
          (.trans (by decide) mark)
  | declaration =>
      simp only [StateT.run_bind, noted _ 0 (by decide), pure_bind]
      exact bogusComment_run (s := s.reportAt _ _) h (by decide) mark
  | endTagEof =>
      simp only [StateT.run_bind, noted _ 2 (by decide), pure_bind]
      exact text_run (s := s.reportAt _ _) h o
  | namelessEndTag =>
      have step : (Scanner.advance source 3).Performs s.cursor
          ⟨(), s.cursor.skip 3, .empty⟩ := fun log => by
        rw [Log.append_empty]
        exact Scanner.advance_ascii_run h mark (Markup.mark_ascii _) log
      simp only [StateT.run_bind, noted _ 2 (by decide), pure_bind]
      exact scan_run (s := s.reportAt _ _) step
  | endTag =>
      have read := scan_run (s := s.reportAt .invalidEndTag (s.cursor.ahead 0))
        (Scanner.tag_performs h o .closing s.flags.vPre mark)
      have flags : (s.reportAt .invalidEndTag (s.cursor.ahead 0)).progress.flags = s.flags := rfl
      simp only [StateT.run_bind, noted _ 0 (by decide), pure_bind, get_run, flags, read,
        StateT.run_pure]
      rfl
  | badEndTag =>
      simp only [StateT.run_bind, noted _ 2 (by decide), pure_bind]
      exact bogusComment_run (s := s.reportAt _ _) h (by decide) mark
  | startTag => exact openElement_run h o mark
  | instruction =>
      simp only [StateT.run_bind, noted _ 1 (by decide), pure_bind]
      exact bogusComment_run (s := s.reportAt _ _) h (by decide) mark
  | stray =>
      simp only [StateT.run_bind, noted _ 1 (by decide), pure_bind]
      exact text_run (s := s.reportAt _ _) h o

/-! ## Whole templates -/

theorem node_run (h : s.cursor.Within source) (o : Options) :
    (node source o).run s.progress = pure ((), (s.readNode o source).progress) := by
  have opens := scan_look (s := s) (Scanner.startsWith_run h o.openDelimiter)
  have isMarkup := scan_look (s := s) (Scanner.startsWith_run h ['<'])
  have head : s.cursor.startsWith ['<'] = (s.cursor.rest.head? == some '<') := by
    cases rest : s.cursor.rest with
    | nil => simp [Cursor.startsWith, rest]
    | cons x t =>
        simp only [Cursor.startsWith, rest, List.isPrefixOf, Bool.and_true]
        exact BEq.comm
  have starts (interpolates : s.startsInterpolation o = true) :
      o.openDelimiter <+: s.cursor.rest := by
    simp only [State.startsInterpolation, Bool.and_eq_true] at interpolates
    exact List.isPrefixOf_iff_prefix.mp interpolates.2
  unfold State.readNode
  simp only [node, StateT.run_bind, get_run, pure_bind, opens, isMarkup, State.mode_progress, head]
  change StateT.run (match s.mode with
    | .data => if s.startsInterpolation o then _ else _
    | .rcData => if s.startsInterpolation o then _ else _
    | .rawText | .cData | .attributeValue => _) s.progress = _
  cases s.mode with
  | data =>
      dsimp only
      split
      · next interpolates => exact interpolation_run h o (starts interpolates)
      · split
        · next bracket =>
          obtain ⟨t, rest⟩ := List.head?_eq_some_iff.mp (beq_iff_eq.mp bracket)
          exact markup_run h o rest
        · exact text_run h o
  | rcData =>
      dsimp only
      split
      · next interpolates => exact interpolation_run h o (starts interpolates)
      · exact text_run h o
  | rawText | cData | attributeValue => exact text_run h o

/-- From every state that the reader reaches, the parser goes on to where the reader does. -/
theorem readOn_run (small : Text.byteLength source ≤ UInt32.size - 2) (o : Options)
    (reached : s.Reachable o source) {n : Nat} (rounds : s.size ≤ n) :
    (readOn source o (n + 1)).run s.progress = pure ((), (s.run o source).progress) := by
  fun_induction State.run o source s generalizing n with
  | case1 s done =>
      have within : s.cursor.Within source := ⟨reached.placed.inside, small⟩
      rw [State.isDone, Bool.and_eq_true, List.isEmpty_iff] at done
      have stack : s.progress.stack = [] := by rw [State.progress, done.1]; rfl
      rw [readOn]
      simp only [StateT.run_bind, atEnd_run within, pure_bind, done.2, if_true, get_run, stack,
        StateT.run_pure]
  | case2 s goes ih =>
      have within : s.cursor.Within source := ⟨reached.placed.inside, small⟩
      have smaller := State.size_step_lt o source (Bool.eq_false_iff.mpr goes)
      obtain ⟨n, rfl⟩ : ∃ m, n = m + 1 := Nat.exists_eq_add_of_le' (by omega)
      have next := ih (reached.step (by simpa using goes)) (n := n) (by omega)
      rw [readOn]
      simp only [StateT.run_bind, atEnd_run within, pure_bind]
      cases ends : s.atEnd with
      | true =>
          cases top : s.stack with
          | nil => exact absurd (by simp [State.isDone, top, ends]) goes
          | cons e stack =>
              have stack' : s.progress.stack = e.entry :: stack.map OpenElement.entry := by
                rw [State.progress, top]
                rfl
              have step := State.step_eq_closeElement o source ends top
              rw [step] at next
              simp only [if_true, StateT.run_bind, get_run, pure_bind, stack',
                closeElement_run small o reached.placed top, next, step]
      | false =>
          have step := State.step_eq_readNode o source ends
          rw [step] at next
          simp only [Bool.false_eq_true, if_false, StateT.run_bind, node_run within, pure_bind,
            next, step]

end Parser

/-- Reading a template by its bytes comes to an end, without a breach, and to the same template as
    reading it by its characters. -/
theorem parse_without_breach (o : Options) (source : List Char)
    (small : Text.byteLength source ≤ UInt32.size - 2) :
    Parser.parse source o = .ok (parse o source) := by
  have run := Parser.readOn_run small o State.Reachable.initial
    (Text.length_le_byteLength source)
  obtain ⟨done, n, _, steps⟩ := State.steps_run o source (.initial source)
  have placed := (State.Reachable.initial.steps steps).placed
  have nodes := placed.nodes
  rw [(State.rest_of_isDone done).1] at nodes
  have start : (Cursor.ofText source).Within source := ⟨.refl _, small⟩
  have settled := Siblings.settleChecked_eq o
    ((State.initial source).run o source).flags.pre false start nodes
  have loc : (Scanner.selection source .start).run
      ((State.initial source).run o source).progress.scan = _ :=
    Scanner.selection_run start placed.inside _
  have roots : ((State.initial source).run o source).progress.roots =
      ((State.initial source).run o source).roots := rfl
  change (Parser.readOn source o _).run .start = _ at run
  simp only [Parser.parse, run, pure_bind, State.flags_progress, roots, settled, loc]
  rfl

/-- A template with characters of several bytes, and a comment whose marks overlap. -/
theorem parse_without_breach_of_overlap :
    ∃ t, Parser.parse "é<!--><b :ü='€'>".toList .base = .ok t ∧
      t.errors.map (·.code) = [.abruptClosingOfEmptyComment, .missingEndTag] :=
  ⟨_, parse_without_breach .base "é<!--><b :ü='€'>".toList (by decide), by decide +kernel⟩

end Stencil
