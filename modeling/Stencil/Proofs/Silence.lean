import Stencil.Proofs.Excerpt.Siblings
import Stencil.Proofs.Excerpt.Tag
import Stencil.Proofs.RoundTrip

/-! # Silenced warnings

A configuration decides two things about each dropped feature: whether it is honoured, and whether
a warning says so. Warnings are a side channel: reading never looks at them. So reading under a
configuration is reading under the one that honours the same features and silences none, with the
silenced warnings left out.
-/

namespace Stencil

namespace Legacy

/-- The configuration that honours the same features and silences none. -/
def loud (config : Option Config) : Option Config :=
  some ⟨.v2, fun f => if isEnabled config f then some .enabled else some .disabled⟩

/-- Warnings about a feature are silenced under an optional configuration. -/
def isSilenced (config : Option Config) (f : Feature) : Bool :=
  config.any (·.isSilenced f)

/-- A configuration lets a warning through: its feature is honoured and not silenced. -/
def hears (config : Option Config) (w : Warning) : Bool :=
  isEnabled config w.feature && !isSilenced config w.feature

variable (config : Option Config) (f : Feature) (loc : Location) (subject : Option (List Char))

@[simp]
theorem isEnabled_loud : isEnabled (loud config) f = isEnabled config f := by
  have said : isEnabled (loud config) f =
      ((if isEnabled config f then some Setting.enabled else some .disabled) != some .disabled) :=
    rfl
  rw [said]
  cases isEnabled config f <;> rfl

theorem isSilenced_loud : isSilenced (loud config) f = false := by
  have said : isSilenced (loud config) f =
      ((if isEnabled config f then some Setting.enabled else some .disabled) ==
        some .suppressWarning) := rfl
  rw [said]
  cases isEnabled config f <;> rfl

/-- What is loud depends on which features are honoured only. -/
theorem loud_congr {config config' : Option Config}
    (same : ∀ f, isEnabled config f = isEnabled config' f) : loud config = loud config' := by
  simp only [loud, same]

variable {config f} in
theorem warn_eq_filter (honoured : isEnabled config f = true) : warn config f loc subject =
    (warn (loud config) f loc subject).filter (hears config) := by
  have whole : warn (loud config) f loc subject = [⟨f, some loc, subject⟩] :=
    if_neg (Bool.eq_false_iff.mp (isSilenced_loud config f))
  have heard : hears config ⟨f, some loc, subject⟩ = !config.any (·.isSilenced f) := by
    rw [hears, honoured, Bool.true_and]
    rfl
  rw [whole]
  unfold warn
  split
  · next silent => rw [List.filter_cons_of_neg (by rw [heard, silent]; decide)]; rfl
  · next told => rw [List.filter_cons_of_pos (by rw [heard]; simpa using told)]; rfl

theorem check_eq_filter : check config f loc subject =
    (check (loud config) f loc subject).filter (hears config) := by
  unfold check
  rw [isEnabled_loud]
  split
  · next honoured => exact warn_eq_filter loc subject honoured
  · rfl

/-! ### Silencing one feature -/

section

variable {config : Config} {f : Feature}

theorem isEnabled_set_suppressWarning (mode : config.mode = .v2) (honoured : config.isEnabled f)
    (g : Feature) : isEnabled (some (config.set f .suppressWarning)) g =
      isEnabled (some config) g := by
  by_cases same : g = f
  · subst same
    have on : isEnabled (some config) g = true := honoured
    rw [on]
    simp [isEnabled, Config.isEnabled, Config.set, mode]
  · simp [isEnabled, Config.isEnabled, Config.set, same]

theorem hears_set_suppressWarning (mode : config.mode = .v2) (honoured : config.isEnabled f)
    (w : Warning) : hears (some (config.set f .suppressWarning)) w =
      (w.feature != f && hears (some config) w) := by
  rw [hears, isEnabled_set_suppressWarning mode honoured, hears]
  by_cases same : w.feature = f
  · simp [isSilenced, Config.isSilenced, Config.set, same]
  · simp [isSilenced, Config.isSilenced, Config.set, same]

end

end Legacy

/-! ## Leaving warnings out -/

/-- A log without the warnings that `p` does not let through. -/
def Log.hush (p : Legacy.Warning → Bool) (log : Log) : Log :=
  ⟨log.errors, log.warnings.filter p⟩

theorem Log.hush_append (p : Legacy.Warning → Bool) (a b : Log) :
    (a ++ b).hush p = a.hush p ++ b.hush p :=
  congrArg (Log.mk _) (List.filter_append _ _)

/-- A reading without the warnings that `p` does not let through. -/
def Reading.hush {α : Type} (p : Legacy.Warning → Bool) (r : Reading α) : Reading α :=
  { r with log := r.log.hush p }

/-- A stage of reading without the warnings that `p` does not let through. -/
def State.hush (p : Legacy.Warning → Bool) (s : State) : State :=
  { s with warnings := s.warnings.filter p }

/-- A template that has been read, without the warnings that `p` does not let through. -/
def Template.hush (p : Legacy.Warning → Bool) (t : Template) : Template :=
  { t with warnings := t.warnings.filter p }

/-- The options that honour the same features and silence no warning. -/
def Options.loud (o : Options) : Options :=
  { o with legacy := Legacy.loud o.legacy }

/-- The options let a warning through. -/
def Options.hears (o : Options) : Legacy.Warning → Bool :=
  Legacy.hears o.legacy

/-! ## Tags -/

theorem Directive.modernize_hush (config : Option Legacy.Config) (d : Directive) :
    modernize config d = ((modernize (Legacy.loud config) d).1,
      (modernize (Legacy.loud config) d).2.filter (Legacy.hears config)) := by
  have sync : ∀ (asked : Bool) loc subject,
      (if asked && Legacy.isEnabled config .vBindSync then
        Legacy.warn config .vBindSync loc subject else []) =
      (if asked && Legacy.isEnabled config .vBindSync then
        Legacy.warn (Legacy.loud config) .vBindSync loc subject else []).filter
          (Legacy.hears config) := by
    intro asked loc subject
    split
    · next honoured => exact Legacy.warn_eq_filter loc subject (Bool.and_eq_true_iff.mp honoured).2
    · rfl
  unfold modernize
  split
  · split
    · dsimp only
      rw [sync]
      simp only [Legacy.isEnabled_loud, List.filter_append, List.filter_nil,
        apply_ite (List.filter (Legacy.hears config)), ← Legacy.check_eq_filter]
    · rfl
  · rfl

theorem Directive.build_hush (o : Options) (start after : Cursor) (raw : List Char)
    (value : Option AttributeValue) :
    build o start after raw value = ((build o.loud start after raw value).1,
      (build o.loud start after raw value).2.hush o.hears) := by
  unfold build
  dsimp only
  rw [modernize_hush o.legacy]
  rfl

namespace Property

variable (o : Options) (kind : TagKind) (vPre : Bool) (seen : List (List Char)) (c : Cursor)

theorem readValue_hush (p : Legacy.Warning → Bool) :
    (readValue o c).log.hush p = (readValue o c).log := by
  have value : ∀ c, (AttributeValue.read o c).log.hush p = (AttributeValue.read o c).log := by
    intro c
    unfold AttributeValue.read
    split
    · rfl
    · rfl
    · unfold AttributeValue.readUnquoted
      dsimp only
      split <;> rfl
  unfold readValue
  dsimp only
  split
  · rw [Log.hush_append, value]
    rfl
  · rfl

theorem read_hush : read o vPre seen c = (read o.loud vPre seen c).hush o.hears := by
  have before : (Log.ofErrors (nameErrors seen (nameAt c.rest) c) ++
      (readValue o.loud (c.skip (nameAt c.rest).length)).log).hush o.hears =
      Log.ofErrors (nameErrors seen (nameAt c.rest) c) ++
        (readValue o (c.skip (nameAt c.rest).length)).log := by
    rw [Log.hush_append, readValue_hush]
    rfl
  unfold read
  dsimp only
  split
  · rw [Directive.build_hush o, Reading.hush, Log.hush_append, before]
    rfl
  · rw [Reading.hush, Log.hush_append, before, apply_ite (Log.hush o.hears)]
    rfl

theorem readAll_hush :
    readAll o kind vPre seen c = (readAll o.loud kind vPre seen c).hush o.hears := by
  fun_induction readAll o.loud kind vPre seen c with
  | case1 seen c text => rw [readAll_of_nil o kind vPre seen text]; rfl
  | case2 seen c y text => rw [readAll_of_end o kind vPre seen text]; rfl
  | case3 seen c y text => rw [readAll_of_selfEnd o kind vPre seen text]; rfl
  | case4 seen c y other text r ih =>
      rw [readAll_of_solidus o kind vPre seen text other, ih]
      simp only [Reading.hush, Log.hush_append]
      rfl
  | case5 seen c x y first _ second text a r atEndTag ih =>
      rw [readAll_of_name o kind vPre seen text first second, read_hush]
      simp only [Reading.hush, Log.hush_append] at ih ⊢
      rw [ih]
      rfl

end Property

theorem Tag.read_hush (o : Options) (kind : TagKind) (vPre : Bool) (c : Cursor) :
    read o kind vPre c = (read o.loud kind vPre c).hush o.hears := by
  have close : ∀ c, (readEnd kind c).log.hush o.hears = (readEnd kind c).log := by
    intro c
    unfold readEnd
    split
    · rfl
    · rw [apply_ite (Log.hush o.hears)]
      rfl
    · rfl
  rw [read_eq, read_eq]
  simp only [Property.readAll_hush o, Reading.hush]
  split <;> simp only [ofList, Log.hush_append, close]

namespace Element

theorem castBy_hush (config : Option Legacy.Config) (p : Property) :
    castBy config p = ((castBy (Legacy.loud config) p).1,
      (castBy (Legacy.loud config) p).2.filter (Legacy.hears config)) := by
  unfold castBy
  split
  · split
    · split
      · split
        · rfl
        · rw [Legacy.isEnabled_loud, ← Legacy.check_eq_filter]
      · rfl
    · rfl
  · split
    · rfl
    · split
      · rw [Legacy.isEnabled_loud, ← Legacy.check_eq_filter]
      · rfl

theorem cast_hush (config : Option Legacy.Config) (props : List Property) :
    cast config props = ((cast (Legacy.loud config) props).1,
      (cast (Legacy.loud config) props).2.filter (Legacy.hears config)) := by
  induction props with
  | nil => rfl
  | cons p props ih =>
      rw [cast, cast, castBy_hush]
      obtain ⟨decided, warnings⟩ := castBy (Legacy.loud config) p
      cases decided with
      | true => rfl
      | false => exact ih

theorem classify_hush (o : Options) (vPre : Bool) (tag : List Char) (props : List Property) :
    classify o vPre tag props = ((classify o.loud vPre tag props).1,
      (classify o.loud vPre tag props).2.filter o.hears) := by
  have named : isComponentTag o.loud tag = isComponentTag o tag := rfl
  have custom : o.loud.isCustomElement tag = o.isCustomElement tag := rfl
  have honoured : o.loud.legacy = Legacy.loud o.legacy := rfl
  unfold classify
  rw [named, custom, honoured, cast_hush]
  split
  · rfl
  · split
    · rfl
    · split
      · rfl
      · split
        · rfl
        · split
          · rfl
          · obtain ⟨decided, warnings⟩ := cast (Legacy.loud o.legacy) props
            cases decided <;> rfl

theorem ofTag_hush (o : Options) (vPre : Bool) (parent : Option Element) (tag : Tag)
    (loc : Location) :
    ofTag o vPre parent tag loc = ((ofTag o.loud vPre parent tag loc).1,
      (ofTag o.loud vPre parent tag loc).2.filter o.hears) := by
  have precedence : precedenceWarnings o tag.props loc =
      (precedenceWarnings o.loud tag.props loc).filter o.hears := by
    unfold precedenceWarnings
    split
    · exact Legacy.check_eq_filter o.legacy _ _ _
    · rfl
  unfold ofTag
  rw [classify_hush, precedence]
  simp only [List.filter_append]
  rfl

end Element

theorem Siblings.settle_loud (o : Options) : settle o.loud = settle o :=
  settle_congr o o.loud rfl rfl

/-! ## Steps -/

namespace State

variable {o : Options} {source : List Char} {s : State} {p : Legacy.Warning → Bool}

theorem report_hush (s : State) (log : Log) :
    (s.hush p).report (log.hush p) = (s.report log).hush p := by
  simp only [report, hush, Log.hush, List.filter_append, List.filter_reverse]

theorem reportAt_hush (s : State) (code : ErrorCode) (place : Position) :
    (s.hush p).reportAt code place = (s.reportAt code place).hush p :=
  report_hush s (.error code place)

theorem after_hush {α : Type} (s : State) (r : Reading α) :
    (s.hush p).after (r.hush p) = (s.after r).hush p :=
  report_hush { s with cursor := r.cursor } r.log

theorem add_hush (s : State) (node : Node) : (s.hush p).add node = (s.add node).hush p := by
  obtain ⟨cursor, stack, roots, flags, errors, warnings⟩ := s
  cases stack <;> rfl

theorem addAll_hush (s : State) (nodes : List Node) :
    (s.hush p).addAll nodes = (s.addAll nodes).hush p := by
  induction nodes generalizing s with
  | nil => rfl
  | cons node nodes ih =>
      rw [addAll, addAll, List.foldl_cons, List.foldl_cons, add_hush]
      exact ih (s.add node)

theorem addElement_hush (s : State) (e : Element) (children : List Node) :
    (s.hush o.hears).addElement o e children = (s.addElement o.loud e children).hush o.hears := by
  have honoured : Legacy.isEnabled o.loud.legacy .nativeTemplate =
      Legacy.isEnabled o.legacy .nativeTemplate := Legacy.isEnabled_loud o.legacy _
  unfold addElement
  rw [honoured]
  split
  · next plain =>
    have on : Legacy.isEnabled o.legacy .nativeTemplate = true := by
      rw [Bool.and_eq_true, Bool.and_eq_true] at plain
      exact plain.1.2
    have warned : Log.ofWarnings (Legacy.warn o.legacy .nativeTemplate e.loc none) =
        (Log.ofWarnings (Legacy.warn o.loud.legacy .nativeTemplate e.loc none)).hush o.hears :=
      congrArg Log.ofWarnings (Legacy.warn_eq_filter _ _ on)
    rw [warned, report_hush, addAll_hush]
  · exact add_hush s _

theorem readText_hush (s : State) : (s.hush p).readText o = (s.readText o.loud).hush p := by
  change ((s.hush p).after ((TextNode.read o.loud s.mode s.cursor).hush p)).add _ = _
  rw [after_hush, add_hush]
  rfl

theorem addComment_hush (s : State) {r : Reading Comment} (quiet : r.hush p = r) :
    (s.hush p).addComment r = (s.addComment r).hush p := by
  rw [addComment, addComment, ← add_hush, ← after_hush, quiet]

theorem readComment_hush (s : State) :
    (s.hush p).addComment (Comment.read s.cursor) =
      (s.addComment (Comment.read s.cursor)).hush p := by
  apply addComment_hush
  unfold Comment.read
  dsimp only
  split <;> rfl

theorem readBogus_hush (s : State) :
    (s.hush p).addComment (Comment.readBogus s.cursor) =
      (s.addComment (Comment.readBogus s.cursor)).hush p := by
  apply addComment_hush
  unfold Comment.readBogus
  dsimp only
  split <;> rfl

theorem readSection_hush (s : State) :
    (s.hush p).readSection o source = (s.readSection o.loud source).hush p := by
  have quiet : (TextNode.readSection s.cursor).hush p = TextNode.readSection s.cursor := by
    simp only [TextNode.readSection, Reading.hush, apply_ite (Log.hush p)]
    rfl
  rw [readSection, readSection, Siblings.settle_loud, ← addAll_hush, ← after_hush, quiet]
  rfl

theorem readInterpolation_hush (s : State) :
    (s.hush p).readInterpolation o = (s.readInterpolation o.loud).hush p := by
  have read : Interpolation.read? o.loud s.mode s.cursor = Interpolation.read? o s.mode s.cursor :=
    rfl
  have mode : (s.hush p).mode = s.mode := rfl
  have cursor : (s.hush p).cursor = s.cursor := rfl
  unfold readInterpolation
  rw [mode, cursor, read]
  cases found : Interpolation.read? o s.mode s.cursor with
  | some r =>
      have quiet : r.hush p = r := by
        unfold Interpolation.read? at found
        dsimp only at found
        split at found
        · cases found
        · cases found
          rfl
      dsimp only
      rw [← add_hush, ← after_hush, quiet]
  | none =>
      dsimp only
      rw [reportAt_hush, readText_hush]

theorem openElement_hush (s : State) :
    (s.hush o.hears).openElement o = (s.openElement o.loud).hush o.hears := by
  have tag : (s.hush o.hears).startTag o = (s.startTag o.loud).hush o.hears :=
    Tag.read_hush o .opening s.flags.vPre s.cursor
  have inside : (s.hush o.hears).flagsInside o = s.flagsInside o.loud := by
    rw [flagsInside, tag]
    rfl
  have started : (s.hush o.hears).started o =
      ((s.started o.loud).1, (s.started o.loud).2.filter o.hears) := by
    rw [State.started, inside, tag]
    exact Element.ofTag_hush o _ _ _ _
  have after : (s.hush o.hears).afterStartTag o = (s.afterStartTag o.loud).hush o.hears := by
    rw [afterStartTag, tag, after_hush, started]
    exact report_hush _ (.ofWarnings _)
  have empty : (s.hush o.hears).startsEmpty o = s.startsEmpty o.loud := by
    rw [startsEmpty, started]
    rfl
  have entry : (s.hush o.hears).opened o = s.opened o.loud := by
    rw [opened, started, tag]
    rfl
  rw [openElement_eq, openElement_eq, after, empty, started, inside, entry, reportAt_hush,
    addElement_hush, addElement_hush, apply_ite (hush o.hears), apply_ite (hush o.hears)]
  rfl

theorem readEndTag_hush (s : State) (e : Element) (children : List Node) :
    (s.hush o.hears).readEndTag o e children = (s.readEndTag o.loud e children).hush o.hears := by
  have tag : Tag.read o .closing s.flags.vPre s.cursor =
      (Tag.read o.loud .closing s.flags.vPre s.cursor).hush o.hears := Tag.read_hush o _ _ _
  have cursor : (s.hush o.hears).cursor = s.cursor := rfl
  have flags : (s.hush o.hears).flags = s.flags := rfl
  unfold readEndTag
  dsimp only
  rw [cursor, flags, tag, after_hush, reportAt_hush, reportAt_hush,
    apply_ite (hush o.hears), apply_ite (hush o.hears)]

theorem closeElement_hush (s : State) (e : OpenElement) (stack : List OpenElement) :
    (s.hush o.hears).closeElement o source e stack =
      (s.closeElement o.loud source e stack).hush o.hears := by
  have filled : (s.hush o.hears).filled o e =
      ((s.filled o.loud e).1, (s.filled o.loud e).2.filter o.hears) := by
    have honoured : Legacy.isEnabled o.loud.legacy .inlineTemplate =
        Legacy.isEnabled o.legacy .inlineTemplate := Legacy.isEnabled_loud o.legacy _
    unfold State.filled withInlineTemplate
    split
    · rw [honoured]
      split
      · next on => exact Prod.ext rfl (Legacy.warn_eq_filter _ _ on)
      · rfl
    · rfl
  have children : finishedChildren o.loud source s.flags.pre e =
      finishedChildren o source s.flags.pre e := by
    rw [finishedChildren, Siblings.settle_loud]
    rfl
  have after : (s.hush o.hears).afterEndTag o source e stack =
      (s.afterEndTag o.loud source e stack).hush o.hears := by
    rw [afterEndTag, afterEndTag, filled, children, ← readEndTag_hush]
    exact congrArg (fun t => readEndTag o t _ _)
      (report_hush { s with stack := stack } (.ofWarnings _))
  have closed : (s.hush o.hears).closed o source e stack = s.closed o.loud source e stack := by
    rw [State.closed, State.closed, filled, after]
    rfl
  rw [closeElement_eq, closeElement_eq, after, closed, children, ← addElement_hush]
  rfl

theorem readMarkup_hush (s : State) :
    (s.hush o.hears).readMarkup o source = (s.readMarkup o.loud source).hush o.hears := by
  have cursor : (s.hush o.hears).cursor = s.cursor := rfl
  have parent : (s.hush o.hears).parent = s.parent := rfl
  have flags : (s.hush o.hears).flags = s.flags := rfl
  unfold readMarkup
  dsimp only
  rw [cursor, parent, flags]
  cases Markup.classify (s.cursor.rest.drop 1) with
  | eof => exact (congrArg (readText o) (reportAt_hush s _ _)).trans (readText_hush _)
  | comment => exact readComment_hush s
  | doctype => exact readBogus_hush s
  | cdata =>
      dsimp only
      rw [readSection_hush, apply_ite (hush o.hears)]
      exact congrArg _ (readBogus_hush (s.reportAt _ _))
  | declaration => exact readBogus_hush (s.reportAt _ _)
  | endTagEof => exact (congrArg (readText o) (reportAt_hush s _ _)).trans (readText_hush _)
  | namelessEndTag => rfl
  | endTag =>
      dsimp only
      rw [Tag.read_hush o, reportAt_hush, after_hush]
  | badEndTag => exact readBogus_hush (s.reportAt _ _)
  | startTag => exact openElement_hush s
  | instruction => exact readBogus_hush (s.reportAt _ _)
  | stray => exact (congrArg (readText o) (reportAt_hush s _ _)).trans (readText_hush _)

theorem readNode_hush (s : State) :
    (s.hush o.hears).readNode o source = (s.readNode o.loud source).hush o.hears := by
  have mode : (s.hush o.hears).mode = s.mode := rfl
  have starts : (s.hush o.hears).startsInterpolation o = s.startsInterpolation o.loud := rfl
  have cursor : (s.hush o.hears).cursor = s.cursor := rfl
  unfold readNode
  rw [mode, starts, cursor, readInterpolation_hush, readMarkup_hush, readText_hush]
  cases s.mode with
  | data => simp only [apply_ite (hush o.hears)]
  | rcData => simp only [apply_ite (hush o.hears)]
  | rawText => rfl
  | cData => rfl
  | attributeValue => rfl

/-- Steps commute with leaving silenced warnings out. -/
theorem step_hush (s : State) :
    (s.hush o.hears).step o source = (s.step o.loud source).hush o.hears := by
  have ends : (s.hush o.hears).atEnd = s.atEnd := rfl
  have stack : (s.hush o.hears).stack = s.stack := rfl
  unfold step
  rw [ends, stack, readNode_hush]
  cases s.stack with
  | nil =>
      dsimp only
      rw [apply_ite (hush o.hears)]
  | cons e stack =>
      dsimp only
      rw [closeElement_hush, apply_ite (hush o.hears)]

theorem run_hush (s : State) :
    (s.hush o.hears).run o source = (s.run o.loud source).hush o.hears := by
  fun_induction run o.loud source s with
  | case1 s done => exact run_of_isDone done
  | case2 s goes ih =>
      have goes : (s.hush o.hears).isDone = false := Bool.eq_false_iff.mpr goes
      rw [run_of_not_isDone goes, step_hush, ih]

end State

/-- Reading under a configuration is reading under the one that honours the same features and
    silences none, with the silenced warnings left out. -/
theorem parse_hush (o : Options) (source : List Char) :
    parse o source = (parse o.loud source).hush o.hears := by
  have run : (State.initial source).run o source =
      ((State.initial source).run o.loud source).hush o.hears :=
    State.run_hush (State.initial source)
  rw [parse, parse, run]
  simp only [State.result, Template.hush, Siblings.settle_loud, State.hush, List.filter_reverse]

/-- Reading without a configuration, or with one that honours nothing. -/
theorem parse_of_honours_nothing (o : Options) (source : List Char)
    (nothing : ∀ f, Legacy.isEnabled o.legacy f = false) :
    parse o source = parse { o with legacy := none } source ∧ (parse o source).warnings = [] := by
  have deaf : ∀ config, (∀ f, Legacy.isEnabled config f = false) →
      Legacy.hears config = fun _ => false := by
    intro config nothing
    funext w
    rw [Legacy.hears, nothing, Bool.false_and]
  have loud : o.loud = { o with legacy := none }.loud :=
    congrArg (fun config => { o with legacy := config }) (Legacy.loud_congr nothing)
  have heard : o.hears = { o with legacy := none }.hears :=
    (deaf o.legacy nothing).trans (deaf none fun _ => rfl).symm
  constructor
  · rw [parse_hush o, parse_hush { o with legacy := none }, loud, heard]
  · rw [parse_hush o, Template.hush, Options.hears, deaf o.legacy nothing]
    exact List.filter_eq_nil_iff.mpr fun _ _ => Bool.false_ne_true

/-- A configuration acts through the features it honours only, and warnings say nothing else.
    Configurations that honour the same features give the same tree, the same errors and, on what
    neither silences, the same warnings. Without a configuration, in mode 3 on its own and in mode
    2 with everything disabled, reading gives the same and no warning. In mode 2, silencing a
    feature that is enabled takes away its warnings and changes nothing else. -/
theorem parse_legacy (o : Options) (source : List Char) :
    (∀ a b : Option Legacy.Config, (∀ f, Legacy.isEnabled a f = Legacy.isEnabled b f) →
      (parse { o with legacy := a } source).root = (parse { o with legacy := b } source).root ∧
      (parse { o with legacy := a } source).errors = (parse { o with legacy := b } source).errors ∧
      (parse { o with legacy := a } source).warnings.filter (fun w =>
          !Legacy.isSilenced a w.feature && !Legacy.isSilenced b w.feature) =
        (parse { o with legacy := b } source).warnings.filter (fun w =>
          !Legacy.isSilenced a w.feature && !Legacy.isSilenced b w.feature)) ∧
    (parse { o with legacy := some (.ofMode .v3) } source =
        parse { o with legacy := none } source ∧
      parse { o with legacy := some ⟨.v2, fun _ => some .disabled⟩ } source =
        parse { o with legacy := none } source ∧
      (parse { o with legacy := none } source).warnings = []) ∧
    ∀ (config : Legacy.Config) (f : Legacy.Feature), config.mode = .v2 →
      config.isEnabled f = true →
      parse { o with legacy := some (config.set f .suppressWarning) } source =
        (parse { o with legacy := some config } source).hush (fun w => w.feature != f) := by
  refine ⟨?_, ⟨?_, ?_, ?_⟩, ?_⟩
  · intro a b same
    have loud : { o with legacy := a }.loud = { o with legacy := b }.loud :=
      congrArg (fun config => { o with legacy := config }) (Legacy.loud_congr same)
    rw [parse_hush { o with legacy := a }, parse_hush { o with legacy := b }, loud]
    refine ⟨rfl, rfl, ?_⟩
    simp only [Template.hush, List.filter_filter, Options.hears, Legacy.hears, same]
    congr 1
    funext w
    cases Legacy.isSilenced a w.feature <;> cases Legacy.isSilenced b w.feature <;> rfl
  · exact (parse_of_honours_nothing { o with legacy := some (.ofMode .v3) } source
      fun _ => rfl).1
  · exact (parse_of_honours_nothing { o with legacy := some ⟨.v2, fun _ => some .disabled⟩ } source
      fun _ => rfl).1
  · exact (parse_of_honours_nothing { o with legacy := none } source fun _ => rfl).2
  · intro config f mode honoured
    have loud : { o with legacy := some (config.set f .suppressWarning) }.loud =
        { o with legacy := some config }.loud :=
      congrArg (fun config => { o with legacy := config })
        (Legacy.loud_congr (Legacy.isEnabled_set_suppressWarning mode honoured))
    rw [parse_hush { o with legacy := some (config.set f .suppressWarning) },
      parse_hush { o with legacy := some config }, loud]
    simp only [Template.hush, List.filter_filter, Options.hears]
    congr 2
    funext w
    exact Legacy.hears_set_suppressWarning mode honoured w

/-- Three features are in use, and one of them is silenced. -/
theorem parse_legacy_sync :
    let source := "<a :b.sync=\"c\" inline-template><template>d</template></a>".toList
    let config := (Legacy.Config.ofMode .v2).set .vBindSync .enabled
    let silent := config.set .vBindSync .suppressWarning
    let told := parse { Options.base with legacy := some config } source
    let kept := parse { Options.base with legacy := some silent } source
    told.warnings.map (·.feature) = [.vBindSync, .nativeTemplate, .inlineTemplate] ∧
      kept.warnings.map (·.feature) = [.nativeTemplate, .inlineTemplate] ∧
      told.root = kept.root ∧ kept = told.hush (fun w => w.feature != .vBindSync) := by
  intro source config silent told kept
  have same : ∀ f, Legacy.isEnabled (some config) f = Legacy.isEnabled (some silent) f :=
    fun f => by cases f <;> rfl
  refine ⟨by decide +kernel, by decide +kernel, ?_, ?_⟩
  · exact ((parse_legacy .base source).1 (some config) (some silent) same).1
  · exact (parse_legacy .base source).2.2 config .vBindSync rfl rfl

end Stencil
