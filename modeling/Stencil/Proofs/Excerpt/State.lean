import Stencil.Proofs.Excerpt.Leaf
import Stencil.Proofs.Excerpt.Siblings
import Stencil.Proofs.Growth

/-! # Reading an excerpt

Reading an excerpt goes through the same states as reading the whole template, as long as nothing
is read that goes on behind the excerpt and nothing outside of it is asked for. One step is compared
with one step, for each kind of step.
-/

namespace Stencil

variable {o : Options} {u t text : List Char}

/-- The excerpt `y` ends with a tag, or with the template, and what follows it does not change where
    interpolations start. -/
structure Seam (o : Options) (t y : List Char) : Prop where
  fits : Text.Fits t y
  delimiter : Text.Seamless o.openDelimiter.isPrefixOf t y

theorem Seam.nil (o : Options) (y : List Char) : Seam o [] y :=
  ⟨.nil y, fun _ z _ _ => by rw [List.append_nil]⟩

/-- The seam as it is seen from a place in the excerpt. -/
theorem Seam.at {c : Cursor} (h : Seam o t text) (inside : (Cursor.ofText text).Reaches c)
    (more : c.rest ≠ [] ∨ t = []) :
    c.Fits t ∧ Text.Seamless o.openDelimiter.isPrefixOf t c.rest := by
  obtain ⟨x, split, _⟩ := id inside
  change text = x ++ c.rest at split
  refine ⟨⟨inside.first (Nat.le_refl 1), ?_⟩, (split ▸ h.delimiter).suffix⟩
  rcases more with more | rfl
  · exact (split ▸ h.fits).suffix more
  · exact .nil _

theorem TextNode.seamless_endsAt {y : List Char} (mode : TextMode) (fits : Text.Fits t y)
    (delimiter : Text.Seamless o.openDelimiter.isPrefixOf t y) :
    Text.Seamless (endsAt o mode) t y := by
  have section_ : Text.Seamless (endsAt o .cData) t y :=
    Text.seamless_isPrefixOf (by decide) fits
  have plain : Text.Seamless (fun s => s.head? == some '<' ||
      (!o.openDelimiter.isEmpty && o.openDelimiter.isPrefixOf s)) t y := by
    intro x z split more
    have same := delimiter x z split more
    cases z with
    | nil => exact absurd rfl more
    | cons d z =>
        rw [List.cons_append] at same ⊢
        simp only [same, List.head?_cons]
  cases mode with
  | cData => exact section_
  | data | rcData | rawText | attributeValue => exact plain

/-- An open element of an excerpt, in the whole template. -/
def OpenElement.within (u t : List Char) (e : OpenElement) : OpenElement :=
  { e with
    element := e.element.behind u
    start := e.start.within u t
    body := e.body.within u t
    children := e.children.map (Node.behind u) }

namespace State

variable {base long short : State}

/-- `long` is the state `short` of reading an excerpt, in the whole template: what was there before
    the excerpt is in `base`. -/
structure Embeds (u t : List Char) (base long short : State) : Prop where
  cursor : long.cursor = short.cursor.within u t
  stack : long.stack = short.stack.map (OpenElement.within u t) ++ base.stack
  roots : long.roots = short.roots.map (Node.behind u) ++ base.roots
  flags : long.flags = short.flags
  errors : long.errors = short.errors.map (ParseError.behind u) ++ base.errors

/-- No element is open, and what comes next does not go on with a text. -/
def Clear (base : State) : Prop :=
  base.stack = [] ∧ base.roots.head?.map Node.kind ≠ some .text

/-- Where no element of the excerpt is open, nothing around it makes a difference. -/
def Surrounds (base short : State) : Prop :=
  short.stack = [] → base.Clear

/-- How reading the whole template can part from reading the excerpt. -/
inductive Parts (o : Options) (t : List Char) (base long short : State) : Prop where
  /-- Something goes on behind the excerpt. -/
  | runsOver (far : long.cursor.rest.length < t.length)
      (cut : short.errors ≠ [] ∨
        short.cursor.rest = [] ∧ TextNode.endsAt o short.mode t = false)
  /-- The elements around the excerpt get in the way. -/
  | outside (around : base.stack ≠ []) (fails : long.errors ≠ [])

/-- Reading the whole template goes on as reading the excerpt does, or parts from it. -/
def Follows (o : Options) (u t : List Char) (base long short : State) : Prop :=
  Embeds u t base long short ∨ Parts o t base long short

namespace Embeds

theorem report {log log' : Log} (h : Embeds u t base long short) (moved : log'.Moved u log) :
    Embeds u t base (long.report log') (short.report log) where
  cursor := h.cursor
  stack := h.stack
  roots := h.roots
  flags := h.flags
  errors := by
    change log'.errors.reverse ++ long.errors = _
    rw [moved, h.errors, ← List.append_assoc, ← List.map_reverse, ← List.map_append]
    rfl

theorem after {α : Type} {move : α → α} {r r' : Reading α} (h : Embeds u t base long short)
    (same : r'.Matches u t move r) : Embeds u t base (long.after r') (short.after r) :=
  have moved : Embeds u t base { long with cursor := r'.cursor }
      { short with cursor := r.cursor } :=
    ⟨same.cursor, h.stack, h.roots, h.flags, h.errors⟩
  moved.report same.errors

theorem add (h : Embeds u t base long short) (around : base.Surrounds short) (node : Node) :
    Embeds u t base (long.add (node.behind u)) (short.add node) := by
  have stack := h.stack
  cases top : short.stack with
  | nil =>
      obtain ⟨none, edge⟩ := around top
      rw [top, none] at stack
      unfold State.add
      rw [stack, top]
      refine ⟨h.cursor, by rw [none]; rfl, ?_, h.flags, h.errors⟩
      dsimp only
      rw [h.roots]
      exact Siblings.push_behind u node fun _ => edge
  | cons e below =>
      rw [top] at stack
      unfold State.add
      rw [stack, top]
      refine ⟨h.cursor, ?_, h.roots, h.flags, h.errors⟩
      have children : Siblings.push (node.behind u) (e.children.map (Node.behind u) ++ []) =
          (Siblings.push node e.children).map (Node.behind u) ++ [] :=
        Siblings.push_behind u node fun _ => by simp
      rw [List.append_nil, List.append_nil] at children
      simp only [List.map_cons, List.cons_append, OpenElement.within, children]

theorem addAll (h : Embeds u t base long short) (around : base.Surrounds short)
    (nodes : List Node) :
    Embeds u t base (long.addAll (nodes.map (Node.behind u))) (short.addAll nodes) := by
  induction nodes generalizing long short with
  | nil => exact h
  | cons node nodes ih =>
      refine ih (h.add around node) fun none => around ?_
      rw [← List.length_eq_zero_iff, length_stack_add, List.length_eq_zero_iff] at none
      exact none

theorem parent (h : Embeds u t base long short) (around : base.Surrounds short) :
    long.parent = short.parent.map (Element.behind u) := by
  have stack := h.stack
  unfold State.parent
  cases top : short.stack with
  | nil =>
      rw [top, (around top).1] at stack
      rw [stack]
      rfl
  | cons e below =>
      rw [top] at stack
      rw [stack]
      rfl

theorem mode (h : Embeds u t base long short) (around : base.Surrounds short) :
    long.mode = short.mode := by
  have stack := h.stack
  unfold State.mode
  cases top : short.stack with
  | nil =>
      rw [top, (around top).1] at stack
      rw [stack]
      rfl
  | cons e below =>
      rw [top] at stack
      rw [stack]
      rfl

end Embeds

@[simp]
theorem mode_add (s : State) (node : Node) : (s.add node).mode = s.mode := by
  unfold add
  split
  · rfl
  · next e stack top =>
    rw [mode_of_top top, mode]
    rfl

/-! ## Constructs -/

/-- The states before a construct is read that is neither cut off nor missing. -/
structure Meets (o : Options) (u t : List Char) (base long short : State) : Prop
    extends Embeds u t base long short where
  around : base.Surrounds short
  more : short.cursor.rest ≠ []
  fits : short.cursor.Fits t
  delimiter : Text.Seamless o.openDelimiter.isPrefixOf t short.cursor.rest

namespace Meets

theorem report {log log' : Log} (h : Meets o u t base long short) (moved : log'.Moved u log) :
    Meets o u t base (long.report log') (short.report log) :=
  { h with toEmbeds := h.toEmbeds.report moved }

/-- An error a few characters ahead. -/
theorem reportAt (h : Meets o u t base long short) (code : ErrorCode) {n : Nat}
    (inside : n ≤ short.cursor.rest.length) :
    Meets o u t base (long.reportAt code (long.cursor.ahead n))
      (short.reportAt code (short.cursor.ahead n)) := by
  apply h.report
  rw [h.cursor, Cursor.ahead_within h.fits.first (.inl inside) u]
  rfl

theorem readText (h : Meets o u t base long short) :
    Follows o u t base (long.readText o) (short.readText (o.behind u)) := by
  have seam := TextNode.seamless_endsAt (o := o) short.mode h.fits.text h.delimiter
  have read := TextNode.read_within o short.mode h.fits.first h.more seam u
  rw [← h.cursor, ← h.toEmbeds.mode h.around] at read
  rcases read with same | ⟨beyond, goes⟩
  · left
    have added := (h.after same).add h.around (.text (TextNode.read o long.mode short.cursor).value)
    rw [Node.behind, ← same.value, h.toEmbeds.mode h.around] at added
    rw [State.readText, h.toEmbeds.mode h.around]
    exact added
  · rw [h.toEmbeds.mode h.around] at beyond goes
    refine .inr (.runsOver ?_ (.inr ⟨?_, ?_⟩))
    · rw [State.readText, cursor_add, cursor_after, h.toEmbeds.mode h.around]
      exact beyond.long
    · rw [State.readText, cursor_add, cursor_after]
      exact beyond.short
    · rw [State.readText, mode_add]
      exact goes

theorem addComment {r r' : Reading Comment} (h : Meets o u t base long short)
    (same : r'.Matches u t (Comment.behind u) r) :
    Embeds u t base (long.addComment r') (short.addComment r) := by
  have added := (h.after same).add h.around (.comment r.value)
  rw [Node.behind, ← same.value] at added
  exact added

theorem readComment (h : Meets o u t base long short) :
    Follows o u t base (long.addComment (Comment.read long.cursor))
      (short.addComment (Comment.read short.cursor)) := by
  rw [h.cursor]
  rcases Comment.read_within h.fits u with same | ⟨beyond, cut⟩
  · exact .inl (h.addComment same)
  · refine .inr (.runsOver ?_ (.inl ?_))
    · rw [State.addComment, cursor_add, cursor_after]
      exact beyond.long
    · rw [State.addComment, errors_add]
      exact List.append_ne_nil_of_left_ne_nil (List.reverse_ne_nil_iff.mpr cut) _

theorem readBogus (h : Meets o u t base long short) (mark : short.cursor.rest.head? = some '<') :
    Follows o u t base (long.addComment (Comment.readBogus long.cursor))
      (short.addComment (Comment.readBogus short.cursor)) := by
  rw [h.cursor]
  exact .inl (h.addComment (Comment.readBogus_within h.fits mark u))

theorem readSection (h : Meets o u t base long short)
    (starts : TextNode.sectionStart <+: short.cursor.rest)
    (inside : (Cursor.ofText text).Reaches short.cursor) :
    Follows o u t base (long.readSection o (u ++ text ++ t))
      (short.readSection (o.behind u) text) := by
  have preParent : (long.parent.any fun e => o.isPreTag e.tag) =
      short.parent.any fun e => o.isPreTag e.tag := by
    rw [h.toEmbeds.parent h.around, Option.any_map]
    rfl
  rcases TextNode.readSection_within h.fits starts u with same | ⟨beyond, cut⟩
  · left
    have settled := Siblings.settle_behind o short.flags.pre
      (short.parent.any fun e => o.isPreTag e.tag) inside
      (TextNode.readSection_sound short.cursor).value u t
    have added := (h.after same).addAll h.around (Siblings.settle o text short.flags.pre
      (short.parent.any fun e => o.isPreTag e.tag)
      ((TextNode.readSection short.cursor).value.toList.map .text))
    have moved : ∀ x : Option TextNode, (x.toList.map Node.text).map (Node.behind u) =
        (x.map (TextNode.behind u)).toList.map .text := by
      intro x
      cases x <;> rfl
    unfold State.readSection
    dsimp only
    rw [preParent, h.flags, h.cursor, same.value, ← moved, settled, Siblings.settle_options]
    exact added
  · refine .inr (.runsOver ?_ (.inl ?_))
    · rw [State.readSection, cursor_addAll, cursor_after, h.cursor]
      exact beyond.long
    · rw [State.readSection, errors_addAll]
      exact List.append_ne_nil_of_left_ne_nil (List.reverse_ne_nil_iff.mpr cut) _

theorem readInterpolation (h : Meets o u t base long short)
    (starts : o.openDelimiter <+: short.cursor.rest) :
    Follows o u t base (long.readInterpolation o) (short.readInterpolation (o.behind u)) := by
  have options : Interpolation.read? (o.behind u) short.mode short.cursor =
      Interpolation.read? o short.mode short.cursor := rfl
  unfold State.readInterpolation
  rw [options, h.toEmbeds.mode h.around]
  cases read : Interpolation.read? o short.mode short.cursor with
  | some r =>
      obtain ⟨r', read', same⟩ :=
        Interpolation.read?_within_of_some h.fits.first starts read u t
      rw [← h.cursor] at read'
      rw [read']
      have added := (h.after same).add h.around (.interpolation r.value)
      rw [Node.behind, ← same.value] at added
      exact .inl added
  | none =>
      have missing := h.reportAt .missingInterpolationEnd (Nat.zero_le _)
      rcases Interpolation.read?_within_of_none h.fits.first starts read u t with
        none | ⟨r', read', far⟩
      · rw [← h.cursor] at none
        rw [none]
        exact missing.readText
      · rw [← h.cursor] at read'
        rw [read']
        refine .inr (.runsOver ?_ (.inl ?_))
        · rw [cursor_add, cursor_after]
          exact far
        · rw [State.readText, errors_add]
          exact List.append_ne_nil_of_right_ne_nil _ (List.cons_ne_nil _ _)

end Meets

/-! ## Start tags -/

namespace Embeds

theorem startTag (modern : o.legacy = none) (h : Embeds u t base long short)
    (fits : short.cursor.Fits t) (mark : short.cursor.rest.head? = some '<') :
    (long.startTag o).Matches u t (Tag.behind u) (short.startTag (o.behind u)) ∨
      (long.startTag o).RunsOver t (short.startTag (o.behind u)) ∧
        (short.startTag (o.behind u)).log.errors ≠ [] := by
  have starts : Tag.mark .opening <+: short.cursor.rest := by
    obtain ⟨y, rest⟩ := List.head?_eq_some_iff.mp mark
    exact ⟨y, rest.symm⟩
  unfold State.startTag
  rw [Tag.read_options, h.cursor, h.flags]
  exact Tag.read_within modern short.flags.vPre fits starts u

variable (h : Embeds u t base long short)
  (same : (long.startTag o).Matches u t (Tag.behind u) (short.startTag (o.behind u)))
  (names : ∀ tag, o.namespaceOf tag long.parent = (o.behind u).namespaceOf tag short.parent)
include h same

theorem flagsInside : long.flagsInside o = short.flagsInside (o.behind u) := by
  rw [State.flagsInside, State.flagsInside, same.value, h.flags]
  rfl

theorem afterStartTag :
    Embeds u t base (long.afterStartTag o) (short.afterStartTag (o.behind u)) :=
  (h.after same).report rfl

include names

/-- The element that starts next is the same in both templates. -/
theorem started : (long.started o).1 = (short.started (o.behind u)).1.behind u := by
  have reached : short.cursor.Reaches (short.startTag (o.behind u)).cursor :=
    (short.cursor.reaches_skip _).trans (Tag.reaches_read _ _ _ _)
  have inherited : (long.started o).1 = (Element.ofTag o (long.flagsInside o).vPre
      (short.parent.map (Element.behind u)) (long.startTag o).value
      (long.cursor.locationTo (long.startTag o).cursor)).1 :=
    congrArg (fun ns => { (long.started o).1 with ns := ns }) (names _)
  rw [inherited, h.flagsInside same, same.value, same.cursor, h.cursor,
    Cursor.locationTo_within reached]
  exact Element.ofTag_behind u o _ _ _ _

theorem startsEmpty : long.startsEmpty o = short.startsEmpty (o.behind u) := by
  rw [State.startsEmpty, State.startsEmpty, h.started same names]
  rfl

/-- The same element is open after its start tag in both templates. -/
theorem enter (modes : ∀ e, o.textModeOf (e.behind u) long.parent =
      (o.behind u).textModeOf e short.parent) :
    Embeds u t base
      { long.afterStartTag o with
        stack := long.opened o :: long.stack
        flags := long.flagsInside o }
      { short.afterStartTag (o.behind u) with
        stack := short.opened (o.behind u) :: short.stack
        flags := short.flagsInside (o.behind u) } := by
  have after := h.afterStartTag same
  have entry : long.opened o = (short.opened (o.behind u)).within u t := by
    simp only [opened, OpenElement.within, h.started same names, h.cursor, same.cursor, h.flags,
      modes, List.map_nil]
  refine ⟨after.cursor, ?_, after.roots, h.flagsInside same, after.errors⟩
  rw [entry, h.stack]
  rfl

end Embeds

namespace Meets

theorem openElement (modern : o.legacy = none) (h : Meets o u t base long short)
    (mark : short.cursor.rest.head? = some '<') :
    Follows o u t base (long.openElement o) (short.openElement (o.behind u)) := by
  have parent := h.toEmbeds.parent h.around
  have names : ∀ tag, o.namespaceOf tag long.parent = (o.behind u).namespaceOf tag short.parent :=
    fun tag => by rw [parent]; rfl
  rcases h.toEmbeds.startTag modern h.fits mark with same | ⟨beyond, cut⟩
  · have after := h.toEmbeds.afterStartTag same
    have add : ∀ {s s' : State}, Embeds u t base s' s → base.Surrounds s →
        Embeds u t base (s'.addElement o (long.started o).1 [])
          (s.addElement (o.behind u) (short.started (o.behind u)).1 []) := by
      intro s s' embeds around
      have added := embeds.add around (.element (short.started (o.behind u)).1 [])
      rw [Node.element_behind, ← h.toEmbeds.started same names] at added
      rw [addElement_eq modern, addElement_eq (o := o.behind u) modern]
      exact added
    have depth : long.stack.length = short.stack.length + base.stack.length := by
      rw [h.stack, List.length_append, List.length_map]
    rw [openElement_eq, openElement_eq, h.toEmbeds.startsEmpty same names]
    split
    · exact .inl (add after h.around)
    · by_cases deep : (o.behind u).maxDepth ≤ short.stack.length
      · have deep' : o.maxDepth ≤ long.stack.length :=
          Nat.le_trans deep (depth ▸ Nat.le_add_right _ _)
        rw [if_pos deep, if_pos deep', h.cursor]
        exact .inl (add (after.report rfl) h.around)
      · rw [if_neg deep]
        by_cases deep' : o.maxDepth ≤ long.stack.length
        · -- too deep only with the elements around the excerpt
          rw [if_pos deep']
          refine .inr (.outside ?_ ?_)
          · intro none
            rw [depth, none] at deep'
            exact deep deep'
          · rw [errors_addElement]
            exact nofun
        · rw [if_neg deep']
          exact .inl (h.toEmbeds.enter same names fun e => by rw [parent]; rfl)
  · refine .inr (.runsOver ?_ (.inl fun none => cut ?_))
    · rw [(openElement_cases o long).cursor_eq]
      exact beyond.long
    · exact (openElement_cases (o.behind u) short).startTag_errors none

/-! ## Markup -/

theorem strayEndTag (modern : o.legacy = none) (h : Meets o u t base long short)
    (mark : Tag.mark .closing <+: short.cursor.rest) :
    Follows o u t base (long.after (Tag.read o .closing long.flags.vPre long.cursor))
      (short.after (Tag.read (o.behind u) .closing short.flags.vPre short.cursor)) := by
  rw [Tag.read_options, h.cursor, h.flags]
  rcases Tag.read_within modern short.flags.vPre h.fits mark u with same | ⟨beyond, cut⟩
  · exact .inl (h.after same)
  · refine .inr (.runsOver beyond.long (.inl ?_))
    exact List.append_ne_nil_of_left_ne_nil (List.reverse_ne_nil_iff.mpr cut) _

theorem readMarkup (modern : o.legacy = none) (h : Meets o u t base long short)
    (head : short.cursor.rest.head? = some '<')
    (inside : (Cursor.ofText text).Reaches short.cursor) :
    Follows o u t base (long.readMarkup o (u ++ text ++ t))
      (short.readMarkup (o.behind u) text) := by
  obtain ⟨y, rest⟩ := List.head?_eq_some_iff.mp head
  have fits : Text.Fits t y := by
    have fits := h.fits.text
    rw [rest] at fits
    exact fits.tail (by decide)
  have starts : ∀ {markup}, Markup.classify y = markup → markup.mark <+: short.cursor.rest := by
    rintro _ rfl
    rw [rest]
    exact Markup.mark_classify y
  have next : short.cursor.rest.drop 1 = y := by
    rw [rest]
    rfl
  have next' : long.cursor.rest.drop 1 = y ++ t := by
    rw [h.cursor, Cursor.rest_within, rest]
    rfl
  have foreign : (long.parent.any fun e => e.ns != .html) =
      short.parent.any fun e => e.ns != .html := by
    rw [h.toEmbeds.parent h.around, Option.any_map]
    rfl
  unfold State.readMarkup
  dsimp only
  rw [next, next', Markup.classify_within fits, foreign]
  split
  · next markup => exact (h.reportAt _ (starts markup).length_le).readText
  · exact h.readComment
  · exact h.readBogus head
  · next markup =>
    split
    · exact h.readSection (starts markup) inside
    · exact (h.reportAt _ (Nat.zero_le _)).readBogus head
  · exact (h.reportAt _ (Nat.zero_le _)).readBogus head
  · next markup => exact (h.reportAt _ (starts markup).length_le).readText
  · next markup =>
    have width := (starts markup).length_le
    have reported := h.reportAt .missingEndTagName (Nat.le_of_succ_le width)
    have cursor : long.cursor.skip 3 = (short.cursor.skip 3).within u t := by
      rw [h.cursor]
      exact Cursor.skip_within h.fits.first (.inl width) u
    exact .inl ⟨cursor, reported.stack, reported.roots, reported.flags, reported.errors⟩
  · next markup => exact (h.reportAt _ (Nat.zero_le _)).strayEndTag modern (starts markup)
  · next markup => exact (h.reportAt _ (starts markup).length_le).readBogus head
  · exact h.openElement modern head
  · next markup =>
    exact (h.reportAt _ (Nat.le_of_succ_le (starts markup).length_le)).readBogus head
  · next markup => exact (h.reportAt _ (starts markup).length_le).readText

theorem readNode (modern : o.legacy = none) (h : Meets o u t base long short)
    (inside : (Cursor.ofText text).Reaches short.cursor) :
    Follows o u t base (long.readNode o (u ++ text ++ t)) (short.readNode (o.behind u) text) := by
  have starts : o.openDelimiter.isPrefixOf long.cursor.rest =
      o.openDelimiter.isPrefixOf short.cursor.rest := by
    rw [h.cursor]
    exact h.delimiter [] _ rfl h.more
  have interpolation : long.startsInterpolation o = short.startsInterpolation (o.behind u) := by
    rw [startsInterpolation, startsInterpolation, Cursor.startsWith, starts, h.flags]
    rfl
  have delimiter : short.startsInterpolation (o.behind u) = true →
      o.openDelimiter <+: short.cursor.rest := by
    intro starts
    exact List.isPrefixOf_iff_prefix.mp (Bool.and_eq_true_iff.mp starts).2
  have head : long.cursor.rest.head? = short.cursor.rest.head? := by
    rw [h.cursor]
    exact h.fits.text.head?_append
  unfold State.readNode
  rw [h.toEmbeds.mode h.around, interpolation, head]
  split
  · split
    · next starts => exact h.readInterpolation (delimiter starts)
    · split
      · next mark => exact h.readMarkup modern (beq_iff_eq.mp mark) inside
      · exact h.readText
  · split
    · next starts => exact h.readInterpolation (delimiter starts)
    · exact h.readText
  all_goals exact h.readText

end Meets

/-! ## Ends of elements -/

theorem isCommentLikeScript_behind (tag u : List Char) (children : List Node) :
    isCommentLikeScript tag (children.map (Node.behind u)) = isCommentLikeScript tag children := by
  unfold isCommentLikeScript
  rw [List.head?_map, Option.any_map]
  congr 2
  funext node
  cases node <;> rfl

theorem finishedChildren_within {c : Cursor} {e : OpenElement} (spans : e.Spans c)
    (inside : (Cursor.ofText text).Reaches e.start) (inPre : Bool) (u t : List Char) :
    finishedChildren o (u ++ text ++ t) inPre (e.within u t) =
      (finishedChildren (o.behind u) text inPre e).map (Node.behind u) := by
  have settled := Siblings.settle_behind o inPre (o.isPreTag e.element.tag)
    (inside.trans spans.tag) spans.children u t
  rw [← Siblings.settle_options o u text] at settled
  have reversed : (e.within u t).children.reverse = e.children.reverse.map (Node.behind u) :=
    List.map_reverse.symm
  have mode : (e.within u t).mode = e.mode := rfl
  unfold finishedChildren
  rw [reversed, mode]
  split
  · rfl
  · rfl
  all_goals exact settled

namespace Embeds

theorem atEnd_cursor (h : Embeds u t base long short) (more : short.cursor.rest ≠ [] ∨ t = []) :
    long.cursor.atEnd = short.cursor.atEnd := by
  rw [h.cursor, Cursor.atEnd, Cursor.atEnd, Cursor.rest_within]
  rcases more with more | rfl
  · rw [List.isEmpty_eq_false_iff.mpr more,
      List.isEmpty_eq_false_iff.mpr (List.append_ne_nil_of_left_ne_nil more t)]
  · rw [List.append_nil]

theorem readEndTag (modern : o.legacy = none) (h : Embeds u t base long short)
    (fits : short.cursor.Fits t) (more : short.cursor.rest ≠ [] ∨ t = []) {e : Element}
    (named : Tag.WellNamed e.tag) (children : List Node) :
    Embeds u t base (long.readEndTag o (e.behind u) (children.map (Node.behind u)))
        (short.readEndTag (o.behind u) e children) ∨
      (long.readEndTag o (e.behind u) (children.map (Node.behind u))).cursor.rest.length <
          t.length ∧
        (short.readEndTag (o.behind u) e children).errors ≠ [] := by
  have ends : Tag.startsEndTag (e.behind u).tag long.cursor.rest =
      Tag.startsEndTag e.tag short.cursor.rest := by
    rw [h.cursor]
    exact Tag.startsEndTag_within named fits.text
  unfold State.readEndTag
  rw [ends, isCommentLikeScript_behind, h.atEnd_cursor more, Tag.read_options]
  split
  · next starts =>
    have mark : Tag.mark .closing <+: short.cursor.rest :=
      ((Tag.startsEndTag_iff named).mp starts).1
    rw [h.cursor, h.flags]
    rcases Tag.read_within modern short.flags.vPre fits mark u with same | ⟨beyond, cut⟩
    · exact .inl (h.after same)
    · refine .inr ⟨beyond.long, ?_⟩
      exact List.append_ne_nil_of_left_ne_nil (List.reverse_ne_nil_iff.mpr cut) _
  · left
    have moved : (Log.error .missingEndTag (e.behind u).loc.start).Moved u
        (.error .missingEndTag e.loc.start) := rfl
    have missing := h.report moved
    dsimp only
    have script : (e.behind u).tag = e.tag := rfl
    rw [script]
    split
    · refine missing.report ?_
      rw [h.cursor]
      rfl
    · exact missing

end Embeds

/-- Where no legacy is honoured, the end tag is read for the element as it was opened. -/
theorem afterEndTag_eq (modern : o.legacy = none) (source : List Char) (s : State) (e : OpenElement)
    (stack : List OpenElement) :
    s.afterEndTag o source e stack = { s with stack := stack }.readEndTag o e.element
      (finishedChildren o source s.flags.pre e) := by
  simp only [afterEndTag, filled, withInlineTemplate_eq modern]
  rfl

theorem closed_eq (modern : o.legacy = none) (source : List Char) (s : State) (e : OpenElement)
    (stack : List OpenElement) :
    s.closed o source e stack =
      { e.element with loc := e.start.locationTo (s.afterEndTag o source e stack).cursor } := by
  simp only [closed, filled, withInlineTemplate_eq modern]

namespace Embeds

variable {e : OpenElement} {stack : List OpenElement}

/-- The innermost element ends in the whole template as in the excerpt, or its end tag is cut off
    in the excerpt. -/
theorem afterEndTag (modern : o.legacy = none) (h : Embeds u t base long short)
    (placed : Placed text short) (fits : short.cursor.Fits t)
    (more : short.cursor.rest ≠ [] ∨ t = []) (top : short.stack = e :: stack)
    (named : Tag.WellNamed e.element.tag) :
    let below := stack.map (OpenElement.within u t) ++ base.stack
    let children := finishedChildren o (u ++ text ++ t) long.flags.pre (e.within u t)
    let long' := long.afterEndTag o (u ++ text ++ t) (e.within u t) below
    let short' := short.afterEndTag (o.behind u) text e stack
    children = (finishedChildren (o.behind u) text short.flags.pre e).map (Node.behind u) ∧
      (Embeds u t base long' short' ∧
          long.closed o (u ++ text ++ t) (e.within u t) below =
            (short.closed (o.behind u) text e stack).behind u ∨
        long'.cursor.rest.length < t.length ∧ short'.errors ≠ []) := by
  intro below children long' short'
  have nodes := placed.nodes
  rw [top] at nodes
  have before := nodes.2.reaches
  have finished : children =
      (finishedChildren (o.behind u) text short.flags.pre e).map (Node.behind u) := by
    rw [← h.flags]
    exact finishedChildren_within nodes.1 before long.flags.pre u t
  have popped : Embeds u t base { long with stack := below } { short with stack := stack } :=
    ⟨h.cursor, rfl, h.roots, h.flags, h.errors⟩
  have read := popped.readEndTag modern fits more named
    (finishedChildren (o.behind u) text short.flags.pre e)
  rw [← finished] at read
  have wide := afterEndTag_eq modern (u ++ text ++ t) long (e.within u t) below
  have narrow := afterEndTag_eq (o := o.behind u) modern text short e stack
  refine ⟨finished, ?_⟩
  rcases read with same | beyond
  · left
    have same : Embeds u t base long' short' := by
      change Embeds u t base (long.afterEndTag ..) (short.afterEndTag ..)
      rw [wide, narrow]
      exact same
    refine ⟨same, ?_⟩
    have reached : e.start.Reaches short'.cursor :=
      (nodes.1.tag.trans nodes.1.children.reaches).trans (reaches_afterEndTag _ _ _ _ _)
    rw [closed_eq modern, closed_eq (o := o.behind u) modern]
    change Element.mk _ _ _ _ _ ((e.start.within u t).locationTo long'.cursor) = _
    rw [same.cursor, Cursor.locationTo_within reached]
    rfl
  · right
    change (long.afterEndTag ..).cursor.rest.length < _ ∧ (short.afterEndTag ..).errors ≠ []
    rw [wide, narrow]
    exact beyond

theorem closeElement (modern : o.legacy = none) (h : Embeds u t base long short)
    (placed : Placed text short) (fits : short.cursor.Fits t)
    (more : short.cursor.rest ≠ [] ∨ t = []) (top : short.stack = e :: stack)
    (named : Tag.WellNamed e.element.tag) (around : stack = [] → base.Clear) :
    Follows o u t base
      (long.closeElement o (u ++ text ++ t) (e.within u t)
        (stack.map (OpenElement.within u t) ++ base.stack))
      (short.closeElement (o.behind u) text e stack) := by
  obtain ⟨finished, same | ⟨far, cut⟩⟩ := h.afterEndTag modern placed fits more top named
  · obtain ⟨same, closed⟩ := same
    left
    have later : Embeds u t base
        { long.afterEndTag o (u ++ text ++ t) (e.within u t)
          (stack.map (OpenElement.within u t) ++ base.stack) with flags := e.outer }
        { short.afterEndTag (o.behind u) text e stack with flags := e.outer } :=
      ⟨same.cursor, same.stack, same.roots, rfl, same.errors⟩
    have outside : base.Surrounds
        { short.afterEndTag (o.behind u) text e stack with flags := e.outer } := by
      intro none
      simp only [State.afterEndTag, stack_readEndTag, stack_report] at none
      exact around none
    have added := later.add outside (.element (short.closed (o.behind u) text e stack)
      (finishedChildren (o.behind u) text short.flags.pre e))
    rw [Node.element_behind, ← closed, ← finished] at added
    rw [closeElement_eq, closeElement_eq, addElement_eq modern,
      addElement_eq (o := o.behind u) modern]
    exact added
  · refine .inr (.runsOver ?_ (.inl ?_))
    · rw [closeElement_eq, cursor_addElement]
      exact far
    · rw [closeElement_eq, errors_addElement]
      exact cut

/-! ## Steps -/

/-- The innermost element ends at the same places, except that end tags of elements around the
    excerpt end it too. -/
theorem atEnd (h : Embeds u t base long short) (around : base.Surrounds short)
    (fits : short.cursor.Fits t) (more : short.cursor.rest ≠ [] ∨ t = [])
    (named : ∀ e ∈ short.stack, Tag.WellNamed e.element.tag) :
    long.atEnd = short.atEnd ∨
      base.stack ≠ [] ∧ short.mode = .data ∧ short.atEnd = false ∧ long.atEnd = true := by
  have ends : ∀ e ∈ short.stack, Tag.startsEndTag e.element.tag (short.cursor.rest ++ t) =
      Tag.startsEndTag e.element.tag short.cursor.rest := fun e member =>
    Tag.startsEndTag_within (named e member) fits.text
  have parent : (long.parent.any fun e => Tag.startsEndTag e.tag long.cursor.rest) =
      short.parent.any fun e => Tag.startsEndTag e.tag short.cursor.rest := by
    rw [h.parent around, h.cursor, Option.any_map]
    unfold State.parent
    cases top : short.stack with
    | nil => rfl
    | cons e stack => exact ends e (top ▸ List.mem_cons_self)
  unfold State.atEnd
  rw [h.mode around, h.atEnd_cursor more, parent]
  cases data : short.mode with
  | rcData | rawText | attributeValue => exact .inl rfl
  | cData =>
      left
      have section_ : TextNode.sectionEnd.isPrefixOf (short.cursor.rest ++ t) =
          TextNode.sectionEnd.isPrefixOf short.cursor.rest :=
        Text.isPrefixOf_fits (by decide) fits.text
      simp only [h.cursor, Cursor.startsWith, Cursor.rest_within, section_]
  | data =>
      have inner : ((short.stack.map (OpenElement.within u t)).any fun e =>
          Tag.startsEndTag e.element.tag long.cursor.rest) =
          short.stack.any fun e => Tag.startsEndTag e.element.tag short.cursor.rest := by
        rw [List.any_map, h.cursor, Bool.eq_iff_iff, List.any_eq_true, List.any_eq_true]
        refine exists_congr fun e => and_congr_right fun member => ?_
        exact iff_of_eq (congrArg (· = true) (ends e member))
      dsimp only
      rw [h.stack, List.any_append, inner]
      cases outer : base.stack.any fun e => Tag.startsEndTag e.element.tag long.cursor.rest with
      | false =>
          left
          rw [Bool.or_false]
      | true =>
          rw [Bool.or_true, Bool.or_true]
          cases here : short.cursor.atEnd || short.stack.any fun e =>
              Tag.startsEndTag e.element.tag short.cursor.rest with
          | true => exact .inl rfl
          | false =>
              refine .inr ⟨fun none => ?_, rfl, rfl, rfl⟩
              rw [none] at outer
              cases outer

/-- A step in the whole template does what the step in the excerpt does, or the two part. -/
theorem step (modern : o.legacy = none) (seam : Seam o t text) (h : Embeds u t base long short)
    (reachable : Reachable (o.behind u) text short) (goes : short.isDone = false)
    (more : short.cursor.rest ≠ [] ∨ t = []) (around : base.Surrounds short)
    (last : ∀ e, short.stack = [e] → short.atEnd = true → base.Clear) :
    Follows o u t base (long.step o (u ++ text ++ t)) (short.step (o.behind u) text) := by
  have placed := reachable.placed
  have named := reachable.disciplined.names
  obtain ⟨fits, delimiter⟩ := seam.at placed.inside more
  have stack := h.stack
  rcases h.atEnd around fits more named with same | ⟨outside, data, inside, ends⟩
  · cases ends : short.atEnd with
    | false =>
        have rest : short.cursor.rest ≠ [] := by
          intro empty
          simp [State.atEnd, Cursor.atEnd, empty] at ends
        rw [State.step, State.step, same, ends]
        exact Meets.readNode modern ⟨h, around, rest, fits, delimiter⟩ placed.inside
    | true =>
        cases top : short.stack with
        | nil => simp [isDone, top, ends] at goes
        | cons e below =>
            rw [top] at stack
            simp only [State.step, same, ends, top, stack, if_true]
            refine h.closeElement modern placed fits more top
              (named e (top ▸ List.mem_cons_self)) fun none => last e ?_ ends
            rw [top, none]
  · -- an end tag from around the excerpt comes before that of the innermost element
    cases top : short.stack with
    | nil => exact absurd (around top).1 outside
    | cons e below =>
        rw [top] at stack
        have unmatched : Tag.startsEndTag e.element.tag short.cursor.rest = false := by
          simp only [State.atEnd, data, top, List.any_cons, Bool.or_eq_false_iff] at inside
          exact inside.2.1
        have unmatched : Tag.startsEndTag (e.within u t).element.tag long.cursor.rest = false := by
          rw [h.cursor]
          exact (Tag.startsEndTag_within (named e (top ▸ List.mem_cons_self)) fits.text).trans
            unmatched
        obtain ⟨_, errors, _, _, missing⟩ := closeElement_unmatched o (u ++ text ++ t)
          (e.within u t) (below.map (OpenElement.within u t) ++ base.stack) unmatched
        refine .inr (.outside outside ?_)
        simp only [State.step, ends, stack, if_true, List.map_cons, List.cons_append, missing]
        exact List.append_ne_nil_of_right_ne_nil _ (List.cons_ne_nil _ _)

end Embeds

/-! ## Starts -/

theorem opens_initial {letter : Char} (delimiter : '<' ∉ o.openDelimiter)
    (isLetter : letter.isAlpha = true) (rest : List Char) :
    (initial ('<' :: letter :: rest)).Opens o where
  goes := rfl
  data := rfl
  markup := classify_of_isNameStart isLetter rest
  mark := rfl
  plain := by
    cases open_ : o.openDelimiter with
    | nil => simp [startsInterpolation, open_]
    | cons d s =>
        have other : (d == '<') = false :=
          beq_eq_false_iff_ne.mpr fun same => delimiter (by rw [open_, same]; simp)
        simp [startsInterpolation, Cursor.startsWith, initial, Cursor.ofText, open_,
          List.isPrefixOf, other]

end State

end Stencil
