import Stencil.Proofs.Nesting
import Stencil.Proofs.Origin
import Stencil.Proofs.RoundTrip.Tag

/-! # Round trips

Reading the printed form of well-formed drafts gives the drafts back. The argument follows the
draft: each construct is read in a run of steps of its own that leaves the open elements, the flags
and the reports as they were, stops right behind the printed form, and adds one sibling that says
what the draft says.
-/

namespace Stencil

namespace State

variable {o : Options} {source : List Char} {s t u : State} {c d : Cursor} {nodes : List Node}

/-- The nodes finished so far in the innermost element, newest first. -/
def siblings (s : State) : List Node :=
  match s.stack with
  | [] => s.roots
  | e :: _ => e.children

/-- The state at `c` with `nodes` finished so far in the innermost element, newest first. -/
def goOn (s : State) (c : Cursor) (nodes : List Node) : State :=
  match s.stack with
  | [] => { s with cursor := c, roots := nodes }
  | e :: stack => { s with cursor := c, stack := { e with children := nodes } :: stack }

theorem goOn_self (s : State) : s.goOn s.cursor s.siblings = s := by
  rcases s with ⟨_, _ | _, _⟩ <;> rfl

@[simp]
theorem goOn_goOn (s : State) (c d : Cursor) (xs ys : List Node) :
    (s.goOn c xs).goOn d ys = s.goOn d ys := by
  rcases s with ⟨_, _ | _, _⟩ <;> rfl

@[simp]
theorem siblings_goOn (s : State) (c : Cursor) (nodes : List Node) :
    (s.goOn c nodes).siblings = nodes := by
  rcases s with ⟨_, _ | _, _⟩ <;> rfl

@[simp]
theorem cursor_goOn (s : State) (c : Cursor) (nodes : List Node) :
    (s.goOn c nodes).cursor = c := by
  rcases s with ⟨_, _ | _, _⟩ <;> rfl

@[simp]
theorem flags_goOn (s : State) (c : Cursor) (nodes : List Node) :
    (s.goOn c nodes).flags = s.flags := by
  rcases s with ⟨_, _ | _, _⟩ <;> rfl

@[simp]
theorem mode_goOn (s : State) (c : Cursor) (nodes : List Node) :
    (s.goOn c nodes).mode = s.mode := by
  rcases s with ⟨_, _ | _, _⟩ <;> rfl

@[simp]
theorem length_stack_goOn (s : State) (c : Cursor) (nodes : List Node) :
    (s.goOn c nodes).stack.length = s.stack.length := by
  rcases s with ⟨_, _ | _, _⟩ <;> rfl

/-- Going on after a reading that has nothing to report. -/
theorem add_eq_goOn (s : State) (c : Cursor) (node : Node) :
    { s with cursor := c }.add node = s.goOn c (Siblings.push node s.siblings) := by
  rcases s with ⟨_, _ | _, _⟩ <;> rfl

theorem after_eq {α : Type} {r : Reading α} (s : State) (quiet : r.log = .empty) :
    s.after r = { s with cursor := r.cursor } := by
  rw [after, quiet]
  rfl

theorem Steps.trans {m n : Nat} (h : Steps o source m s t) (k : Steps o source n t u) :
    Steps o source (n + m) s u := by
  induction h with
  | refl => exact k
  | step goes _ ih => exact .step goes (ih k)

theorem run_of_isDone (done : s.isDone = true) : s.run o source = s := by
  rw [run, dif_pos done]

theorem Steps.run_eq {n : Nat} (h : Steps o source n s t) : s.run o source = t.run o source := by
  induction h with
  | refl => rfl
  | step goes _ ih => rw [run_of_not_isDone goes, ih]

/-- From `s` the reader goes on to where `tail` is left, and the nodes that it finishes in the
    innermost element on the way say `ds`. Nothing else changes. -/
def Tells (s : State) (source : List Char) (tail : List Char) (ds : List Draft) : Prop :=
  ∃ n c nodes, Steps .preserving source n s (s.goOn c (nodes.reverse ++ s.siblings)) ∧
    c.rest = tail ∧ Node.listDraft? nodes = some ds

theorem Tells.nil {tail : List Char} (h : s.cursor.rest = tail) : s.Tells source tail [] := by
  refine ⟨0, s.cursor, [], ?_, h, rfl⟩
  rw [List.reverse_nil, List.nil_append, goOn_self]
  exact .refl s

theorem Tells.append {mid tail : List Char} {ds es : List Draft} (h : s.Tells source mid ds)
    (k : ∀ c nodes, c.rest = mid → Node.listDraft? nodes = some ds →
      (s.goOn c (nodes.reverse ++ s.siblings)).Tells source tail es) :
    s.Tells source tail (ds ++ es) := by
  obtain ⟨m, c, xs, first, rest, tells⟩ := h
  obtain ⟨n, d, ys, second, rest', tells'⟩ := k c xs rest tells
  refine ⟨n + m, d, xs ++ ys, first.trans ?_, rest', Node.listDraft?_append tells tells'⟩
  simpa using second

/-- A step that reads one construct. -/
theorem Tells.of_step (c : Cursor) (node : Node) {tail : List Char} {draft : Draft}
    (goes : s.atEnd = false)
    (step : s.step .preserving source = s.goOn c (Siblings.push node s.siblings))
    (apart : Siblings.push node s.siblings = node :: s.siblings) (rest : c.rest = tail)
    (tells : node.draft? = some draft) : s.Tells source tail [draft] := by
  have more : s.isDone = false := by rw [isDone, goes, Bool.and_false]
  refine ⟨1, c, [node], .step more ?_, rest, ?_⟩
  · rw [step, apart]
    exact .refl _
  · rw [Node.listDraft?, tells]
    rfl

/-- Where markup is read outside of `pre`. -/
structure Ready (s : State) : Prop where
  data : s.mode = .data
  flags : s.flags = ⟨false, false⟩

theorem Ready.goOn (h : s.Ready) (c : Cursor) (nodes : List Node) : (s.goOn c nodes).Ready where
  data := by rw [mode_goOn, h.data]
  flags := by rw [flags_goOn, h.flags]

/-- Where no end tag starts, no element ends. -/
theorem Ready.not_atEnd (h : s.Ready) {x : Char} {rest : List Char}
    (text : s.cursor.rest = x :: rest) (other : ∀ v, x :: rest ≠ '<' :: '/' :: v) :
    s.atEnd = false := by
  have none : ∀ tag, Tag.startsEndTag tag (x :: rest) = false := by
    intro tag
    unfold Tag.startsEndTag
    split
    · next v same => exact absurd same (other v)
    · rfl
  simp [atEnd, Cursor.atEnd, text, h.data, none]

/-! ## Leaves -/

theorem push_of_ne {node : Node} (h : node.kind ≠ .text) :
    Siblings.push node nodes = node :: nodes := by
  cases node with
  | text t => exact absurd rfl h
  | element | comment | interpolation => rfl

theorem push_of_head {node : Node} (h : nodes.head?.map Node.kind ≠ some .text) :
    Siblings.push node nodes = node :: nodes := by
  match nodes, h with
  | [], _ | .element .. :: _, _ | .comment _ :: _, _ | .interpolation _ :: _, _ =>
      cases node <;> rfl
  | .text _ :: _, h => exact absurd rfl h

theorem Ready.tells_text (h : s.Ready) {content tail : List Char}
    (text : s.cursor.rest = content ++ tail) (plain : Draft.isPlainText content = true)
    (stops : Draft.Stops tail) (apart : s.siblings.head?.map Node.kind ≠ some .text) :
    s.Tells source tail [.text content] := by
  obtain ⟨rest, value⟩ := TextNode.read_plain text plain stops
  obtain ⟨ink, free⟩ := Draft.isPlainText_iff.mp plain
  cases content with
  | nil => cases ink
  | cons x content =>
      obtain ⟨bracket, _, brace⟩ := free x List.mem_cons_self
      rw [List.cons_append] at text
      have goes := h.not_atEnd text fun v same => bracket (List.cons.inj same).1
      have off : s.startsInterpolation .preserving = false := by
        simp [startsInterpolation, Cursor.startsWith, text, Options.preserving, Options.base,
          List.isPrefixOf, Ne.symm brace]
      have head : (s.cursor.rest.head? == some '<') = false := by
        simp [text, bracket]
      refine .of_step (TextNode.read .preserving .data s.cursor).cursor
        (.text (TextNode.read .preserving .data s.cursor).value) goes ?_ (push_of_head apart) rest ?_
      · rw [step, goes, if_neg Bool.false_ne_true, readNode, h.data]
        dsimp only
        rw [off, head, if_neg Bool.false_ne_true, if_neg Bool.false_ne_true, readText, h.data,
          after_eq s rfl, add_eq_goOn]
      · rw [Node.draft?, value]

theorem Ready.tells_comment (h : s.Ready) {content tail : List Char}
    (text : s.cursor.rest = (Draft.comment content).print ++ tail)
    (plain : Draft.isPlainComment content = true) : s.Tells source tail [.comment content] := by
  obtain ⟨rest, value, log⟩ := Comment.read_plain text plain
  have start : s.cursor.rest = '<' :: '!' :: '-' :: '-' :: (content ++ ("-->".toList ++ tail)) := by
    rw [text, Draft.print]
    simp
  have goes := h.not_atEnd start fun v same => by
    simp at same
  have off : s.startsInterpolation .preserving = false := by
    simp [startsInterpolation, Cursor.startsWith, start, Options.preserving, Options.base,
      List.isPrefixOf]
  have markup : Markup.classify (s.cursor.rest.drop 1) = .comment := by
    rw [start]
    rfl
  refine .of_step (Comment.read s.cursor).cursor (.comment (Comment.read s.cursor).value) goes ?_
    (push_of_ne (by simp [Node.kind])) rest ?_
  · rw [step, goes, if_neg Bool.false_ne_true, readNode, h.data]
    dsimp only
    rw [off, start, if_neg Bool.false_ne_true, if_pos (by rfl), readMarkup]
    dsimp only
    rw [markup]
    dsimp only
    rw [addComment, after_eq s log, add_eq_goOn]
  · rw [Node.draft?, value]

theorem Ready.tells_interpolation (h : s.Ready) {expression tail : List Char}
    (text : s.cursor.rest = (Draft.interpolation expression).print ++ tail)
    (plain : Draft.isPlainExpression expression = true) :
    s.Tells source tail [.interpolation expression] := by
  obtain ⟨r, read, rest, content, static, log⟩ := Interpolation.read?_plain text plain
  have start : s.cursor.rest = '\x7b' :: '\x7b' :: ' ' ::
      (expression ++ (" \x7d\x7d".toList ++ tail)) := by
    rw [text, Draft.print]
    simp
  have goes := h.not_atEnd start fun v same => by
    simp at same
  have on : s.startsInterpolation .preserving = true := by
    simp [startsInterpolation, Cursor.startsWith, start, h.flags, Options.preserving, Options.base,
      List.isPrefixOf]
  refine .of_step r.cursor (.interpolation r.value) goes ?_ (push_of_ne (by simp [Node.kind]))
    rest ?_
  · rw [step, goes, if_neg Bool.false_ne_true, readNode, h.data]
    dsimp only
    rw [on, if_pos rfl, readInterpolation, h.data, read]
    dsimp only
    rw [after_eq s log, add_eq_goOn]
  · rw [Node.draft?, static, content, if_neg Bool.false_ne_true]

/-! ## Elements -/

/-- Nothing is worth a warning where no legacy is honoured. -/
theorem ofTag_warnings (h : o.legacy = none) (vPre : Bool) (parent : Option Element) (tag : Tag)
    (loc : Location) : (Element.ofTag o vPre parent tag loc).2 = [] := by
  have castBy : ∀ p, (Element.castBy none p).2 = [] := by
    intro p
    unfold Element.castBy
    repeat' split
    all_goals rfl
  have cast : ∀ props, (Element.cast none props).2 = [] := by
    intro props
    induction props with
    | nil => rfl
    | cons p props ih =>
        rw [Element.cast]
        split
        · next decided => exact (congrArg Prod.snd decided).symm.trans (castBy p)
        · exact ih
  have classify : (Element.classify o vPre tag.name tag.props).2 = [] := by
    unfold Element.classify
    rw [h]
    repeat' split
    any_goals rfl
    · next decided => exact (congrArg Prod.snd decided).symm.trans (cast _)
    · next decided => exact (congrArg Prod.snd decided).symm.trans (cast _)
  have precedence : Element.precedenceWarnings o tag.props loc = [] := by
    unfold Element.precedenceWarnings
    rw [h]
    split <;> rfl
  change Element.precedenceWarnings o tag.props loc ++
    (Element.classify o vPre tag.name tag.props).2 = []
  rw [classify, precedence]
  rfl

theorem withInlineTemplate_eq (h : o.legacy = none) (e : Element) (content : Location) :
    withInlineTemplate o e content = (e, []) := by
  unfold withInlineTemplate
  rw [h]
  split
  · rfl
  · rfl

theorem addElement_eq (h : o.legacy = none) (s : State) (e : Element) (children : List Node) :
    s.addElement o e children = s.add (.element e children) := by
  unfold addElement
  rw [h, show Legacy.isEnabled none .nativeTemplate = false from rfl, Bool.and_false,
    Bool.false_and, if_neg Bool.false_ne_true]

/-- The start tag of a draft opens an element. -/
theorem Ready.openElement_eq (h : s.Ready) {tag tail : List Char}
    {attributes : List (List Char × List Char)}
    (text : s.cursor.rest =
      '<' :: (tag ++ (attributes.flatMap Draft.printAttribute ++ '>' :: tail)))
    (named : Draft.isName tag = true) (plain : ∀ a ∈ attributes, Draft.isPlainAttribute a = true)
    (distinct : (attributes.map Prod.fst).Nodup) (room : s.stack.length < 512) :
    ∃ e c, s.openElement .preserving =
        { s with cursor := c, stack := ⟨e, s.cursor, c, .data, [], s.flags⟩ :: s.stack } ∧
      c.rest = tail ∧ e.tag = tag ∧ e.props.mapM Property.draft? = some attributes ∧
      e.isSelfClosing = false ∧ e.ns = .html := by
  have tagged : s.startTag .preserving = Tag.read .preserving .opening false s.cursor := by
    rw [startTag, h.flags]
  obtain ⟨rest, log, name, props, plain, markup⟩ :=
    Tag.read_opening_plain .preserving text named plain distinct
  rw [← tagged] at rest log name props plain markup
  refine ⟨(s.started .preserving).1, (s.startTag .preserving).cursor, ?_, rest, name, props, plain,
    rfl⟩
  have content : s.startsEmpty .preserving = false := by
    change ((s.startTag .preserving).value.isSelfClosing || false) = false
    rw [plain, Bool.or_false]
  have inside : s.flagsInside .preserving = s.flags := by
    rw [flagsInside, markup, h.flags]
    rfl
  have quiet : s.afterStartTag .preserving =
      { s with cursor := (s.startTag .preserving).cursor } := by
    rw [afterStartTag, started, ofTag_warnings rfl, after_eq s log]
    rfl
  have shallow : ¬ Options.preserving.maxDepth ≤ s.stack.length := Nat.not_le_of_lt room
  rw [State.openElement_eq, content, if_neg Bool.false_ne_true, if_neg shallow, inside, quiet]
  rfl

/-- The end tag of a draft closes the element. -/
theorem closeElement_plain (source : List Char) {e : OpenElement} (stack : List OpenElement)
    {tail : List Char}
    (text : s.cursor.rest = '<' :: '/' :: (e.element.tag ++ '>' :: tail))
    (named : Draft.isName e.element.tag = true) :
    ∃ c loc, s.closeElement .preserving source e stack =
        { s with cursor := c, stack := stack, flags := e.outer }.add
          (.element { e.element with loc := loc }
            (finishedChildren .preserving source s.flags.pre e)) ∧ c.rest = tail := by
  obtain ⟨rest, log⟩ := Tag.read_closing_plain .preserving s.flags.vPre text named
  have own : Tag.startsEndTag e.element.tag s.cursor.rest = true := by
    rw [text]
    simp [Tag.startsEndTag, Text.sameIgnoringCase, Tag.isBreak]
  have filled : s.filled .preserving e = (e.element, []) := withInlineTemplate_eq rfl _ _
  have ended : s.afterEndTag .preserving source e stack =
      { s with cursor := (Tag.read .preserving .closing s.flags.vPre s.cursor).cursor,
               stack := stack } := by
    rw [afterEndTag, filled, readEndTag]
    refine (if_pos own).trans ?_
    exact after_eq { s with stack := stack } log
  rw [closeElement_eq, addElement_eq rfl, closed, filled, ended]
  exact ⟨_, _, rfl, rest⟩

end State

/-! ## Finished siblings -/

namespace Node

theorem exists_of_listDraft?_cons {node : Node} {nodes : List Node} {ds : List Draft}
    (h : listDraft? (node :: nodes) = some ds) :
    ∃ e es, ds = e :: es ∧ node.draft? = some e ∧ listDraft? nodes = some es := by
  rw [listDraft?] at h
  split at h
  · next e es here rest =>
    cases h
    exact ⟨e, es, rfl, here, rest⟩
  · cases h

theorem exists_of_listDraft?_singleton {nodes : List Node} {d : Draft}
    (h : listDraft? nodes = some [d]) : ∃ n, nodes = [n] ∧ n.draft? = some d := by
  cases nodes with
  | nil => cases h
  | cons node nodes =>
      obtain ⟨e, es, same, here, rest⟩ := exists_of_listDraft?_cons h
      cases same
      cases nodes with
      | nil => exact ⟨node, rfl, here⟩
      | cons next nodes =>
          obtain ⟨e, es, same, _, _⟩ := exists_of_listDraft?_cons rest
          cases same

/-- Texts have the drafts of texts, and nothing else has. -/
theorem isText_of_draft? {node : Node} {d : Draft} (h : node.draft? = some d) :
    d.isText = (node.kind == .text) := by
  cases node with
  | element e children =>
      rw [draft?] at h
      split at h
      · cases h
      · split at h
        · cases h
          rfl
        · cases h
  | text t =>
      cases h
      rfl
  | comment c =>
      cases h
      rfl
  | interpolation i =>
      rw [draft?] at h
      split at h
      · cases h
      · cases h
        rfl

end Node

namespace Siblings

variable {source : List Char} {nodes : List Node} {ds : List Draft}

theorem settleEach_of_draft (prev : Option NodeKind) (h : Node.listDraft? nodes = some ds)
    (wellFormed : Draft.listWellFormed ds = true) :
    settleEach .preserving false prev nodes = nodes.map some := by
  induction nodes generalizing ds prev with
  | nil => rfl
  | cons node nodes ih =>
      obtain ⟨d, es, rfl, here, rest⟩ := Node.exists_of_listDraft?_cons h
      rw [Draft.listWellFormed, Bool.and_eq_true, Bool.and_eq_true] at wellFormed
      obtain ⟨⟨first, _⟩, others⟩ := wellFormed
      have kept : ∀ next, settleNode .preserving false prev next node = some node := by
        intro next
        cases node with
        | text t =>
            cases here
            have ink := (Draft.isPlainText_iff.mp first).1
            rw [settleNode]
            unfold settleText
            rw [if_neg Bool.false_ne_true, ink, if_neg Bool.false_ne_true]
            rfl
        | element | comment | interpolation => rfl
      rw [settleEach, kept, ih _ rest others]
      rfl

theorem foldr_consJoining_of_draft (h : Node.listDraft? nodes = some ds)
    (wellFormed : Draft.listWellFormed ds = true) :
    nodes.foldr (consJoining .preserving false source) [] = nodes := by
  induction nodes generalizing ds with
  | nil => rfl
  | cons node nodes ih =>
      obtain ⟨d, es, rfl, here, rest⟩ := Node.exists_of_listDraft?_cons h
      rw [Draft.listWellFormed, Bool.and_eq_true, Bool.and_eq_true] at wellFormed
      obtain ⟨⟨_, apart⟩, others⟩ := wellFormed
      rw [List.foldr_cons, ih rest others]
      unfold consJoining
      split
      · next a b tail =>
        obtain ⟨e, fs, rfl, next, _⟩ := Node.exists_of_listDraft?_cons rest
        rw [List.head?_cons, Option.any_some, Node.isText_of_draft? here,
          Node.isText_of_draft? next] at apart
        cases apart
      · rfl

/-- Settling changes nothing in siblings that say well-formed drafts. -/
theorem settle_of_draft (preParent : Bool) (h : Node.listDraft? nodes = some ds)
    (wellFormed : Draft.listWellFormed ds = true) :
    settle .preserving source false preParent nodes = nodes := by
  rw [settle, settleEach_of_draft none h wellFormed]
  simp only [Bool.false_and, Bool.false_eq_true, if_false, List.filterMap_map]
  rw [show (id ∘ some : Node → Option Node) = some from rfl, List.filterMap_some]
  exact foldr_consJoining_of_draft h wellFormed

end Siblings

namespace State

variable {source : List Char} {s : State}

theorem classify_of_isNameStart {c : Char} (h : Tag.isNameStart c = true) (rest : List Char) :
    Markup.classify (c :: rest) = .startTag := by
  unfold Markup.classify
  split
  · next none => cases none
  · next same =>
    cases same
    cases h
  · next same =>
    cases same
    cases h
  · next same =>
    cases same
    cases h
  · next same =>
    cases same
    rw [if_pos h]

/-- The start tag, the content and the end tag of an element that tells a draft. -/
theorem Ready.tells_element (h : s.Ready) {tag tail : List Char}
    {attributes : List (List Char × List Char)} {children : List Draft}
    (text : s.cursor.rest = (Draft.element tag attributes children).print ++ tail)
    (wellFormed : (Draft.element tag attributes children).wellFormed = true)
    (room : s.stack.length < 512)
    (content : ∀ t : State, t.Ready → t.stack.length = s.stack.length + 1 → t.siblings = [] →
      t.cursor.rest = Draft.printAll children ++ '<' :: '/' :: (tag ++ '>' :: tail) →
      t.Tells source ('<' :: '/' :: (tag ++ '>' :: tail)) children) :
    s.Tells source tail [.element tag attributes children] := by
  rw [Draft.wellFormed] at wellFormed
  simp only [Bool.and_eq_true, List.all_eq_true, decide_eq_true_eq] at wellFormed
  obtain ⟨⟨⟨named, plain⟩, distinct⟩, inner⟩ := wellFormed
  have start : s.cursor.rest = '<' :: (tag ++ (attributes.flatMap Draft.printAttribute ++
      '>' :: (Draft.printAll children ++ '<' :: '/' :: (tag ++ '>' :: tail)))) := by
    rw [text, Draft.print]
    simp
  have opens : s.Opens .preserving := by
    obtain ⟨x, name, rfl, lower⟩ := Draft.exists_of_isName named
    have lower := lower x List.mem_cons_self
    have other := Draft.ne_of_isLower lower (d := '/') rfl
    refine ⟨h.not_atEnd start fun v same => ?_, h.data, ?_, ?_, ?_⟩
    · exact other (List.cons.inj (List.cons.inj same).2).1
    · rw [start]
      exact classify_of_isNameStart (Draft.isNameStart_of_isLower lower) _
    · rw [start]
      rfl
    · simp [startsInterpolation, Cursor.startsWith, start, Options.preserving, Options.base,
        List.isPrefixOf]
  obtain ⟨e, c, opened, rest, same, props, plain, html⟩ :=
    h.openElement_eq start named plain distinct room
  rw [← opens.step_eq source] at opened
  have begun : Steps .preserving source 1 s (s.step .preserving source) :=
    .step opens.not_isDone (.refl _)
  obtain ⟨n, d, nodes, reading, rest', tells⟩ :=
    content (s.step .preserving source) (by rw [opened]; exact ⟨rfl, h.flags⟩)
      (by rw [opened]; rfl) (by rw [opened]; rfl) (by rw [opened]; exact rest)
  rw [opened] at begun reading
  -- what is read inside of the element leaves everything but its children alone
  let entry : OpenElement := ⟨e, s.cursor, c, .data, nodes.reverse ++ [], s.flags⟩
  let full : State := { s with cursor := d, stack := entry :: s.stack }
  have reading : Steps .preserving source n _ full := reading
  have own : full.cursor.rest = '<' :: '/' :: (entry.element.tag ++ '>' :: tail) := by
    rw [same]
    exact rest'
  have ends : full.atEnd = true := by
    refine atEnd_of_mem rfl (e := entry) List.mem_cons_self ?_
    rw [own]
    simp [Tag.startsEndTag, Text.sameIgnoringCase, Tag.isBreak]
  have named : Draft.isName entry.element.tag = true := by
    rw [same]
    exact named
  obtain ⟨f, loc, closed, rest''⟩ := closeElement_plain source s.stack own named
  have kept : finishedChildren .preserving source full.flags.pre entry = nodes := by
    rw [show full.flags.pre = false from congrArg Flags.pre h.flags]
    change Siblings.settle .preserving source false _ (nodes.reverse ++ []).reverse = nodes
    rw [List.append_nil, List.reverse_reverse]
    exact Siblings.settle_of_draft _ tells inner
  rw [kept] at closed
  let node : Node := .element { e with loc := loc } nodes
  have finished : full.step .preserving source = s.goOn f (node :: s.siblings) := by
    have kind : node.kind ≠ .text := by simp [node, Node.kind]
    rw [step_eq_closeElement _ _ ends rfl, closed, ← push_of_ne kind]
    exact add_eq_goOn s f node
  have steps := (begun.trans reading).snoc (not_isDone_of_top (s := full) rfl)
  rw [finished] at steps
  have draft : node.draft? = some (.element tag attributes children) := by
    simp only [node, Node.draft?, plain, html, props, tells, same]
    rfl
  refine ⟨_, f, [node], steps, rest'', ?_⟩
  rw [Node.listDraft?, draft]
  rfl

mutual
/-- A well-formed draft is read back. -/
theorem Ready.tells_draft {s : State} (h : s.Ready) {d : Draft} {tail : List Char}
    (text : s.cursor.rest = d.print ++ tail) (wellFormed : d.wellFormed = true)
    (depth : s.stack.length + d.depth ≤ 512)
    (apart : d.isText = true → Draft.Stops tail ∧ s.siblings.head?.map Node.kind ≠ some .text) :
    s.Tells source tail [d] := by
  match d with
  | .text content => exact h.tells_text text wellFormed (apart rfl).1 (apart rfl).2
  | .comment content => exact h.tells_comment text wellFormed
  | .interpolation expression => exact h.tells_interpolation text wellFormed
  | .element tag attributes children =>
      rw [Draft.depth] at depth
      refine h.tells_element text wellFormed (by omega) fun t ready deeper none rest => ?_
      rw [Draft.wellFormed, Bool.and_eq_true] at wellFormed
      refine ready.tells_drafts rest wellFormed.2 (by omega) (.mark _) fun _ => ?_
      rw [none]
      nofun

/-- Well-formed drafts next to each other are read back. -/
theorem Ready.tells_drafts {s : State} (h : s.Ready) {ds : List Draft} {tail : List Char}
    (text : s.cursor.rest = Draft.printAll ds ++ tail)
    (wellFormed : Draft.listWellFormed ds = true)
    (depth : s.stack.length + Draft.listDepth ds ≤ 512) (stops : Draft.Stops tail)
    (apart : ds.head?.any Draft.isText = true → s.siblings.head?.map Node.kind ≠ some .text) :
    s.Tells source tail ds := by
  match ds with
  | [] => exact .nil text
  | d :: ds =>
      rw [Draft.listDepth] at depth
      rw [Draft.listWellFormed] at wellFormed
      simp only [Bool.and_eq_true] at wellFormed
      obtain ⟨⟨first, between⟩, others⟩ := wellFormed
      rw [Draft.printAll, List.append_assoc] at text
      have read : s.Tells source (Draft.printAll ds ++ tail) [d] := by
        refine h.tells_draft text first (by omega) fun isText => ⟨?_, apart isText⟩
        rw [isText, Bool.true_and] at between
        exact stops.printAll (by simpa using between)
      rw [← List.singleton_append]
      refine read.append fun c nodes rest tells => ?_
      refine (h.goOn c _).tells_drafts (by rw [cursor_goOn, rest]) others
        (by rw [length_stack_goOn]; omega) stops fun next => ?_
      -- the sibling that was added last tells `d`, which is no text before another one
      obtain ⟨node, rfl, here⟩ := Node.exists_of_listDraft?_singleton tells
      have other := Node.isText_of_draft? here
      rw [next, Bool.and_true] at between
      rw [siblings_goOn]
      intro same
      have kind : node.kind = .text := Option.some.inj same
      rw [kind] at other
      rw [other] at between
      cases between
end

end State

/-- The drafts of a well-formed forest, printed and read with white space kept, come back as they
    were: nothing is reported, and names, values, contents and children are the same in the same
    order. -/
theorem parse_printAll {ds : List Draft} (wellFormed : Draft.listWellFormed ds = true)
    (depth : Draft.listDepth ds ≤ 512) :
    (parse .preserving (Draft.printAll ds)).errors = [] ∧
      (parse .preserving (Draft.printAll ds)).warnings = [] ∧
      Node.listDraft? (parse .preserving (Draft.printAll ds)).root.children = some ds := by
  have ready : (State.initial (Draft.printAll ds)).Ready := ⟨rfl, rfl⟩
  have tells : (State.initial (Draft.printAll ds)).Tells (Draft.printAll ds) [] ds := by
    refine ready.tells_drafts (List.append_nil _).symm wellFormed ?_ (.inl rfl) fun _ => nofun
    change 0 + Draft.listDepth ds ≤ 512
    omega
  obtain ⟨n, c, nodes, steps, rest, tells⟩ := tells
  have done : ((State.initial (Draft.printAll ds)).goOn c (nodes.reverse ++ [])).isDone = true := by
    change c.rest.isEmpty || false
    rw [rest]
    rfl
  have result : (State.initial (Draft.printAll ds)).run .preserving (Draft.printAll ds) =
      (State.initial (Draft.printAll ds)).goOn c (nodes.reverse ++ []) := by
    rw [steps.run_eq]
    exact State.run_of_isDone done
  rw [parse, result]
  refine ⟨rfl, rfl, ?_⟩
  change Node.listDraft? (Siblings.settle .preserving _ false false (nodes.reverse ++ []).reverse) = _
  rw [List.append_nil, List.reverse_reverse, Siblings.settle_of_draft false tells wellFormed]
  exact tells

theorem parse_printAll_greeting :
    let greeting : List Draft :=
      [.element "p".toList [("title".toList, "a < b".toList)]
        [.text "Hello ".toList, .interpolation "name".toList, .comment "x".toList,
          .element "b".toList [] []], .text " bye".toList]
    Draft.listWellFormed greeting = true ∧
      (parse .preserving (Draft.printAll greeting)).errors = [] ∧
      (parse .preserving (Draft.printAll greeting)).warnings = [] ∧
      Node.listDraft? (parse .preserving (Draft.printAll greeting)).root.children =
        some greeting := by
  intro greeting
  have wellFormed : Draft.listWellFormed greeting = true := by decide +kernel
  have depth : Draft.listDepth greeting ≤ 512 := by decide +kernel
  exact ⟨wellFormed, parse_printAll wellFormed depth⟩

end Stencil
