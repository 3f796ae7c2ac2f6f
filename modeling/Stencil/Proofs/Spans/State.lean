import Stencil.Proofs.Run
import Stencil.Proofs.Spans.Siblings

/-! # Spans of a reading

In every state of a reading the finished nodes follow one another from the start of the template
to the cursor: outside of all elements up to the outermost open element, then inside of it up to
the next one, and so on. Steps keep this, so the finished tree has its nodes in place and all of
its locations are faithful to the template.
-/

namespace Stencil

/-- The start tag of an open element stands where the element says, and its children so far follow
    one another from there to `c`. -/
structure OpenElement.Spans (c : Cursor) (e : OpenElement) : Prop where
  tag : e.start.Reaches e.body
  loc : e.element.loc = e.start.locationTo e.body
  props : Chain (Property.Spans e.start e.body) e.start e.body e.element.props
  children : Node.ListSpans e.body c e.children.reverse

namespace State

/-- The nodes outside of all elements, and then those inside each open element, from `a` to `c`. -/
def StackSpans (roots : List Node) (a : Cursor) : List OpenElement → Cursor → Prop
  | [], c => Node.ListSpans a c roots.reverse
  | e :: stack, c => e.Spans c ∧ StackSpans roots a stack e.start

/-- The nodes of a reading of `source` are in place up to `m`, which the cursor may have left
    behind, and so is all that was reported. -/
structure PlacedTo (source : List Char) (m : Cursor) (s : State) : Prop where
  behind : m.Reaches s.cursor
  nodes : StackSpans s.roots (.ofText source) s.stack m
  reports : (Log.mk s.errors s.warnings).From (.ofText source)

/-- The nodes of a reading of `source` are in place up to the cursor. -/
def Placed (source : List Char) (s : State) : Prop :=
  PlacedTo source s.cursor s

variable {o : Options} {source : List Char} {s : State} {a c d m : Cursor} {roots : List Node}
  {stack : List OpenElement} {node : Node} {nodes : List Node}

theorem StackSpans.widen (h : StackSpans roots a stack c) (right : c.Reaches d) :
    StackSpans roots a stack d := by
  cases stack with
  | nil => exact Node.ListSpans.widen h (.refl _) right
  | cons e stack =>
      exact ⟨{ h.1 with children := h.1.children.widen (.refl _) right }, h.2⟩

theorem StackSpans.reaches (h : StackSpans roots a stack c) : a.Reaches c := by
  induction stack generalizing c with
  | nil => exact Node.ListSpans.reaches h
  | cons e stack ih => exact ((ih h.2).trans h.1.tag).trans h.1.children.reaches

namespace PlacedTo

theorem inside (h : PlacedTo source m s) : (Cursor.ofText source).Reaches s.cursor :=
  h.nodes.reaches.trans h.behind

/-- What was passed over without making a node of it stays out of the tree. -/
theorem catchUp (h : PlacedTo source m s) : Placed source s where
  behind := .refl _
  nodes := h.nodes.widen h.behind
  reports := h.reports

theorem report {log : Log} (h : PlacedTo source m s) (new : log.From (.ofText source)) :
    PlacedTo source m (s.report log) where
  behind := h.behind
  nodes := h.nodes
  reports :=
    { errors := by
        intro e he
        rcases List.mem_append.mp he with he | he
        · exact new.errors e (List.mem_reverse.mp he)
        · exact h.reports.errors e he
      warnings := by
        intro w hw
        rcases List.mem_append.mp hw with hw | hw
        · exact new.warnings w (List.mem_reverse.mp hw)
        · exact h.reports.warnings w hw }

theorem reportAt (h : PlacedTo source m s) (code : ErrorCode) {c : Cursor}
    (reached : s.cursor.Reaches c) : PlacedTo source m (s.reportAt code c.position) :=
  h.report (.error code (h.inside.trans reached))

theorem move (h : PlacedTo source m s) (forward : s.cursor.Reaches c) :
    PlacedTo source m { s with cursor := c } where
  behind := h.behind.trans forward
  nodes := h.nodes
  reports := h.reports

theorem after {α : Type} {r : Reading α} (h : PlacedTo source m s)
    (forward : s.cursor.Reaches r.cursor) (log : r.log.From s.cursor) :
    PlacedTo source m (s.after r) :=
  (h.move forward).report (log.widen h.inside)

theorem add {n : Cursor} (h : PlacedTo source m s) (k : node.Spans m n)
    (ahead : n.Reaches s.cursor) : PlacedTo source n (s.add node) := by
  have nodes := h.nodes
  unfold State.add
  split
  · next empty =>
    rw [empty] at nodes
    exact ⟨ahead, by rw [empty]; exact Siblings.push_spans nodes k, h.reports⟩
  · next e stack top =>
    rw [top] at nodes
    refine ⟨ahead, ⟨?_, nodes.2⟩, h.reports⟩
    exact { nodes.1 with children := Siblings.push_spans nodes.1.children k }

theorem addAll {n : Cursor} (h : PlacedTo source m s) (k : Node.ListSpans m n nodes)
    (ahead : n.Reaches s.cursor) : PlacedTo source n (s.addAll nodes) := by
  induction nodes generalizing m s with
  | nil =>
      rw [Node.ListSpans] at k
      exact ⟨ahead, h.nodes.widen k, h.reports⟩
  | cons node nodes ih =>
      rw [Node.ListSpans] at k
      obtain ⟨l, first, rest⟩ := k
      apply ih (h.add first (rest.reaches.trans ahead)) rest
      rw [cursor_add]
      exact ahead

/-- A finished element takes its place, or its children do. -/
theorem addElement {e : Element} (h : PlacedTo source m s)
    (k : (Node.element e nodes).Spans m s.cursor) : Placed source (s.addElement o e nodes) := by
  rw [Placed, cursor_addElement]
  unfold State.addElement
  split
  · have loc := k.loc
    rw [Node.Spans] at k
    obtain ⟨c, d, first, _, last, _, _, children⟩ := k
    have warned : (Log.ofWarnings (Legacy.warn o.legacy .nativeTemplate e.loc none)).From m :=
      .ofWarnings_loc loc fun _ => Legacy.loc_of_mem_warn
    exact (h.report (warned.widen h.nodes.reaches)).addAll (children.widen first last) (.refl _)
  · exact h.add k (.refl _)

end PlacedTo

/-! ## Steps -/

theorem readText_placed (h : Placed source s) : Placed source (s.readText o) := by
  have read := TextNode.read_sound o s.mode s.cursor
  rw [Placed, readText, cursor_add, cursor_after]
  exact (h.after read.reaches read.log).add read.value (.refl _)

theorem addComment_placed {r : Reading Comment} (h : Placed source s)
    (read : r.Sound (fun a b x => (Node.comment x).Spans a b) s.cursor) :
    Placed source (s.addComment r) := by
  rw [Placed, addComment, cursor_add, cursor_after]
  exact (h.after read.reaches read.log).add read.value (.refl _)

theorem readSection_placed (h : Placed source s) : Placed source (s.readSection o source) := by
  have read := TextNode.readSection_sound s.cursor
  rw [Placed, readSection, cursor_addAll, cursor_after]
  exact (h.after read.reaches read.log).addAll
    (Siblings.settle_spans o _ _ h.inside read.value) (.refl _)

theorem notice_from {log : Log} (h : Notice c log) : log.From c := by
  cases h with
  | none => exact .empty c
  | error code n _ => exact .error code (c.reaches_skip n)

end State

/-! ## Elements -/

namespace Element

theorem loc_of_mem_castBy (config : Option Legacy.Config) {p : Property} {w : Legacy.Warning}
    (h : w ∈ (castBy config p).2) : w.loc = some p.loc := by
  unfold castBy at h
  split at h
  · split at h
    · split at h
      · split at h
        · cases h
        · exact Legacy.loc_of_mem_check h
      · cases h
    · cases h
  · split at h
    · cases h
    · split at h
      · exact Legacy.loc_of_mem_check h
      · cases h

theorem loc_of_mem_cast (config : Option Legacy.Config) {props : List Property}
    {w : Legacy.Warning} (h : w ∈ (cast config props).2) : ∃ p ∈ props, w.loc = some p.loc := by
  induction props with
  | nil => cases h
  | cons p ps ih =>
      rw [cast] at h
      split at h
      · next warnings decided =>
        refine ⟨p, List.mem_cons_self, loc_of_mem_castBy config ?_⟩
        rw [decided]
        exact h
      · obtain ⟨q, hq, about⟩ := ih h
        exact ⟨q, List.mem_cons_of_mem p hq, about⟩

theorem loc_of_mem_classify {o : Options} {vPre : Bool} {tag : List Char} {props : List Property}
    {w : Legacy.Warning} (h : w ∈ (classify o vPre tag props).2) :
    ∃ p ∈ props, w.loc = some p.loc := by
  unfold classify at h
  split at h
  · cases h
  · split at h
    · cases h
    · split at h
      · cases h
      · split at h
        · cases h
        · split at h
          · cases h
          · split at h
            · next warnings decided =>
              exact loc_of_mem_cast o.legacy (by rw [decided]; exact h)
            · next warnings decided =>
              exact loc_of_mem_cast o.legacy (by rw [decided]; exact h)

/-- The warnings about a start tag are about the tag or one of its properties. -/
theorem ofTag_warnings_from {o : Options} {vPre : Bool} {parent : Option Element} {tag : Tag}
    {lo hi a b : Cursor} (reached : a.Reaches b)
    (props : Chain (Property.Spans lo hi) a b tag.props) :
    (Log.ofWarnings (ofTag o vPre parent tag (a.locationTo b)).2).From a := by
  refine .ofWarnings fun w hw l hl => ⟨b, ?_⟩
  rcases List.mem_append.mp hw with hw | hw
  · rw [precedenceWarnings, List.mem_ite_nil_right] at hw
    rw [Legacy.loc_of_mem_check hw.2] at hl
    cases hl
    exact .of_reaches (.refl a) reached (.refl b)
  · obtain ⟨p, hp, about⟩ := loc_of_mem_classify hw
    obtain ⟨c, d, left, right, placed⟩ := props.exists_of_mem hp Property.Spans.reaches
    rw [about] at hl
    cases hl
    exact placed.loc.widen left right

theorem mem_of_attribute? {e : Element} {name : List Char} {x : Attribute}
    (h : e.attribute? name = some x) : .attribute x ∈ e.props := by
  obtain ⟨p, hp, found⟩ := List.exists_of_findSome?_eq_some h
  split at found
  · split at found
    · cases found
      exact hp
    · cases found
  · cases found

end Element

namespace State

variable {o : Options} {source : List Char} {s : State} {lo hi lo' hi' a b c d m : Cursor}

theorem Opening.placed {t : State} (k : Opening o s t) (h : Placed source s) : Placed source t := by
  have read := Tag.read_sound o .opening s.flags.vPre s.cursor (s.startTag o).cursor s.cursor
  have told : PlacedTo source s.cursor (s.afterStartTag o) :=
    (h.after read.reaches read.log).report
      ((Element.ofTag_warnings_from read.reaches read.value).widen h.inside)
  have place : (Node.element (s.started o).1 []).Spans s.cursor (s.startTag o).cursor := by
    rw [Node.Spans]
    exact .of_reaches read.reaches ⟨read.value, read.reaches⟩
  cases k with
  | empty => exact told.addElement place
  | tooDeep =>
      have noted := told.report (.error .nestingTooDeep h.inside)
      exact noted.addElement place
  | opened =>
      refine ⟨.refl _, ⟨⟨read.reaches, rfl, read.value, .refl _⟩, h.nodes⟩, told.reports⟩

/-- The attribute `inline-template` may get its value from elsewhere in the element. -/
theorem fillInlineTemplate_spans {value : TextNode} {props : List Property}
    (inside : value.loc.Spans lo hi) (h : Chain (Property.Spans lo hi) a b props) :
    Chain (Property.Spans lo hi) a b (fillInlineTemplate value props) := by
  induction props generalizing a with
  | nil => exact h
  | cons p props ih =>
      obtain ⟨m, first, rest⟩ := h
      match p, first with
      | .attribute x, first =>
          rw [fillInlineTemplate]
          split
          · next named =>
            refine ⟨m, ?_, rest⟩
            refine Location.Encloses.imp first fun c d _ _ parts => ⟨parts.1, fun v hv => ?_⟩
            cases hv
            exact .inr ⟨by simpa using named, inside⟩
          · exact ⟨m, first, ih rest⟩
      | .directive x, first => exact ⟨m, first, ih rest⟩

theorem withInlineTemplate_spans {e : Element} {content : Location}
    (inside : content.Spans lo hi) (h : Chain (Property.Spans lo hi) a b e.props) :
    Chain (Property.Spans lo hi) a b (withInlineTemplate o e content).1.props ∧
      (Log.ofWarnings (withInlineTemplate o e content).2).From a := by
  unfold withInlineTemplate
  split
  · next x found =>
    split
    · obtain ⟨c, d, left, right, placed⟩ :=
        h.exists_of_mem (Element.mem_of_attribute? found) Property.Spans.reaches
      exact ⟨fillInlineTemplate_spans inside h,
        .ofWarnings_loc (placed.loc.widen left right) fun _ => Legacy.loc_of_mem_warn⟩
    · exact ⟨h, .empty a⟩
  · exact ⟨h, .empty a⟩

theorem withInlineTemplate_loc (o : Options) (e : Element) (content : Location) :
    (withInlineTemplate o e content).1.loc = e.loc := by
  unfold withInlineTemplate
  split
  · split <;> rfl
  · rfl

theorem readEndTag_placed {e : Element} {children : List Node} (h : PlacedTo source m s)
    (start : (Cursor.ofText source).Reaches c) (loc : e.loc.start = c.position) :
    PlacedTo source m (s.readEndTag o e children) := by
  unfold readEndTag
  split
  · have read := Tag.read_sound o .closing s.flags.vPre s.cursor s.cursor s.cursor
    exact h.after read.reaches read.log
  · have noted : PlacedTo source m (s.reportAt .missingEndTag e.loc.start) := by
      rw [loc]
      exact h.report (.error _ start)
    dsimp only
    split
    · exact noted.reportAt _ (.refl _)
    · exact noted

theorem finishedChildren_spans (inPre : Bool) {e : OpenElement} (h : e.Spans c)
    (inside : (Cursor.ofText source).Reaches e.body) :
    Node.ListSpans e.body c (finishedChildren o source inPre e) := by
  unfold finishedChildren
  split
  · exact h.children
  · exact h.children
  all_goals exact Siblings.settle_spans o _ _ inside h.children

theorem closeElement_placed {e : OpenElement} {stack : List OpenElement} (h : Placed source s)
    (top : s.stack = e :: stack) : Placed source (s.closeElement o source e stack) := by
  have nodes := h.nodes
  rw [top] at nodes
  obtain ⟨here, below⟩ := nodes
  have content := here.children.reaches
  have across := here.tag.trans content
  have parts : Chain (Property.Spans e.start s.cursor) e.start e.body (s.filled o e).1.props ∧
      (Log.ofWarnings (s.filled o e).2).From e.start :=
    withInlineTemplate_spans (.of_reaches here.tag content (.refl _))
      (here.props.imp fun placed => placed.widen_element (.refl _) content)
  have popped : PlacedTo source e.start { s with stack := stack } :=
    ⟨across, below, h.reports⟩
  have start : (s.filled o e).1.loc.start = e.start.position := by
    rw [filled, withInlineTemplate_loc, here.loc]
    rfl
  have ended : PlacedTo source e.start (s.afterEndTag o source e stack) :=
    readEndTag_placed (popped.report (parts.2.widen below.reaches)) below.reaches start
  have last := s.reaches_afterEndTag o source e stack
  rw [closeElement_eq]
  refine PlacedTo.addElement (m := e.start) ⟨ended.behind, ended.nodes, ended.reports⟩ ?_
  rw [Node.Spans]
  refine .of_reaches (across.trans last) ⟨?_, ?_⟩
  · exact (parts.1.imp fun placed => placed.widen_element (.refl _) last).widen_right
      (content.trans last)
  · exact (finishedChildren_spans _ here (below.reaches.trans here.tag)).widen here.tag last

theorem Step.placed {t : State} (k : Step o source s t) (h : Placed source s) :
    Placed source t := by
  cases k with
  | close _ top => exact closeElement_placed h top
  | text _ notice => exact readText_placed (h.report ((notice_from notice).widen h.inside))
  | interpolation _ _ read =>
      have read := Interpolation.read?_sound read
      rw [Placed, cursor_add, cursor_after]
      exact (h.after read.reaches read.log).add read.value (.refl _)
  | comment _ _ notice read =>
      refine addComment_placed (h.report ((notice_from notice).widen h.inside)) ?_
      rcases Comment.eq_of_at? read with rfl | rfl
      · exact Comment.read_sound s.cursor
      · exact Comment.readBogus_sound s.cursor
  | cdata => exact readSection_placed h
  | namelessEndTag =>
      exact ((h.reportAt _ (s.cursor.reaches_skip 2)).move (s.cursor.reaches_skip 3)).catchUp
  | strayEndTag =>
      have read := Tag.read_sound o .closing s.flags.vPre s.cursor s.cursor s.cursor
      exact ((h.reportAt _ (.refl _)).after read.reaches read.log).catchUp
  | startTag => exact (openElement_cases o s).placed h

/-- In every state of a reading the nodes are in place up to the cursor. -/
theorem Reachable.placed (h : Reachable o source s) : Placed source s := by
  induction h with
  | initial => exact ⟨.refl _, .refl _, .empty _⟩
  | step _ goes ih => exact (step_cases goes).placed ih

/-- The finished nodes follow one another from the start of the template to its end. -/
theorem result_spans (h : Placed source s) (done : s.isDone = true) :
    Node.ListSpans (.ofText source) s.cursor (s.result o source).root.children := by
  have nodes := h.nodes
  rw [(rest_of_isDone done).1] at nodes
  exact Siblings.settle_spans o _ _ (.refl _) nodes

end State

/-- Every location that reading a template produces is faithful to the template; the root is the
    whole template, and every error is about a single point of it. -/
theorem parse_locations_faithful (o : Options) (source : List Char) :
    (∀ l ∈ (parse o source).locations, l.Faithful source) ∧
      (parse o source).root.loc.source = source ∧
      ∀ e ∈ (parse o source).errors, ∃ p, e.loc = some (.point p) := by
  obtain ⟨s, reachable, done, result⟩ := State.exists_reachable_result o source
  have placed := reachable.placed
  rw [result]
  refine ⟨?_, ?_, ?_⟩
  · intro l member
    simp only [Template.locations, List.mem_append, List.mem_cons, List.mem_filterMap] at member
    rcases member with ((rfl | node) | ⟨e, he, place⟩) | ⟨w, hw, place⟩
    · exact Cursor.locationTo_faithful (.refl _) placed.inside
    · exact (State.result_spans placed done).faithful (.refl _) l node
    · obtain ⟨c, reached, point⟩ := placed.reports.errors e (List.mem_reverse.mp he)
      rw [point] at place
      cases place
      exact (Location.Spans.point reached (.refl c)).faithful (.refl _)
    · obtain ⟨b, spans⟩ := placed.reports.warnings w (List.mem_reverse.mp hw) l place
      exact spans.faithful (.refl _)
  · have whole := placed.inside.rest_eq
    rw [(State.rest_of_isDone done).2, List.append_nil] at whole
    exact whole.symm
  · intro e he
    obtain ⟨c, _, point⟩ := placed.reports.errors e (List.mem_reverse.mp he)
    exact ⟨c.position, point⟩

end Stencil
