import Stencil.Proofs.Excerpt.Leaf
import Stencil.Proofs.Origin

/-! # Content without markup

Inside an element that holds no markup every step reads one piece: text up to the next mark that
could start something, or an interpolation where there are any. A piece starts with such a mark at
most, so no piece goes past the end tag of the element. What is read up to there is all in the
children, as they stand in the template.
-/

namespace Stencil

/-- The place in `s` where an element of the name `tag` ends if it holds raw text: the first end tag
    of that name, or the end of `s` if there is none. -/
structure Tag.EndsRawText (tag s : List Char) (k : Nat) : Prop where
  inside : k ≤ s.length
  first : ∀ j < k, startsEndTag tag (s.drop j) = false
  ends : k < s.length → startsEndTag tag (s.drop k) = true

theorem Tag.EndsRawText.unique {tag s : List Char} {k l : Nat} (h : EndsRawText tag s k)
    (h' : EndsRawText tag s l) : k = l := by
  have before := h.inside
  have before' := h'.inside
  rcases Nat.lt_trichotomy k l with less | same | more
  · have ends := h.ends (by omega)
    simp [h'.first k less] at ends
  · exact same
  · have ends := h'.ends (by omega)
    simp [h.first l more] at ends

theorem Tag.not_startsEndTag_of_head {tag s : List Char} (h : s.head? ≠ some '<') :
    startsEndTag tag s = false := by
  unfold startsEndTag
  split
  · simp at h
  · rfl

theorem TextNode.value_read_rawText (o : Options) (c : Cursor) :
    (read o .rawText c).value =
      let n := lengthAt o .rawText c.rest
      ⟨c.rest.take n, c.position, (c.skip n).position, c.rest.take n⟩ := by
  simp only [read, Cursor.locationTo, Cursor.textTo_skip, Options.decode]

namespace Siblings

/-- The `k` characters behind `c` as they stand there: one text, or nothing if there are none. -/
def verbatim (c : Cursor) (k : Nat) : List Node :=
  if k = 0 then []
  else [.text ⟨c.rest.take k, ⟨c.position, (c.skip k).position, c.rest.take k⟩⟩]

/-- What the template has in the places of some siblings, one behind the other. -/
def sources (nodes : List Node) : List Char :=
  nodes.flatMap (·.loc.source)

variable {o : Options} {c : Cursor} {node : Node} {nodes : List Node}

/-- The next piece of raw text extends the text before it. -/
theorem push_verbatim (n : Nat) (more : (c.skip n).rest ≠ []) :
    push (.text (TextNode.read o .rawText (c.skip n)).value) (verbatim c n) =
      verbatim c (n + TextNode.lengthAt o .rawText (c.skip n).rest) := by
  have pos := TextNode.lengthAt_pos o .rawText more
  simp only [TextNode.value_read_rawText, Cursor.skip_skip]
  generalize TextNode.lengthAt o .rawText (c.skip n).rest = m at pos
  cases n with
  | zero =>
      have some : m ≠ 0 := by omega
      simp [verbatim, push, some, Cursor.skip]
  | succ n => simp [verbatim, push, List.take_add]

theorem sources_push :
    sources (push node nodes).reverse = sources nodes.reverse ++ node.loc.source := by
  unfold push
  split
  · split <;> simp [sources, Node.loc]
  · simp [sources]

end Siblings

namespace State

variable {o : Options} {source : List Char} {s v : State} {e : OpenElement}

/-- What one step reads of content without markup, from `c` on, and where it stops. -/
inductive Piece (o : Options) (mode : TextMode) (c : Cursor) : Node → Cursor → Prop where
  | text : Piece o mode c (.text (TextNode.read o mode c).value) (TextNode.read o mode c).cursor
  | interpolation {r : Reading Interpolation} (mixed : mode = .rcData)
      (read : Interpolation.read? o mode c = some r) :
      Piece o mode c (.interpolation r.value) r.cursor

theorem readText_piece (o : Options) (s : State) :
    ∃ node, Piece o s.mode s.cursor node (s.readText o).cursor ∧
      (s.readText o).stack = receive [node] s.stack := by
  refine ⟨.text (TextNode.read o s.mode s.cursor).value, ?_, ?_⟩
  · simp only [readText, cursor_add, cursor_after]
    exact .text
  · simp only [readText, stack_add, stack_after]

/-- Where no markup is read, a step that closes nothing reads one piece. -/
theorem step_piece (o : Options) (source : List Char) (goes : s.atEnd = false)
    (plain : s.mode = .rawText ∨ s.mode = .rcData) :
    ∃ node, Piece o s.mode s.cursor node (s.step o source).cursor ∧
      (s.step o source).stack = receive [node] s.stack := by
  have text := readText_piece o s
  rw [step_eq_readNode o source goes]
  rcases plain with raw | mixed
  · simpa only [readNode, raw] using text
  · simp only [readNode, mixed] at text ⊢
    split
    · unfold readInterpolation
      split
      · next r read =>
        refine ⟨.interpolation r.value, ?_, ?_⟩
        · simp only [cursor_add, cursor_after]
          exact .interpolation rfl (mixed ▸ read)
        · simp only [stack_add, stack_after]
      · have late := readText_piece o (s.reportAt .missingInterpolationEnd s.cursor.position)
        rw [← mixed]
        exact late
    · exact text

theorem atEnd_of_plain {stack : List OpenElement} (top : s.stack = e :: stack)
    (plain : e.mode = .rawText ∨ e.mode = .rcData) :
    s.atEnd = (s.cursor.atEnd || Tag.startsEndTag e.element.tag s.cursor.rest) := by
  rcases plain with raw | mixed
  · simp [atEnd, mode, parent, top, raw]
  · simp [atEnd, mode, parent, top, mixed]

/-! ## The element that a start tag opens -/

/-- The element whose start tag is read in `s` is still open in `t` and the innermost one; `e` is
    its entry. -/
structure Innermost (o : Options) (source : List Char) (s t : State) (e : OpenElement) : Prop where
  inside : StaysInside o source s.stack.length (s.step o source) t
  top : t.stack = e :: s.stack
  entry : e.bare = s.opened o

/-- The element whose start tag is read in `s` is closed in `t`, with these children. -/
structure ClosedIn (o : Options) (source : List Char) (s t : State) (children : List Node) :
    Prop where
  ends : t.atEnd = true
  closes : ∃ e, Innermost o source s t e ∧
    t.step o source = { t.afterEndTag o source e s.stack with flags := s.flags }.addElement o
      (t.closed o source e s.stack) children

theorem Opens.innermost (h : s.Opens o) (source : List Char) (content : s.startsEmpty o = false)
    (room : s.stack.length < o.maxDepth) :
    Innermost o source s (s.step o source) (s.opened o) ∧
      (s.step o source).cursor = (s.opened o).body := by
  have opened : s.step o source = { s.afterStartTag o with
      stack := s.opened o :: s.stack
      flags := s.flagsInside o } := by
    simp [h.step_eq, openElement_eq, content, Nat.not_le_of_lt room]
  refine ⟨⟨.refl, ?_, rfl⟩, ?_⟩
  · rw [opened]
  · rw [opened]
    rfl

namespace Innermost

variable (h : Innermost o source s v e)

include h

theorem mode_eq : e.mode = (s.opened o).mode := by
  rw [← h.entry]
  rfl

theorem element_eq : e.element = (s.opened o).element := by
  rw [← h.entry]
  rfl

theorem receive {nodes : List Node}
    (stack : (v.step o source).stack = State.receive nodes v.stack) :
    Innermost o source s (v.step o source) (e.receive nodes) where
  inside := h.inside.step (by simp [h.top])
  top := by rw [stack, h.top]; rfl
  entry := h.entry

/-- What every step keeps that does not end the element holds where the element ends. -/
theorem exists_end {P : Cursor → List Node → Prop}
    (keeps : ∀ v e, Innermost o source s v e → v.atEnd = false → P v.cursor e.children →
      ∃ nodes, (v.step o source).stack = State.receive nodes v.stack ∧
        P (v.step o source).cursor (e.receive nodes).children)
    (holds : P v.cursor e.children) :
    ∃ t e, Innermost o source s t e ∧ t.atEnd = true ∧ P t.cursor e.children := by
  induction size : v.size using Nat.strongRecOn generalizing v e with
  | _ n ih =>
      cases ends : v.atEnd with
      | true => exact ⟨v, e, h, ends, holds⟩
      | false =>
          have deep : s.stack.length < v.stack.length := by simp [h.top]
          have smaller := size_step_lt o source (not_isDone_of_length deep)
          obtain ⟨nodes, stack, next⟩ := keeps v e h ends holds
          exact ih _ (size ▸ smaller) (h.receive stack) next rfl

/-- An element without markup keeps its children as they were read. -/
theorem closedIn (ends : v.atEnd = true) (plain : e.mode = .rawText ∨ e.mode = .rcData) :
    ClosedIn o source s v e.children.reverse := by
  have children : finishedChildren o source v.flags.pre e = e.children.reverse := by
    rcases plain with raw | mixed
    · simp [finishedChildren, raw]
    · simp [finishedChildren, mixed]
  have outer : e.outer = s.flags := congrArg OpenElement.outer h.entry
  refine ⟨ends, e, h, ?_⟩
  rw [step_eq_closeElement o source ends h.top]
  simp only [closeElement_eq, children, outer]

end Innermost

/-! ## Raw text -/

/-- All of the raw text of an element was read up to `c`, and `c` is not past its end. -/
def RawTextTo (tag : List Char) (body c : Cursor) (nodes : List Node) : Prop :=
  ∃ n, n ≤ body.rest.length ∧ c = body.skip n ∧ nodes = Siblings.verbatim body n ∧
    ∀ j < n, Tag.startsEndTag tag (body.rest.drop j) = false

theorem RawTextTo.next {tag : List Char} {body c : Cursor} {nodes : List Node}
    (h : RawTextTo tag body c nodes) (more : c.rest ≠ [])
    (goes : Tag.startsEndTag tag c.rest = false) :
    RawTextTo tag body (TextNode.read o .rawText c).cursor
      (Siblings.push (.text (TextNode.read o .rawText c).value) nodes) := by
  obtain ⟨n, inside, rfl, rfl, before⟩ := h
  have fits := TextNode.lengthAt_le o .rawText (body.skip n).rest
  rw [Cursor.length_skip] at fits
  refine ⟨n + TextNode.lengthAt o .rawText (body.skip n).rest, ?_, ?_, ?_, ?_⟩
  · omega
  · exact body.skip_skip n _
  · exact Siblings.push_verbatim n more
  · intro j hj
    rcases Nat.lt_trichotomy j n with earlier | rfl | later
    · exact before j earlier
    · exact goes
    · -- Behind the first character of a piece there is no mark that an end tag could start with.
      have inner : TextNode.endsAt o .rawText ((body.skip n).rest.drop (j - n)) = false :=
        TextNode.not_endsAt_of_lt (by omega) (by omega)
      rw [Cursor.rest_skip, List.drop_drop, Nat.add_sub_cancel' (Nat.le_of_lt later)] at inner
      exact Tag.not_startsEndTag_of_head (by simp_all [TextNode.endsAt])

theorem Innermost.rawText_step (h : Innermost o source s v e) (raw : (s.opened o).mode = .rawText)
    (goes : v.atEnd = false)
    (holds : RawTextTo (s.opened o).element.tag (s.opened o).body v.cursor e.children) :
    ∃ nodes, (v.step o source).stack = State.receive nodes v.stack ∧
      RawTextTo (s.opened o).element.tag (s.opened o).body (v.step o source).cursor
        (e.receive nodes).children := by
  have plain : e.mode = .rawText := h.mode_eq.trans raw
  have mode : v.mode = .rawText := (mode_of_top h.top).trans plain
  obtain ⟨node, piece, stack⟩ := step_piece o source goes (.inl mode)
  refine ⟨[node], stack, ?_⟩
  rw [mode] at piece
  have more := rest_ne_nil goes
  simp only [atEnd_of_plain h.top (.inl plain), h.element_eq, Bool.or_eq_false_iff] at goes
  generalize (v.step o source).cursor = d at piece
  cases piece with
  | text => exact holds.next more goes.2
  | interpolation mixed => cases mixed

/-- Raw text is read up to the first end tag of its element. -/
theorem Opens.rawText (opens : s.Opens o) (content : s.startsEmpty o = false)
    (room : s.stack.length < o.maxDepth) (raw : (s.opened o).mode = .rawText) :
    ∃ k t, Tag.EndsRawText (s.opened o).element.tag (s.opened o).body.rest k ∧
      t.cursor = (s.opened o).body.skip k ∧
      ClosedIn o source s t (Siblings.verbatim (s.opened o).body k) := by
  obtain ⟨first, start⟩ := opens.innermost source content room
  have empty : RawTextTo (s.opened o).element.tag (s.opened o).body (s.step o source).cursor
      (s.opened o).children := ⟨0, Nat.zero_le _, start, rfl, by simp⟩
  obtain ⟨t, e, inner, ends, k, inside, cursor, children, before⟩ :=
    first.exists_end (fun v e inner goes holds => inner.rawText_step raw goes holds) empty
  have plain : e.mode = .rawText := inner.mode_eq.trans raw
  have closed := inner.closedIn ends (.inl plain)
  refine ⟨k, t, ⟨inside, before, fun more => ?_⟩, cursor, ?_⟩
  · have rest : ((s.opened o).body.rest.drop k).isEmpty = false := by
      simpa using more
    simpa [atEnd_of_plain inner.top (.inl plain), inner.element_eq, cursor, Cursor.atEnd, rest]
      using ends
  · have reversed : (Siblings.verbatim (s.opened o).body k).reverse =
        Siblings.verbatim (s.opened o).body k := by
      unfold Siblings.verbatim
      split <;> rfl
    rwa [children, reversed] at closed

/-! ## Text with interpolations -/

/-- Everything between `body` and `c` is in these siblings, newest first, and they are texts and
    interpolations. -/
structure MixedTo (body c : Cursor) (nodes : List Node) : Prop where
  forward : body.Reaches c
  kinds : ∀ n ∈ nodes, n.kind = .text ∨ n.kind = .interpolation
  sources : Siblings.sources nodes.reverse = body.textTo c

theorem MixedTo.next {mode : TextMode} {body c d : Cursor} {nodes : List Node} {node : Node}
    (h : MixedTo body c nodes) (piece : Piece o mode c node d) :
    MixedTo body d (Siblings.push node nodes) := by
  have read : c.Reaches d ∧ node.loc = c.locationTo d ∧
      (node.kind = .text ∨ node.kind = .interpolation) := by
    cases piece with
    | text => exact ⟨(TextNode.read_sound o mode c).reaches, rfl, .inl rfl⟩
    | interpolation _ read =>
        exact ⟨(Interpolation.read?_sound read).reaches, Interpolation.loc_of_read? read, .inr rfl⟩
  obtain ⟨forward, place, kind⟩ := read
  refine ⟨h.forward.trans forward, ?_, ?_⟩
  · exact Siblings.forall_push (fun _ => .inl rfl) h.kinds kind
  · rw [Siblings.sources_push, h.sources, place, Cursor.textTo_append h.forward forward]
    rfl

/-- Where there is text and interpolations only, all that is read until the element is closed is in
    its children. -/
theorem Opens.rcData (opens : s.Opens o) (content : s.startsEmpty o = false)
    (room : s.stack.length < o.maxDepth) (mixed : (s.opened o).mode = .rcData) :
    ∃ k t children, t.cursor = (s.opened o).body.skip k ∧ ClosedIn o source s t children ∧
      (∀ n ∈ children, n.kind = .text ∨ n.kind = .interpolation) ∧
      Siblings.sources children = (s.opened o).body.rest.take k := by
  obtain ⟨first, start⟩ := opens.innermost source content room
  have empty : MixedTo (s.opened o).body (s.step o source).cursor (s.opened o).children := by
    rw [start]
    exact ⟨.refl _, by simp [opened], by simp [opened, Siblings.sources, Cursor.textTo_self]⟩
  have keeps : ∀ v e, Innermost o source s v e → v.atEnd = false →
      MixedTo (s.opened o).body v.cursor e.children →
      ∃ nodes, (v.step o source).stack = receive nodes v.stack ∧
        MixedTo (s.opened o).body (v.step o source).cursor (e.receive nodes).children := by
    intro v e inner goes holds
    have mode : v.mode = .rcData := (mode_of_top inner.top).trans (inner.mode_eq.trans mixed)
    obtain ⟨node, piece, stack⟩ := step_piece o source goes (.inr mode)
    exact ⟨[node], stack, holds.next piece⟩
  obtain ⟨t, e, inner, ends, all⟩ := first.exists_end keeps empty
  obtain ⟨k, cursor⟩ := all.forward.exists_skip
  have closed := inner.closedIn ends (.inr (inner.mode_eq.trans mixed))
  refine ⟨k, t, e.children.reverse, cursor, closed, ?_, ?_⟩
  · intro n hn
    exact all.kinds n (List.mem_reverse.mp hn)
  · rw [all.sources, cursor, Cursor.textTo_skip]

end State

/-- What becomes of the content of an element that holds no markup, from the end of its start tag
    on. Raw text ends at the first end tag of the element, and is the only child as it stands there.
    Otherwise the children are texts and interpolations, and what they stand for in the template is
    all that was read until the element was closed. -/
theorem openElement_content (o : Options) (source : List Char) (s : State) (opens : s.Opens o)
    (content : s.startsEmpty o = false) (room : s.stack.length < o.maxDepth) :
    let e := s.opened o
    (e.mode = .rawText → ∃ k t, Tag.EndsRawText e.element.tag e.body.rest k ∧
      t.cursor = e.body.skip k ∧ State.ClosedIn o source s t (Siblings.verbatim e.body k)) ∧
    (e.mode = .rcData → ∃ k t children, t.cursor = e.body.skip k ∧
      State.ClosedIn o source s t children ∧
      (∀ n ∈ children, n.kind = .text ∨ n.kind = .interpolation) ∧
      Siblings.sources children = e.body.rest.take k) :=
  ⟨opens.rawText content room, opens.rcData content room⟩

/-- A script with marks, another end tag, a reference and delimiters in it, and a text area. -/
theorem openElement_content_script :
    let o := { Options.base with
      textModeOf := fun e _ => if e.tag == "script".toList then .rawText else .rcData }
    let script := State.initial
      "<script>if (a < b) x = '</div>' &amp; \x7b\x7b y \x7d\x7d</scripts></SCRIPT >".toList
    let area := State.initial "<textarea>&lt;\x7b\x7b '</textarea>' \x7d\x7d</i></textarea>".toList
    (script.Opens o ∧ (script.opened o).mode = .rawText ∧ ∃ k t,
      Tag.EndsRawText "script".toList (script.opened o).body.rest k ∧ k = 47 ∧
      State.ClosedIn o script.cursor.rest script t (Siblings.verbatim (script.opened o).body k)) ∧
    area.Opens o ∧ (area.opened o).mode = .rcData ∧ ∃ k t children,
      State.ClosedIn o area.cursor.rest area t children ∧
      Siblings.sources children = (area.opened o).body.rest.take k := by
  intro o script area
  have opens : script.Opens o ∧ area.Opens o := by
    constructor <;> exact ⟨by decide +kernel, rfl, by decide +kernel, rfl, by decide +kernel⟩
  have room : 0 < o.maxDepth := by decide
  have raw : (script.opened o).mode = .rawText := by decide +kernel
  have mixed : (area.opened o).mode = .rcData := by decide +kernel
  obtain ⟨k, t, ends, _, closed⟩ :=
    (openElement_content o script.cursor.rest script opens.1 (by decide +kernel) room).1 raw
  obtain ⟨i, u, children, _, closed', _, sources⟩ :=
    (openElement_content o area.cursor.rest area opens.2 (by decide +kernel) room).2 mixed
  have name : (script.opened o).element.tag = "script".toList := by decide +kernel
  rw [name] at ends
  have first : k = 47 := by
    apply ends.unique
    exact ⟨by decide +kernel, by decide +kernel, fun _ => by decide +kernel⟩
  exact ⟨⟨opens.1, raw, k, t, ends, first, closed⟩, opens.2, mixed, i, u, children, closed',
    sources⟩

end Stencil
