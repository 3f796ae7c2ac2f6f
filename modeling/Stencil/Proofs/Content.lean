import Stencil.Proofs.Excerpt.Leaf
import Stencil.Proofs.Reference
import Stencil.Proofs.Spacing

/-! # What texts show

A text is read in pieces: it is cut at every mark that could start something else, and each piece is
decoded on its own. No reference goes on with such a mark, so the pieces together show what the
whole would. As long as no end tag was passed over, nothing but touching pieces ever becomes one
text, and all that settling does is to condense it.
-/

namespace Stencil

/-- Blanks condense to a single space. -/
theorem Text.condense_of_blank {s : List Char} (blank : isBlankOnly s = true) (some : s ≠ []) :
    condense s = [' '] := by
  have inRun : ∀ t : List Char, isBlankOnly t = true → condenseFrom true t = [] := by
    intro t blank
    induction t with
    | nil => rfl
    | cons c t ih =>
        simp only [isBlankOnly, List.all_cons, Bool.and_eq_true] at blank
        simp only [condenseFrom, blank.1, if_true, ih blank.2]
  cases s with
  | nil => exact absurd rfl some
  | cons c s =>
      simp only [isBlankOnly, List.all_cons, Bool.and_eq_true] at blank
      simp [condense, condenseFrom, blank.1, inRun s blank.2]

/-- The default options replace the basic references, wherever they replace any. -/
theorem Options.decode_base (s : List Char) : Options.base.decode .data s = Text.decodeBasic s :=
  decode_of_basic (fun _ _ => rfl) (by decide) (by decide) s

/-- Without a platform every text is read as data. -/
theorem Options.uses_base {mode : TextMode} (h : Options.base.Uses mode) : mode = .data := by
  rcases h with data | ⟨e, parent, data⟩ <;> exact data

/-- No reference goes on where a run of text ends. -/
theorem TextNode.breaksReference_of_endsAt {s : List Char}
    (h : endsAt Options.base .data s = true) :
    ∀ c ∈ s.head?, Text.breaksReference c = true := by
  intro c hc
  obtain ⟨rest, rfl⟩ := List.head?_eq_some_iff.mp hc
  have mark : c = '<' ∨ c = '\x7b' := by
    simp [endsAt, Options.base, List.isPrefixOf_cons_cons] at h
    tauto
  rcases mark with rfl | rfl <;> decide

/-- A piece of text, before anything is made of it, shows its source. -/
theorem TextNode.read_decoded {c : Cursor} (more : c.rest ≠ []) :
    (read Options.base .data c).value.content =
        Text.decodeBasic (read Options.base .data c).value.loc.source ∧
      (read Options.base .data c).value.loc.source.head? = c.rest.head? := by
  have source : (read Options.base .data c).value.loc.source =
      c.rest.take (lengthAt Options.base .data c.rest) := c.textTo_skip _
  have some : 0 < lengthAt Options.base .data c.rest := lengthAt_pos _ _ more
  rw [source]
  constructor
  · exact Options.decode_base _
  · simp only [List.head?_take, Nat.ne_of_gt some, if_false]

namespace Node

/-- A text, if it is one, is not empty and shows its source with the references replaced. -/
def Decoded : Node → Prop
  | .text t => t.loc.source ≠ [] ∧ t.content = Text.decodeBasic t.loc.source
  | .element .. | .comment _ | .interpolation _ => True

/-- A text, if it is one, shows its source with the references replaced and blanks condensed. -/
def ShowsSource : Node → Prop
  | .text t => t.content = Text.condense (Text.decodeBasic t.loc.source)
  | .element .. | .comment _ | .interpolation _ => True

variable {node : Node}

theorem decoded_of_ne (other : node.kind ≠ .text) : node.Decoded := by
  cases node with
  | text t => exact absurd rfl other
  | element | comment | interpolation => exact trivial

theorem Decoded.verbatim (h : node.Decoded) : node.Verbatim := by
  cases node with
  | element | comment | interpolation => exact trivial
  | text t =>
      intro blank
      simp only [Decoded, ← Options.decode_base] at h
      rw [h.2] at blank ⊢
      exact (Options.keepsAll_base .condense).decode_eq blank

end Node

namespace Siblings

variable {a m : Cursor} {node : Node} {nodes : List Node} {errors : List ParseError}

/-- Siblings, newest first, that go on up to the cursor and show their sources. If the last one is a
    text, it was not cut in the middle of a reference. -/
structure Decoded (c : Cursor) (nodes : List Node) : Prop extends Flush c nodes where
  each : ∀ n ∈ nodes, n.Decoded
  seam : ∀ t ∈ nodes.head?, t.kind = .text → ∀ d ∈ c.rest.head?, Text.breaksReference d = true

/-- Two texts that touch at a seam show their sources together. -/
theorem Decoded.push {t : TextNode} (h : Decoded m nodes) (told : (Node.text t).Decoded)
    (first : t.loc.source.head? = m.rest.head?) : ∀ n ∈ push (.text t) nodes, n.Decoded := by
  have added : ∀ n ∈ .text t :: nodes, n.Decoded := List.forall_mem_cons.mpr ⟨told, h.each⟩
  match nodes, h, added with
  | [], _, added => exact added
  | .element .. :: _, _, added | .comment _ :: _, _, added | .interpolation _ :: _, _, added =>
      exact added
  | .text prev :: rest, h, added =>
      obtain ⟨before, others⟩ := List.forall_mem_cons.mp h.each
      have seam := h.seam _ rfl rfl
      rw [← first] at seam
      have joined := Text.decodeBasic_append prev.loc.source seam
      simp only [Siblings.push]
      split
      · refine List.forall_mem_cons.mpr ⟨⟨?_, ?_⟩, others⟩
        · simp [before.1]
        · simp only [joined, before.2, told.2]
      · exact added

theorem decoded_gathers (clean : ∀ x ∈ errors, x.code.isPassedOver = false) :
    Gathers Options.base errors fun _ c nodes => Decoded c nodes where
  nil a := by
    refine ⟨⟨.nil, ?_⟩, ?_, ?_⟩ <;> simp
  text {a m nodes mode} uses more h := by
    cases Options.uses_base uses
    obtain ⟨content, first⟩ := TextNode.read_decoded more
    have some : (TextNode.read Options.base .data m).value.loc.source ≠ [] := by
      intro none
      rw [none] at first
      exact more (List.head?_eq_none_iff.mp first.symm)
    refine { h.toFlush.push rfl with each := h.push ⟨some, content⟩ first, seam := ?_ }
    intro t _ _
    rcases TextNode.endsAt_drop_lengthAt Options.base .data m.rest with none | ends
    · simp [TextNode.read, none]
    · exact TextNode.breaksReference_of_endsAt ends
  other {a m b nodes node} other forward place h := by
    have flush := h.toFlush.push place
    rw [State.push_of_ne other] at flush
    refine { flush with each := ?_, seam := ?_ }
    · exact List.forall_mem_cons.mpr ⟨Node.decoded_of_ne other, h.each⟩
    · intro t ht text
      cases ht
      exact absurd text other
  endTag forward passed _ _ h := by
    obtain ⟨x, reported, code, _⟩ := passed
    simp [clean x reported] at code

/-- Condensing is all that settling does to a text that is kept. -/
theorem showsSource_of_settleNode {prev next : Option NodeKind} {n : Node} (h : node.Decoded)
    (settled : settleNode Options.base false prev next node = some n) : n.ShowsSource := by
  cases node with
  | element | interpolation =>
      cases settled
      exact trivial
  | comment c =>
      simp only [settleNode] at settled
      split at settled <;> cases settled
      exact trivial
  | text t =>
      obtain ⟨u, kept, rfl⟩ := Option.map_eq_some_iff.mp settled
      have shown : Text.condense (Text.decodeBasic t.loc.source) = Text.condense t.content := by
        rw [h.2]
      rcases settleText_eq_some (o := Options.base) rfl kept with ⟨blank, rfl, _⟩ | ⟨_, rfl⟩
      · have some : t.content ≠ [] := by
          rw [h.verbatim blank]
          exact h.1
        exact (shown.trans (Text.condense_of_blank blank some)).symm
      · exact shown.symm

/-- Settled siblings show their sources with the blanks condensed. -/
theorem Decoded.showsSource {c : Cursor} (h : Decoded c nodes) (source : List Char)
    (preParent : Bool) :
    ∀ n ∈ settle Options.base source false preParent nodes.reverse, n.ShowsSource := by
  have each : ∀ n ∈ nodes.reverse, n.Decoded := by
    intro n hn
    exact h.each n (List.mem_reverse.mp hn)
  have apart : Node.Apart (settled Options.base none nodes.reverse) :=
    (settled_spaced rfl rfl (apart_reverse.mpr h.apart) fun n hn => (each n hn).verbatim).1
  simp only [settle, Bool.false_and, Bool.false_eq_true, if_false]
  change ∀ n ∈ (settled Options.base none nodes.reverse).foldr _ [], Node.ShowsSource n
  rw [foldr_consJoining_of_apart apart]
  intro n hn
  obtain ⟨x, hx, rfl⟩ := List.mem_filterMap.mp hn
  obtain ⟨prev, next, node, member, settled⟩ := exists_of_mem_settleEach hx
  exact showsSource_of_settleNode (each node member) settled

end Siblings

/-- The children of a node show their sources. -/
theorem Node.Derived.showsSource {source : List Char} {flags : Flags} {node : Node}
    (h : node.Derived Options.base source flags)
    (clean : ∀ x ∈ (parse Options.base source).errors, x.code.isPassedOver = false) :
    ∀ n ∈ node.children, n.ShowsSource := by
  refine h.forall_children (P := fun _ nodes => ∀ n ∈ nodes, n.ShowsSource) (by simp) ?_
  intro s e stack reachable top
  have decoded := reachable.gathered (Siblings.decoded_gathers clean) rfl (fun _ _ => rfl)
    reachable.errors_subset
  simp only [State.Gathered, top] at decoded
  rw [reachable.finishedChildren_base top]
  exact decoded.1.showsSource source false

/-- The content of a text is a function of its source, whatever pieces it was read in: with the
    default options every text of a finished tree is its source with the references replaced and
    blanks condensed, unless an end tag is reported to have no name or no element. -/
theorem parse_text_content (source : List Char)
    (clean : ∀ x ∈ (parse Options.base source).errors,
      x.code ≠ .invalidEndTag ∧ x.code ≠ .missingEndTagName)
    (path : List Nat) (t : TextNode)
    (found : Node.at? (parse Options.base source).root.children path = some (.text t)) :
    t.content = Text.condense (Text.decodeBasic t.loc.source) := by
  have quiet : ∀ x ∈ (parse Options.base source).errors, x.code.isPassedOver = false := by
    intro x hx
    obtain ⟨closes, named⟩ := clean x hx
    unfold ErrorCode.isPassedOver
    split <;> simp_all
  have shows : (Node.text t).ShowsSource := by
    have each := Node.forall_at? (P := fun n =>
      (∃ flags, n.Derived Options.base source flags) ∧ n.ShowsSource) ?_ ?_ found
    · exact each.2
    · rintro e children ⟨⟨flags, derived⟩, _⟩ n hn
      obtain ⟨inside, inner⟩ := derived.inner
      exact ⟨⟨inside, inner n hn⟩, derived.showsSource quiet n hn⟩
    · intro n hn
      refine ⟨⟨_, parse_derived Options.base source n hn⟩, ?_⟩
      obtain ⟨s, reachable, done, result⟩ := State.exists_reachable_result Options.base source
      have decoded := reachable.gathered (Siblings.decoded_gathers quiet) rfl (fun _ _ => rfl)
        reachable.errors_subset
      simp only [State.Gathered, (State.rest_of_isDone done).1] at decoded
      simp only [result, State.result, reachable.pre_base] at hn
      exact decoded.showsSource source false n hn
  exact shows

theorem content_of_pieces :
    let source := "<p v-pre>a &lt; < b\n &amp;lt; \x7b\x7b c \x7d\x7d\x7b\x7b\x7b </p>".toList
    ((Node.at? (parse Options.base source).root.children [0, 0]).any fun
      | .text t => t.content == "a < < b &lt; \x7b\x7b c \x7d\x7d\x7b\x7b\x7b ".toList
      | _ => false) = true := by decide +kernel

/-- A text in an element with directives off, read in five pieces: it is cut at a stray mark and at
    delimiters. -/
theorem parse_text_content_pieces :
    let source := "<p v-pre>a &lt; < b\n &amp;lt; \x7b\x7b c \x7d\x7d\x7b\x7b\x7b </p>".toList
    (∀ x ∈ (parse Options.base source).errors,
      x.code ≠ .invalidEndTag ∧ x.code ≠ .missingEndTagName) ∧
    ∃ t, Node.at? (parse Options.base source).root.children [0, 0] = some (.text t) ∧
      t.content = "a < < b &lt; \x7b\x7b c \x7d\x7d\x7b\x7b\x7b ".toList ∧
      t.content = Text.condense (Text.decodeBasic t.loc.source) := by
  intro source
  have clean : ∀ x ∈ (parse Options.base source).errors,
      x.code ≠ .invalidEndTag ∧ x.code ≠ .missingEndTagName := by decide +kernel
  obtain ⟨node, found, content⟩ := (Option.any_eq_true _ _).mp content_of_pieces
  cases node with
  | text t =>
      exact ⟨clean, t, found, beq_iff_eq.mp content, parse_text_content source clean [0, 0] t found⟩
  | element | comment | interpolation => cases content

end Stencil
