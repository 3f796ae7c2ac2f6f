import Stencil.Proofs.Origin

/-! # Containment

What lies inside of what in a finished tree, and in which order, said with offsets alone. Spans say
as much for every node, up to the value of an attribute that `inline-template` may have written;
that this is the only exception follows from where the properties of an element come from.
-/

namespace Stencil

namespace Location

/-- `l` lies inside `outer`. -/
def Inside (l outer : Location) : Prop :=
  outer.start.offset ≤ l.start.offset ∧ l.start.offset ≤ l.stop.offset ∧
    l.stop.offset ≤ outer.stop.offset

/-- `l` ends before `m` starts, or where it starts. -/
def Before (l m : Location) : Prop :=
  l.stop.offset ≤ m.start.offset

instance (l outer : Location) : Decidable (l.Inside outer) :=
  inferInstanceAs (Decidable (_ ∧ _ ∧ _))

instance (l m : Location) : Decidable (l.Before m) :=
  inferInstanceAs (Decidable (_ ≤ _))

theorem Spans.inside {a b : Cursor} {l : Location} (h : l.Spans a b) :
    l.Inside (a.locationTo b) := by
  obtain ⟨c, d, first, middle, last, rfl, _⟩ := h
  exact ⟨first.offset_le, middle.offset_le, last.offset_le⟩

end Location

/-- The value `v` of the attribute `a` of `e` was written by `inline-template`: that legacy is
    honoured, `a` is the first attribute of that name, and the value is a piece of the template. -/
def Element.IsInlineTemplate (o : Options) (e : Element) (a : Attribute) (v : TextNode) : Prop :=
  Legacy.isEnabled o.legacy .inlineTemplate = true ∧
    e.attribute? "inline-template".toList = some a ∧ v.content = v.loc.source

/-- The parts of a property of `e` lie inside of it; only a value that was written by
    `inline-template` may lie elsewhere in the element. -/
def Property.WellPlaced (o : Options) (e : Element) : Property → Prop
  | .attribute a =>
    a.nameLoc.Inside a.loc ∧
      ∀ v ∈ a.value, v.loc.Inside a.loc ∨ e.IsInlineTemplate o a v ∧ v.loc.Inside e.loc
  | .directive d => ∀ x ∈ d.arg.toList ++ d.exp.toList ++ d.modifiers, x.loc.Inside d.loc

namespace Node

/-- Siblings lie inside `outer`, one after the other. -/
def Ordered (outer : Location) (nodes : List Node) : Prop :=
  (∀ n ∈ nodes, n.loc.Inside outer) ∧ nodes.Pairwise fun m n => m.loc.Before n.loc

/-- What a node is made of lies inside of it, properties and children each in their order. -/
def WellPlaced (o : Options) : Node → Prop
  | .element e children =>
    (∀ p ∈ e.props, p.loc.Inside e.loc ∧ p.WellPlaced o e) ∧
      (e.props.Pairwise fun p q => p.loc.Before q.loc) ∧ Ordered e.loc children
  | .interpolation i => i.content.loc.Inside i.loc
  | .text _ | .comment _ => True

end Node

/-! ## From spans to offsets -/

namespace Chain

variable {α : Type} {P : Cursor → Cursor → α → Prop} {a b : Cursor} {xs : List α}
  {loc : α → Location}

theorem inside (h : Chain P a b xs) (place : ∀ {a b x}, P a b x → (loc x).Spans a b) :
    ∀ x ∈ xs, (loc x).Inside (a.locationTo b) := by
  intro x hx
  obtain ⟨c, d, left, right, spans⟩ := h.exists_of_mem hx fun spans => (place spans).reaches
  exact ((place spans).widen left right).inside

/-- What follows one another on a way is in order. -/
theorem pairwise (h : Chain P a b xs) (place : ∀ {a b x}, P a b x → (loc x).Spans a b) :
    xs.Pairwise fun x y => (loc x).Before (loc y) := by
  induction xs generalizing a with
  | nil => exact .nil
  | cons x xs ih =>
      obtain ⟨m, first, rest⟩ := h
      refine .cons (fun y hy => ?_) (ih rest)
      exact Nat.le_trans (place first).inside.2.2 (rest.inside place y hy).1

end Chain

theorem Node.ListSpans.ordered {a b : Cursor} {nodes : List Node} (h : ListSpans a b nodes) :
    Ordered (a.locationTo b) nodes :=
  ⟨(listSpans_iff.mp h).inside Spans.loc, (listSpans_iff.mp h).pairwise Spans.loc⟩

/-! ## The values of attributes -/

/-- An attribute has its value inside of it. -/
def Property.InPlace : Property → Prop
  | .attribute a => ∀ v ∈ a.value, v.loc.Inside a.loc
  | .directive _ => True

theorem Property.Spans.wellPlaced {o : Options} {e : Element} {lo hi a b : Cursor} {p : Property}
    (h : p.Spans lo hi a b) (loc : e.loc = lo.locationTo hi)
    (value : p.InPlace ∨ ∃ x, p = .attribute x ∧ ∀ v ∈ x.value, e.IsInlineTemplate o x v) :
    p.WellPlaced o e := by
  match p, h with
  | .attribute x, h =>
      obtain ⟨c, d, _, _, _, place, name, values⟩ := h
      refine ⟨place ▸ name.inside, fun v hv => ?_⟩
      rcases value with inPlace | ⟨y, same, written⟩
      · exact .inl (inPlace v hv)
      · cases same
        rcases values v hv with within | ⟨_, elsewhere⟩
        · exact .inl (place ▸ within.inside)
        · exact .inr ⟨written v hv, loc ▸ elsewhere.inside⟩
  | .directive x, h =>
      obtain ⟨c, d, _, _, _, place, parts⟩ := h
      exact fun y hy => place ▸ (parts y hy).inside

namespace State

variable {o : Options} {source : List Char} {s : State}

/-- A start tag gives no value from elsewhere to an attribute. -/
theorem Opens.inPlace (h : s.Opens o) : ∀ p ∈ (s.startTag o).value.props, p.InPlace := by
  intro p hp
  -- from the end of the tag there is no way back to its start, so nothing lies in between
  have read := Tag.read_sound o .opening s.flags.vPre (s.startTag o).cursor s.cursor s.cursor
  obtain ⟨c, d, _, _, spans⟩ := read.value.exists_of_mem hp Property.Spans.reaches
  have text : s.cursor.rest ≠ [] := by
    intro none
    have mark := h.mark
    rw [none] at mark
    cases mark
  have forward := Tag.length_read_lt o .opening s.flags.vPre text
  match p, spans with
  | .directive x, _ => exact trivial
  | .attribute x, spans =>
      obtain ⟨e, f, _, _, _, place, _, values⟩ := spans
      intro v hv
      rcases values v hv with within | ⟨_, elsewhere⟩
      · exact place ▸ within.inside
      · have back := elsewhere.reaches.length_le
        exact absurd (Nat.lt_of_lt_of_le forward back) (Nat.lt_irrefl _)

/-- Only the first attribute `inline-template` gets another value. -/
theorem mem_fillInlineTemplate {value : TextNode} {e : Element} {props : List Property}
    {p : Property} (h : p ∈ fillInlineTemplate value props) :
    p ∈ props ∨ ∃ a, p = .attribute a ∧ a.value = some value ∧
      { e with props := fillInlineTemplate value props }.attribute? "inline-template".toList
        = some a := by
  induction props with
  | nil => cases h
  | cons q props ih =>
      rcases q with x | d
      · rw [fillInlineTemplate] at h ⊢
        split at h
        · next named =>
          rw [if_pos named]
          rcases List.mem_cons.mp h with rfl | h
          · refine .inr ⟨_, rfl, rfl, ?_⟩
            simp only [Element.attribute?, List.findSome?_cons, named, if_true]
          · exact .inl (List.mem_cons_of_mem _ h)
        · next other =>
          rw [if_neg other]
          rcases List.mem_cons.mp h with rfl | h
          · exact .inl List.mem_cons_self
          · rcases ih h with member | ⟨a, same, written, first⟩
            · exact .inl (List.mem_cons_of_mem _ member)
            · refine .inr ⟨a, same, written, ?_⟩
              simp only [Element.attribute?, List.findSome?_cons, other] at first ⊢
              exact first
      · rcases List.mem_cons.mp h with rfl | h
        · exact .inl List.mem_cons_self
        · exact (ih h).imp_left (List.mem_cons_of_mem _)

/-- An element that is closed has the properties of its start tag, but for the value that
    `inline-template` has written. -/
theorem mem_withInlineTemplate {e : Element} {content : Location} {p : Property}
    (h : p ∈ (withInlineTemplate o e content).1.props) :
    p ∈ e.props ∨ ∃ a, p = .attribute a ∧
      ∀ v ∈ a.value, (withInlineTemplate o e content).1.IsInlineTemplate o a v := by
  unfold withInlineTemplate at h ⊢
  split at h
  · split at h
    · next honoured =>
      rw [if_pos honoured]
      refine (mem_fillInlineTemplate (e := e) h).imp_right fun ⟨a, same, written, first⟩ => ?_
      refine ⟨a, same, fun v hv => ⟨honoured, first, ?_⟩⟩
      rw [written] at hv
      cases hv
      rfl
    · exact .inl h
  · exact .inl h

/-- Every property of a finished element has its value inside of it, or got it by
    `inline-template`. -/
theorem Finished.inPlace {e : Element} {children : List Node} (h : s.Finished o source e children)
    (opens : s.Opens o) : ∀ p ∈ e.props,
      p.InPlace ∨ ∃ a, p = .attribute a ∧ ∀ v ∈ a.value, e.IsInlineTemplate o a v := by
  intro p hp
  cases h with
  | empty => exact .inl (opens.inPlace p hp)
  | tooDeep => exact .inl (opens.inPlace p hp)
  | @closed t entry _ _ _ _ same =>
      have started : entry.element = (s.started o).1 := congrArg OpenElement.element same
      refine (mem_withInlineTemplate hp).imp_left fun old => ?_
      rw [started] at old
      exact opens.inPlace p old

end State

/-! ## Trees -/

namespace Node

variable {o : Options} {source : List Char} {flags : Flags} {node : Node} {a b : Cursor}

/-- What goes back to a reading and stands on a way is in order. -/
theorem Derived.wellPlaced (h : node.Derived o source flags) (spans : node.Spans a b) :
    node.WellPlaced o := by
  induction h with
  | @leaf _ node leaf =>
      cases node with
      | element e children => exact absurd rfl leaf
      | text t => exact trivial
      | comment c => exact trivial
      | interpolation i =>
          rw [Spans] at spans
          obtain ⟨c, d, _, _, _, place, content⟩ := spans
          rw [WellPlaced, place]
          exact content.inside
  | @element s e children _ opens finished _ _ =>
      rw [Spans] at spans
      obtain ⟨c, d, _, _, _, place, props, nodes⟩ := spans
      rw [WellPlaced, place]
      refine ⟨fun p hp => ⟨props.inside Property.Spans.loc p hp, ?_⟩,
        props.pairwise Property.Spans.loc, nodes.ordered⟩
      obtain ⟨m, n, _, _, here⟩ := props.exists_of_mem hp Property.Spans.reaches
      exact here.wellPlaced place (finished.inPlace opens p hp)
  | spliced _ _ ih => exact ih spans

theorem Derived.inner {e : Element} {children : List Node}
    (h : (Node.element e children).Derived o source flags) :
    ∃ flags, ∀ n ∈ children, n.Derived o source flags := by
  obtain ⟨s, _, _, _, inner⟩ := h.exists_opens
  exact ⟨s.flagsInside o, inner⟩

/-- A node that goes back to a reading and stands on some way through the template. -/
def Stands (o : Options) (source : List Char) (node : Node) : Prop :=
  (∃ flags, node.Derived o source flags) ∧ ∃ a b, node.Spans a b

theorem ListSpans.stands {nodes : List Node} (h : ListSpans a b nodes)
    (derived : ∀ n ∈ nodes, n.Derived o source flags) : ∀ n ∈ nodes, n.Stands o source := by
  intro n hn
  obtain ⟨c, d, _, _, here⟩ := (listSpans_iff.mp h).exists_of_mem hn Spans.reaches
  exact ⟨⟨flags, derived n hn⟩, c, d, here⟩

theorem Stands.inner {e : Element} {children : List Node}
    (h : (Node.element e children).Stands o source) : ∀ n ∈ children, n.Stands o source := by
  obtain ⟨⟨_, derived⟩, a, b, spans⟩ := h
  obtain ⟨_, inner⟩ := derived.inner
  rw [Spans] at spans
  obtain ⟨c, d, _, _, _, _, _, nodes⟩ := spans
  exact nodes.stands inner

/-- What holds of the nodes of a list, and of the children of every element that it holds of, holds
    of every node that a path leads to. -/
theorem forall_at? {P : Node → Prop} {nodes : List Node} {path : List Nat}
    (down : ∀ {e children}, P (.element e children) → ∀ n ∈ children, P n) (h : ∀ n ∈ nodes, P n)
    (found : at? nodes path = some node) : P node := by
  fun_induction at? nodes path with
  | case1 => cases found
  | case2 nodes i => exact h node (List.mem_of_getElem? found)
  | case3 nodes i j path top here ih =>
      have reached := h top (List.mem_of_getElem? here)
      refine ih (fun n hn => ?_) found
      cases top with
      | element e children => exact down reached n hn
      | text | comment | interpolation => cases hn
  | case4 => cases found

end Node

/-- In every finished tree children lie inside their element and properties inside theirs, each in
    their order and apart from one another, and so do the parts of a property and of an
    interpolation. Only a value that was written by `inline-template` lies outside of its
    attribute, and inside the element. -/
theorem parse_wellPlaced (o : Options) (source : List Char) :
    Node.Ordered (parse o source).root.loc (parse o source).root.children ∧
      ∀ path node, Node.at? (parse o source).root.children path = some node →
        node.WellPlaced o := by
  obtain ⟨s, reachable, done, result⟩ := State.exists_reachable_result o source
  have spans := State.result_spans (o := o) reachable.placed done
  have derived := parse_derived o source
  rw [result] at derived ⊢
  refine ⟨spans.ordered, fun path node found => ?_⟩
  obtain ⟨⟨flags, derived⟩, a, b, here⟩ :=
    Node.forall_at? Node.Stands.inner (spans.stands derived) found
  exact derived.wellPlaced here

-- The exception is a real one: here the value is the content of the element.
example :
    (parse { Options.base with legacy := some (.ofMode .v2) }
      "<a inline-template>b</a>".toList).root.children.any (fun
        | .element e _ => (e.attribute? "inline-template".toList).any fun a =>
            a.value.any fun v => !decide (v.loc.Inside a.loc) && decide (v.loc.Inside e.loc)
        | _ => false) = true := by
  decide +kernel

end Stencil
