import Stencil.Proofs.Spans.Tag

/-! # Spans of siblings

Neither adding a node to a list of siblings nor settling a finished list moves anything: what is
left follows one another where the whole list did. Texts that are joined stand where the stretch
from the first to the last of them does.
-/

namespace Stencil.Siblings

variable {source : List Char} {a b m : Cursor} {node : Node} {nodes : List Node}

theorem listSpans_snoc (h : Node.ListSpans a m nodes) (k : node.Spans m b) :
    Node.ListSpans a b (nodes ++ [node]) := by
  rw [Node.listSpans_iff] at h ⊢
  exact h.append ⟨b, k, .refl b⟩ fun left spans => spans.widen left (.refl _)

/-- Two texts that touch make one text. -/
theorem spans_touching {t u : TextNode} (h : t.loc.Spans a m) (k : u.loc.Spans m b)
    (touch : t.loc.stop.offset = u.loc.start.offset) :
    (Location.mk t.loc.start u.loc.stop (t.loc.source ++ u.loc.source)).Spans a b := by
  obtain ⟨c, d, first, left, middle, place, _⟩ := h
  obtain ⟨e, f, middle', right, last, place', _⟩ := k
  rw [place, place'] at touch ⊢
  have same : d = e := (middle.trans middle').eq_of_offset touch
  subst same
  have joined : Location.mk c.position f.position (c.textTo d ++ d.textTo f) = c.locationTo f := by
    rw [← Cursor.textTo_append left right]
    rfl
  exact joined ▸ .of_reaches first (left.trans right) last

theorem push_spans (h : Node.ListSpans a m nodes.reverse) (k : node.Spans m b) :
    Node.ListSpans a b (push node nodes).reverse := by
  unfold push
  split
  · next t prev rest =>
    split
    · next touch =>
      rw [List.reverse_cons, Node.listSpans_iff] at h
      obtain ⟨n, before, n', last, here⟩ := h.of_append
      rw [Node.Spans] at last k
      rw [List.reverse_cons]
      refine listSpans_snoc (Node.listSpans_iff.mpr before) ?_
      rw [Node.Spans]
      exact spans_touching last (k.widen here (.refl _)) touch
    · rw [List.reverse_cons]
      exact listSpans_snoc h k
  · rw [List.reverse_cons]
    exact listSpans_snoc h k

/-! ## Settling -/

/-- A node that may have been dropped. -/
def MaySpan (a b : Cursor) (node : Option Node) : Prop :=
  a.Reaches b ∧ ∀ n ∈ node, n.Spans a b

theorem loc_of_settleText {o : Options} {inPre : Bool} {prev next : Option NodeKind}
    {t u : TextNode} (h : settleText o inPre prev next t = some u) : u.loc = t.loc := by
  unfold settleText at h
  split at h
  · cases h
    rfl
  · split at h
    · split at h
      · split at h
        · cases h
        · cases h
          rfl
      · cases h
    · split at h
      · cases h
        rfl
      · cases h
        rfl

theorem settleNode_spans (o : Options) (inPre : Bool) (prev next : Option NodeKind)
    (h : node.Spans a b) : MaySpan a b (settleNode o inPre prev next node) := by
  refine ⟨h.reaches, fun n hn => ?_⟩
  unfold settleNode at hn
  split at hn
  · next t =>
    obtain ⟨u, settled, rfl⟩ := Option.map_eq_some_iff.mp hn
    rw [Node.Spans] at h ⊢
    rw [loc_of_settleText settled]
    exact h
  · split at hn
    · cases hn
      exact h
    · cases hn
  · cases hn
    exact h

theorem settleEach_spans (o : Options) (inPre : Bool) (prev : Option NodeKind)
    (h : Node.ListSpans a b nodes) : Chain MaySpan a b (settleEach o inPre prev nodes) := by
  induction nodes generalizing a prev with
  | nil => exact h
  | cons node nodes ih =>
      rw [Node.ListSpans] at h
      obtain ⟨m, first, rest⟩ := h
      exact ⟨m, settleNode_spans o inPre prev _ first, ih _ rest⟩

theorem dropFirstLineBreak_spans {list : List (Option Node)} (h : Chain MaySpan a b list) :
    Chain MaySpan a b (dropFirstLineBreak list) := by
  unfold dropFirstLineBreak
  split
  · next t rest =>
    obtain ⟨m, first, later⟩ := h
    refine ⟨m, ⟨first.1, fun n hn => ?_⟩, later⟩
    cases hn
    have here := first.2 _ rfl
    rw [Node.Spans] at here ⊢
    exact here
  · exact h

theorem filterMap_spans {list : List (Option Node)} (h : Chain MaySpan a b list) :
    Node.ListSpans a b (list.filterMap id) := by
  induction list generalizing a with
  | nil => exact h
  | cons node list ih =>
      obtain ⟨m, first, rest⟩ := h
      cases node with
      | none =>
          rw [List.filterMap_cons_none rfl]
          exact (ih rest).widen first.1 (.refl _)
      | some n =>
          rw [List.filterMap_cons_some (f := id) rfl, Node.ListSpans]
          exact ⟨m, first.2 n rfl, ih rest⟩

/-- The stretch from the start of one text to the end of a later one. -/
theorem joinTexts_spans (o : Options) (inPre : Bool) {t u : TextNode}
    (inside : (Cursor.ofText source).Reaches a) (h : t.loc.Spans a m) (k : u.loc.Spans m b) :
    (joinTexts o inPre source t u).loc.Spans a b := by
  obtain ⟨c, d, first, left, middle, place, _⟩ := h
  obtain ⟨e, f, middle', right, last, place', _⟩ := k
  have across := ((left.trans middle).trans middle').trans right
  have joined : (joinTexts o inPre source t u).loc = c.locationTo f := by
    simp only [joinTexts, place, place', Cursor.locationTo]
    rw [Cursor.sliceBytes_of_reaches (inside.trans first) across]
  exact joined ▸ .of_reaches first across last

theorem consJoining_spans (o : Options) (inPre : Bool) (inside : (Cursor.ofText source).Reaches a)
    (h : node.Spans a m) (k : Node.ListSpans m b nodes) :
    Node.ListSpans a b (consJoining o inPre source node nodes) := by
  unfold consJoining
  split
  · next t u rest =>
    rw [Node.ListSpans] at k
    obtain ⟨n, second, later⟩ := k
    rw [Node.Spans] at h second
    rw [Node.ListSpans]
    refine ⟨n, ?_, later⟩
    rw [Node.Spans]
    exact joinTexts_spans o inPre inside h second
  · rw [Node.ListSpans]
    exact ⟨m, h, k⟩

theorem foldr_consJoining_spans (o : Options) (inPre : Bool)
    (inside : (Cursor.ofText source).Reaches a) (h : Node.ListSpans a b nodes) :
    Node.ListSpans a b (nodes.foldr (consJoining o inPre source) []) := by
  induction nodes generalizing a with
  | nil => exact h
  | cons node nodes ih =>
      rw [Node.ListSpans] at h
      obtain ⟨m, first, rest⟩ := h
      exact consJoining_spans o inPre inside first (ih (inside.trans first.reaches) rest)

/-- What is kept of a list of siblings, before texts are joined. -/
theorem settled_spans (o : Options) (inPre preParent : Bool) (h : Node.ListSpans a b nodes) :
    Node.ListSpans a b ((if inPre && preParent then
      dropFirstLineBreak (settleEach o inPre none nodes)
      else settleEach o inPre none nodes).filterMap id) := by
  apply filterMap_spans
  split
  · exact dropFirstLineBreak_spans (settleEach_spans o inPre none h)
  · exact settleEach_spans o inPre none h

/-- Settling a list of siblings leaves what it keeps in place. -/
theorem settle_spans (o : Options) (inPre preParent : Bool)
    (inside : (Cursor.ofText source).Reaches a) (h : Node.ListSpans a b nodes) :
    Node.ListSpans a b (settle o source inPre preParent nodes) :=
  foldr_consJoining_spans o inPre inside (settled_spans o inPre preParent h)

end Stencil.Siblings
