import Stencil.Proofs.Location

/-! # Spans

Where the parts of a template stand, said with cursors. A part spans the way from one cursor to
another if it lies between them; the parts of a list follow one another on that way. Since the
cursors are those of one template, everything that spans some way has faithful locations, and what
is inside of what can be read off the cursors.
-/

namespace Stencil

namespace Location

/-- The location is the stretch between two cursors on the way from `a` to `b`, with `P` between
    these two. -/
def Encloses (P : Cursor → Cursor → Prop) (a b : Cursor) (l : Location) : Prop :=
  ∃ c d, a.Reaches c ∧ c.Reaches d ∧ d.Reaches b ∧ l = c.locationTo d ∧ P c d

/-- The location is the stretch between two cursors on the way from `a` to `b`. -/
def Spans (a b : Cursor) (l : Location) : Prop :=
  l.Encloses (fun _ _ => True) a b

theorem Encloses.widen {P : Cursor → Cursor → Prop} {a a' b b' : Cursor} {l : Location}
    (h : l.Encloses P a b) (left : a'.Reaches a) (right : b.Reaches b') : l.Encloses P a' b' := by
  obtain ⟨c, d, first, middle, last, place, inside⟩ := h
  exact ⟨c, d, left.trans first, middle, last.trans right, place, inside⟩

theorem Encloses.imp {P Q : Cursor → Cursor → Prop} {a b : Cursor} {l : Location}
    (h : l.Encloses P a b) (imp : ∀ c d, a.Reaches c → d.Reaches b → P c d → Q c d) :
    l.Encloses Q a b := by
  obtain ⟨c, d, first, middle, last, place, inside⟩ := h
  exact ⟨c, d, first, middle, last, place, imp c d first last inside⟩

theorem Encloses.spans {P : Cursor → Cursor → Prop} {a b : Cursor} {l : Location}
    (h : l.Encloses P a b) : l.Spans a b :=
  h.imp fun _ _ _ _ _ => trivial

theorem Encloses.reaches {P : Cursor → Cursor → Prop} {a b : Cursor} {l : Location}
    (h : l.Encloses P a b) : a.Reaches b := by
  obtain ⟨c, d, first, middle, last, _⟩ := h
  exact (first.trans middle).trans last

theorem Encloses.of_reaches {P : Cursor → Cursor → Prop} {a b : Cursor} (h : a.Reaches b)
    (inside : P a b) : (a.locationTo b).Encloses P a b :=
  ⟨a, b, .refl a, h, .refl b, rfl, inside⟩

theorem Spans.widen {a a' b b' : Cursor} {l : Location} (h : l.Spans a b) (left : a'.Reaches a)
    (right : b.Reaches b') : l.Spans a' b' :=
  Encloses.widen h left right

theorem Spans.of_reaches {a b c d : Cursor} (first : a.Reaches c) (middle : c.Reaches d)
    (last : d.Reaches b) : (c.locationTo d).Spans a b :=
  ⟨c, d, first, middle, last, rfl, trivial⟩

theorem Spans.point {a b c : Cursor} (first : a.Reaches c) (last : c.Reaches b) :
    (Location.point c.position).Spans a b := by
  rw [← Cursor.locationTo_self]
  exact .of_reaches first (.refl c) last

/-- What spans a way through a template is faithful to it. -/
theorem Spans.faithful {source : List Char} {a b : Cursor} {l : Location} (h : l.Spans a b)
    (inside : (Cursor.ofText source).Reaches a) : l.Faithful source := by
  obtain ⟨c, d, first, middle, _, rfl, _⟩ := h
  exact Cursor.locationTo_faithful (inside.trans first) middle

end Location

/-! ## Lists along a way -/

/-- The members of a list follow one another on the way from `a` to `b`. -/
def Chain {α : Type} (P : Cursor → Cursor → α → Prop) (a b : Cursor) : List α → Prop
  | [] => a.Reaches b
  | x :: xs => ∃ m, P a m x ∧ Chain P m b xs

namespace Chain

variable {α : Type} {P : Cursor → Cursor → α → Prop} {a b m : Cursor} {x : α} {xs ys : List α}

theorem append (h : Chain P a m xs) (k : Chain P m b ys)
    (widen : ∀ {a a' b x}, a'.Reaches a → P a b x → P a' b x) : Chain P a b (xs ++ ys) := by
  induction xs generalizing a with
  | nil =>
      cases ys with
      | nil => exact Cursor.Reaches.trans h k
      | cons y ys =>
          obtain ⟨n, first, rest⟩ := k
          exact ⟨n, widen h first, rest⟩
  | cons x xs ih =>
      obtain ⟨n, first, rest⟩ := h
      exact ⟨n, first, ih rest⟩

theorem of_append (h : Chain P a b (xs ++ ys)) : ∃ m, Chain P a m xs ∧ Chain P m b ys := by
  induction xs generalizing a with
  | nil => exact ⟨a, .refl a, h⟩
  | cons x xs ih =>
      obtain ⟨n, first, rest⟩ := h
      obtain ⟨m, left, right⟩ := ih rest
      exact ⟨m, ⟨n, first, left⟩, right⟩

theorem imp {Q : Cursor → Cursor → α → Prop} (h : Chain P a b xs)
    (imp : ∀ {a b x}, P a b x → Q a b x) : Chain Q a b xs := by
  induction xs generalizing a with
  | nil => exact h
  | cons x xs ih =>
      obtain ⟨m, first, rest⟩ := h
      exact ⟨m, imp first, ih rest⟩

theorem reaches (h : Chain P a b xs) (forward : ∀ {a b x}, P a b x → a.Reaches b) :
    a.Reaches b := by
  induction xs generalizing a with
  | nil => exact h
  | cons x xs ih =>
      obtain ⟨m, first, rest⟩ := h
      exact (forward first).trans (ih rest)

theorem widen_right (h : Chain P a b xs) (right : b.Reaches m) : Chain P a m xs := by
  induction xs generalizing a with
  | nil => exact Cursor.Reaches.trans h right
  | cons x xs ih =>
      obtain ⟨n, first, rest⟩ := h
      exact ⟨n, first, ih rest⟩

theorem widen_left (h : Chain P a b xs) (left : m.Reaches a)
    (widen : ∀ {a a' b x}, a'.Reaches a → P a b x → P a' b x) : Chain P m b xs := by
  cases xs with
  | nil => exact left.trans h
  | cons x xs =>
      obtain ⟨n, first, rest⟩ := h
      exact ⟨n, widen left first, rest⟩

/-- Leaving members out keeps the others in their order. -/
theorem filter (h : Chain P a b xs) (p : α → Bool) (forward : ∀ {a b x}, P a b x → a.Reaches b)
    (widen : ∀ {a a' b x}, a'.Reaches a → P a b x → P a' b x) : Chain P a b (xs.filter p) := by
  induction xs generalizing a with
  | nil => exact h
  | cons x xs ih =>
      obtain ⟨m, first, rest⟩ := h
      rw [List.filter_cons]
      split
      · exact ⟨m, first, ih rest⟩
      · exact (ih rest).widen_left (forward first) widen

theorem exists_of_mem (h : Chain P a b xs) (member : x ∈ xs)
    (forward : ∀ {a b x}, P a b x → a.Reaches b) :
    ∃ c d, a.Reaches c ∧ d.Reaches b ∧ P c d x := by
  induction xs generalizing a with
  | nil => cases member
  | cons y ys ih =>
      obtain ⟨m, first, rest⟩ := h
      cases member with
      | head => exact ⟨a, m, .refl a, rest.reaches forward, first⟩
      | tail _ member =>
          obtain ⟨c, d, left, right, place⟩ := ih rest member
          exact ⟨c, d, (forward first).trans left, right, place⟩

end Chain

/-! ## Properties and nodes -/

namespace Property

/-- A property of an element that stands between `lo` and `hi`: name, value, argument, expression
    and modifiers are inside of it. Only the value of `inline-template` may come from elsewhere in
    the element. -/
def Spans (lo hi a b : Cursor) : Property → Prop
  | .attribute x =>
    x.loc.Encloses (fun c d => x.nameLoc.Spans c d ∧ ∀ v ∈ x.value,
      v.loc.Spans c d ∨ (x.name = "inline-template".toList ∧ v.loc.Spans lo hi)) a b
  | .directive x =>
    x.loc.Encloses (fun c d => ∀ e ∈ x.arg.toList ++ x.exp.toList ++ x.modifiers, e.loc.Spans c d)
      a b

variable {lo hi lo' hi' a a' b b' : Cursor} {p : Property}

theorem Spans.widen (h : p.Spans lo hi a b) (left : a'.Reaches a) (right : b.Reaches b') :
    p.Spans lo hi a' b' := by
  match p, h with
  | .attribute x, h => exact Location.Encloses.widen h left right
  | .directive x, h => exact Location.Encloses.widen h left right

theorem Spans.widen_element (h : p.Spans lo hi a b) (left : lo'.Reaches lo)
    (right : hi.Reaches hi') : p.Spans lo' hi' a b := by
  match p, h with
  | .attribute x, h =>
      refine Location.Encloses.imp h fun c d _ _ inside => ⟨inside.1, fun v hv => ?_⟩
      exact (inside.2 v hv).imp_right fun filled => ⟨filled.1, filled.2.widen left right⟩
  | .directive x, h => exact h

theorem Spans.loc (h : p.Spans lo hi a b) : p.loc.Spans a b := by
  match p, h with
  | .attribute x, h => exact Location.Encloses.spans h
  | .directive x, h => exact Location.Encloses.spans h

theorem Spans.reaches (h : p.Spans lo hi a b) : a.Reaches b :=
  Location.Encloses.reaches h.loc

theorem Spans.faithful {source : List Char} (h : p.Spans lo hi a b)
    (outer : (Cursor.ofText source).Reaches lo) (inside : (Cursor.ofText source).Reaches a) :
    ∀ l ∈ p.locations, l.Faithful source := by
  intro l member
  match p, h, member with
  | .attribute x, h, member =>
      obtain ⟨c, d, first, middle, _, place, name, value⟩ := h
      simp only [locations, List.mem_cons, List.mem_map, Option.mem_toList] at member
      rcases member with rfl | rfl | ⟨v, hv, rfl⟩
      · rw [place]
        exact Cursor.locationTo_faithful (inside.trans first) middle
      · exact name.faithful (inside.trans first)
      · rcases value v hv with within | ⟨_, filled⟩
        · exact within.faithful (inside.trans first)
        · exact filled.faithful outer
  | .directive x, h, member =>
      obtain ⟨c, d, first, middle, _, place, parts⟩ := h
      rw [locations, List.mem_cons, List.mem_map] at member
      rcases member with rfl | ⟨e, he, rfl⟩
      · rw [place]
        exact Cursor.locationTo_faithful (inside.trans first) middle
      · exact (parts e he).faithful (inside.trans first)

end Property

namespace Node

mutual
/-- A node lies on the way from `a` to `b`, with its properties and children inside of it. -/
def Spans (a b : Cursor) : Node → Prop
  | .element e children =>
    e.loc.Encloses (fun c d => Chain (Property.Spans c d) c d e.props ∧ ListSpans c d children) a b
  | .text t => t.loc.Spans a b
  | .comment x => x.loc.Spans a b
  | .interpolation i => i.loc.Encloses (fun c d => i.content.loc.Spans c d) a b

/-- Nodes follow one another on the way from `a` to `b`. -/
def ListSpans (a b : Cursor) : List Node → Prop
  | [] => a.Reaches b
  | node :: nodes => ∃ m, node.Spans a m ∧ ListSpans m b nodes
end

theorem listSpans_iff {a b : Cursor} {nodes : List Node} :
    ListSpans a b nodes ↔ Chain Spans a b nodes := by
  induction nodes generalizing a with
  | nil => rw [ListSpans, Chain]
  | cons node nodes ih => simp only [ListSpans, Chain, ih]

theorem Spans.widen {a a' b b' : Cursor} {node : Node} (h : node.Spans a b)
    (left : a'.Reaches a) (right : b.Reaches b') : node.Spans a' b' := by
  cases node with
  | element e children =>
      rw [Spans] at h ⊢
      exact h.widen left right
  | text t =>
      rw [Spans] at h ⊢
      exact h.widen left right
  | comment x =>
      rw [Spans] at h ⊢
      exact h.widen left right
  | interpolation i =>
      rw [Spans] at h ⊢
      exact h.widen left right

theorem Spans.loc {a b : Cursor} {node : Node} (h : node.Spans a b) : node.loc.Spans a b := by
  cases node with
  | element e children =>
      rw [Spans] at h
      exact h.spans
  | text t =>
      rw [Spans] at h
      exact h
  | comment x =>
      rw [Spans] at h
      exact h
  | interpolation i =>
      rw [Spans] at h
      exact h.spans

theorem Spans.reaches {a b : Cursor} {node : Node} (h : node.Spans a b) : a.Reaches b :=
  Location.Encloses.reaches h.loc

theorem ListSpans.reaches {a b : Cursor} {nodes : List Node} (h : ListSpans a b nodes) :
    a.Reaches b :=
  (listSpans_iff.mp h).reaches Spans.reaches

theorem ListSpans.widen {a a' b b' : Cursor} {nodes : List Node} (h : ListSpans a b nodes)
    (left : a'.Reaches a) (right : b.Reaches b') : ListSpans a' b' nodes := by
  rw [listSpans_iff] at h ⊢
  exact (h.widen_right right).widen_left left fun left spans => spans.widen left (.refl _)

mutual
/-- All locations in a node that lies on a way through a template are faithful to it. -/
theorem Spans.faithful {source : List Char} {a b : Cursor} {node : Node} (h : node.Spans a b)
    (inside : (Cursor.ofText source).Reaches a) : ∀ l ∈ node.locations, l.Faithful source := by
  intro l member
  cases node with
  | element e children =>
      rw [Spans] at h
      obtain ⟨c, d, first, middle, _, place, props, nodes⟩ := h
      have start := inside.trans first
      simp only [locations, List.mem_append, List.mem_cons, List.mem_flatMap] at member
      rcases member with (rfl | ⟨p, hp, hl⟩) | child
      · rw [place]
        exact Cursor.locationTo_faithful start middle
      · obtain ⟨m, n, left, _, placed⟩ := props.exists_of_mem hp Property.Spans.reaches
        exact placed.faithful start (start.trans left) l hl
      · exact ListSpans.faithful nodes start l child
  | text t =>
      rw [Spans] at h
      rw [locations, List.mem_singleton] at member
      exact member ▸ h.faithful inside
  | comment x =>
      rw [Spans] at h
      rw [locations, List.mem_singleton] at member
      exact member ▸ h.faithful inside
  | interpolation i =>
      rw [Spans] at h
      simp only [locations, List.mem_cons, List.not_mem_nil, or_false] at member
      rcases member with rfl | rfl
      · exact h.spans.faithful inside
      · obtain ⟨c, d, first, _, _, _, content⟩ := h
        exact content.faithful (inside.trans first)
termination_by sizeOf node

theorem ListSpans.faithful {source : List Char} {a b : Cursor} {nodes : List Node}
    (h : ListSpans a b nodes) (inside : (Cursor.ofText source).Reaches a) :
    ∀ l ∈ listLocations nodes, l.Faithful source := by
  intro l member
  cases nodes with
  | nil => cases member
  | cons node nodes =>
      rw [ListSpans] at h
      obtain ⟨m, first, rest⟩ := h
      rw [listLocations, List.mem_append] at member
      rcases member with here | later
      · exact Spans.faithful first inside l here
      · exact ListSpans.faithful rest (inside.trans first.reaches) l later
termination_by sizeOf nodes
end

end Node

end Stencil
