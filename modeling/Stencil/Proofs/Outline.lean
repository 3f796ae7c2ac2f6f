import Stencil.Outline
import Stencil.Proofs.Containment
import Stencil.Proofs.Words

/-! # The lines of an outline

An outline has one line for each part of a template: the template itself, its nodes and their
properties. A part has a place, the turns that lead down to it, and the order of the document is
the lexicographic order of the places. What a line holds is quoted, except for names, so that no
line is ever broken rests on what the reader takes for a name.
-/

namespace Stencil

/-- What has a line of its own in an outline. -/
inductive Part where
  | root (r : Root)
  | node (n : Node)
  | property (p : Property)

/-- One turn on the way down to a part. -/
inductive Turn where
  | property (i : Nat)
  | child (i : Nat)

/-- The order of the document below one part: its properties, and then its children. -/
inductive Turn.Before : Turn → Turn → Prop where
  | properties {i j : Nat} (lt : i < j) : Before (.property i) (.property j)
  | children {i j : Nat} (lt : i < j) : Before (.child i) (.child j)
  | across (i j : Nat) : Before (.property i) (.child j)

/-- The line of a leaf, without its indent. -/
def leafHeadline (kind : NodeKind) (content : List Char) (loc : Location) : List Char :=
  kind.name.toList ++ ' ' :: Text.Quoted.encode content ++ ' ' :: loc.span

/-- The line of a node, without its indent. -/
def Node.headline : Node → List Char
  | .element e _ => e.headline
  | .text t => leafHeadline .text t.content t.loc
  | .comment c => leafHeadline .comment c.content c.loc
  | .interpolation i => leafHeadline .interpolation i.content.content i.loc

namespace Part

def props : Part → List Property
  | .node (.element e _) => e.props
  | _ => []

def children : Part → List Node
  | .root r => r.children
  | .node n => n.children
  | .property _ => []

/-- The part that a turn leads to. -/
def next? (part : Part) : Turn → Option Part
  | .property i => part.props[i]?.map .property
  | .child i => part.children[i]?.map .node

/-- The part at a place below a part. -/
def at? (part : Part) : List Turn → Option Part
  | [] => some part
  | turn :: place => (part.next? turn).bind fun next => next.at? place

/-- The line of a part, without its indent. -/
def headline : Part → List Char
  | .root r => "Root ".toList ++ r.loc.span
  | .node n => n.headline
  | .property p => p.headline

end Part

/-! ## Enumerating the parts -/

/-- Parts with their places. -/
abbrev Parts := List (List Turn × Part)

namespace Parts

/-- In the order of the document. -/
def Ordered (parts : Parts) : Prop :=
  parts.Pairwise fun x y => List.Lex Turn.Before x.1 y.1

/-- The parts behind one turn each, the turns numbered from `i` on. -/
def behind (turn : Nat → Turn) (i : Nat) : List Parts → Parts
  | [] => []
  | parts :: lists => parts.map (fun x => (turn i :: x.1, x.2)) ++ behind turn (i + 1) lists

variable {turn : Nat → Turn} {i : Nat} {lists : List Parts} {place : List Turn} {part : Part}

theorem length_behind : (behind turn i lists).length = lists.flatten.length := by
  induction lists generalizing i with
  | nil => rfl
  | cons parts lists ih =>
      rw [behind, List.length_append, List.length_map, ih, List.flatten_cons, List.length_append]

theorem mem_behind : (place, part) ∈ behind turn i lists ↔
    ∃ j parts rest, lists[j]? = some parts ∧ place = turn (i + j) :: rest ∧
      (rest, part) ∈ parts := by
  induction lists generalizing i with
  | nil => simp [behind]
  | cons parts lists ih =>
      rw [behind, List.mem_append, ih]
      constructor
      · rintro (first | ⟨j, later, rest, found, rfl, member⟩)
        · obtain ⟨⟨rest, _⟩, member, same⟩ := List.mem_map.mp first
          cases same
          exact ⟨0, parts, rest, rfl, rfl, member⟩
        · exact ⟨j + 1, later, rest, found, by rw [Nat.add_right_comm, Nat.add_assoc], member⟩
      · rintro ⟨j, later, rest, found, rfl, member⟩
        cases j with
        | zero =>
            cases found
            exact .inl (List.mem_map.mpr ⟨(rest, part), member, rfl⟩)
        | succ j =>
            exact .inr ⟨j, later, rest, found, by rw [Nat.add_right_comm, Nat.add_assoc], member⟩

theorem cons_mem_behind {α : Type} {f : α → Parts} {items : List α}
    (apart : ∀ i j, turn i = turn j → i = j) :
    (turn i :: place, part) ∈ behind turn 0 (items.map f) ↔
      ∃ x, items[i]? = some x ∧ (place, part) ∈ f x := by
  rw [mem_behind]
  constructor
  · rintro ⟨j, parts, rest, found, same, member⟩
    obtain ⟨index, rfl⟩ := List.cons.inj same
    rw [← Nat.zero_add j, ← apart _ _ index, List.getElem?_map] at found
    obtain ⟨x, here, rfl⟩ := Option.map_eq_some_iff.mp found
    exact ⟨x, here, member⟩
  · rintro ⟨x, here, member⟩
    exact ⟨i, f x, place, by rw [List.getElem?_map, here, Option.map_some],
      by rw [Nat.zero_add], member⟩

/-- Every place in such a list starts with one of the turns. -/
theorem exists_turn_of_mem {x : List Turn × Part} (h : x ∈ behind turn i lists) :
    ∃ j rest, i ≤ j ∧ x.1 = turn j :: rest := by
  obtain ⟨j, _, rest, _, same, _⟩ := mem_behind.mp h
  exact ⟨i + j, rest, Nat.le_add_right i j, same⟩

theorem not_mem_behind (h : ∀ j rest, place ≠ turn j :: rest) :
    (place, part) ∉ behind turn i lists := by
  intro member
  obtain ⟨j, rest, _, same⟩ := exists_turn_of_mem member
  exact h j rest same

theorem ordered_behind (ordered : ∀ i j, i < j → Turn.Before (turn i) (turn j))
    (h : ∀ parts ∈ lists, Ordered parts) : Ordered (behind turn i lists) := by
  induction lists generalizing i with
  | nil => exact .nil
  | cons parts lists ih =>
      obtain ⟨first, rest⟩ := List.forall_mem_cons.mp h
      refine List.pairwise_append.mpr ⟨?_, ih rest, fun x hx y hy => ?_⟩
      · exact List.pairwise_map.mpr (first.imp .cons)
      · obtain ⟨x, _, rfl⟩ := List.mem_map.mp hx
        obtain ⟨j, place, later, same⟩ := exists_turn_of_mem hy
        rw [same]
        exact .rel (ordered i j later)

/-- A part with its properties and with what stands behind its children. -/
def under (whole : Part) (props : List Property) (nodes : List Parts) : Parts :=
  ([], whole) :: (behind .property 0 (props.map fun p => [([], .property p)]) ++
    behind .child 0 nodes)

theorem length_under (whole : Part) (props : List Property) (nodes : List Parts) :
    (under whole props nodes).length = 1 + props.length + nodes.flatten.length := by
  rw [under, List.length_cons, List.length_append, length_behind, length_behind,
    ← List.flatMap_def, ← List.map_eq_flatMap, List.length_map]
  omega

/-- A part comes before what is below it, and its properties before its children. -/
theorem ordered_under (whole : Part) (props : List Property) {nodes : List Parts}
    (h : ∀ parts ∈ nodes, Ordered parts) : Ordered (under whole props nodes) := by
  have first : Ordered (behind .property 0 (props.map fun p => [([], .property p)])) :=
    ordered_behind (fun _ _ => .properties) (by simp [Ordered])
  have last : Ordered (behind .child 0 nodes) := ordered_behind (fun _ _ => .children) h
  refine List.pairwise_cons.mpr ⟨fun x member => ?_, List.pairwise_append.mpr ⟨first, last, ?_⟩⟩
  · have below : ∃ turn rest, x.1 = turn :: rest := by
      rcases List.mem_append.mp member with member | member <;>
        exact (exists_turn_of_mem member).elim fun _ ⟨rest, _, same⟩ => ⟨_, rest, same⟩
    obtain ⟨turn, rest, same⟩ := below
    rw [same]
    exact .nil
  · intro x hx y hy
    obtain ⟨i, _, _, property⟩ := exists_turn_of_mem hx
    obtain ⟨j, _, _, child⟩ := exists_turn_of_mem hy
    rw [property, child]
    exact .rel (.across i j)

end Parts

/-- The parts of a node, in the order of the document. -/
def Node.parts : Node → Parts
  | .element e children =>
    Parts.under (.node (.element e children)) e.props (children.map Node.parts)
  | .text t => [([], .node (.text t))]
  | .comment c => [([], .node (.comment c))]
  | .interpolation i => [([], .node (.interpolation i))]

namespace Part

/-- The parts of a part, in the order of the document. -/
def parts : Part → Parts
  | .root r => Parts.under (.root r) [] (r.children.map Node.parts)
  | .node n => n.parts
  | .property p => [([], .property p)]

theorem parts_eq (part : Part) :
    part.parts = Parts.under part part.props (part.children.map Node.parts) := by
  match part with
  | .root r => rfl
  | .node (.element e children) => exact Node.parts.eq_1 e children
  | .node (.text t) => exact Node.parts.eq_2 t
  | .node (.comment c) => exact Node.parts.eq_3 c
  | .node (.interpolation i) => exact Node.parts.eq_4 i
  | .property p => rfl

theorem at?_property (p : Property) (place : List Turn) (part : Part) :
    (Part.property p).at? place = some part ↔ place = [] ∧ part = .property p := by
  cases place with
  | nil => simp [at?, eq_comm]
  | cons turn place => cases turn <;> simp [at?, next?, props, children]

/-- All parts are enumerated, each at its place. -/
theorem mem_parts {place : List Turn} {whole part : Part} :
    (place, part) ∈ whole.parts ↔ whole.at? place = some part := by
  induction place generalizing whole with
  | nil =>
      have below : ∀ {turn lists}, ([], part) ∉ Parts.behind turn 0 lists :=
        Parts.not_mem_behind nofun
      rw [parts_eq, Parts.under, List.mem_cons, List.mem_append,
        or_iff_left (not_or_intro below below), Prod.mk.injEq, at?, Option.some.injEq,
        and_iff_right rfl]
      exact eq_comm
  | cons turn place ih =>
      have inner : ∀ n : Node, (place, part) ∈ n.parts ↔ (Part.node n).at? place = some part :=
        fun n => @ih (.node n)
      have first : (turn :: place, part) ≠ ([], whole) := nofun
      rw [parts_eq, Parts.under, List.mem_cons, or_iff_right first, List.mem_append]
      cases turn with
      | property i =>
          have other : ∀ {lists}, (.property i :: place, part) ∉ Parts.behind .child 0 lists :=
            Parts.not_mem_behind nofun
          rw [or_iff_left other, Parts.cons_mem_behind fun _ _ => Turn.property.inj, at?, next?,
            Option.bind_map, Option.bind_eq_some_iff]
          simp only [List.mem_singleton, Prod.mk.injEq, Function.comp_apply, at?_property]
      | child i =>
          have other : ∀ {lists}, (.child i :: place, part) ∉ Parts.behind .property 0 lists :=
            Parts.not_mem_behind nofun
          rw [or_iff_right other, Parts.cons_mem_behind fun _ _ => Turn.child.inj, at?, next?,
            Option.bind_map, Option.bind_eq_some_iff]
          simp only [Function.comp_apply, inner]

end Part

theorem Node.ordered_parts (node : Node) : node.parts.Ordered := by
  induction node using Node.parts.induct with
  | case1 e children ih =>
      rw [parts]
      exact Parts.ordered_under _ _ (List.forall_mem_map.mpr ih)
  | case2 | case3 | case4 =>
      rw [parts]
      exact List.pairwise_singleton _ _

theorem Part.ordered_parts (whole : Part) : whole.parts.Ordered := by
  rw [parts_eq]
  exact Parts.ordered_under _ _ (List.forall_mem_map.mpr fun n _ => n.ordered_parts)

/-! ## Lines and counts -/

/-- The line of a part below a level. -/
def Parts.line (depth : Nat) (x : List Turn × Part) : List Char :=
  indent (depth + x.1.length) ++ x.2.headline

namespace Node

theorem outlineAll_eq {depth : Nat} {nodes : List Node}
    (h : ∀ n ∈ nodes, n.outline (depth + 1) = n.parts.map (Parts.line (depth + 1))) (i : Nat) :
    outlineAll (depth + 1) nodes =
      (Parts.behind .child i (nodes.map parts)).map (Parts.line depth) := by
  induction nodes generalizing i with
  | nil => rfl
  | cons node nodes ih =>
      obtain ⟨first, rest⟩ := List.forall_mem_cons.mp h
      rw [outlineAll, first, ih rest (i + 1), List.map_cons, Parts.behind, List.map_append,
        List.map_map]
      congr 2
      funext x
      simp [Parts.line, Nat.add_right_comm, Nat.add_assoc]

theorem outline_props_eq (depth : Nat) (props : List Property) (i : Nat) :
    (props.map fun p => indent (depth + 1) ++ p.headline) =
      (Parts.behind .property i (props.map fun p => [([], .property p)])).map
        (Parts.line depth) := by
  induction props generalizing i with
  | nil => rfl
  | cons p props ih =>
      rw [List.map_cons, ih (i + 1)]
      rfl

theorem leafLine_eq (depth : Nat) (kind : NodeKind) (content : List Char) (loc : Location) :
    leafLine depth kind content loc = indent depth ++ leafHeadline kind content loc := by
  simp only [leafLine, leafHeadline, List.append_assoc]

/-- An outline goes through the parts in their order. -/
theorem outline_eq (node : Node) (depth : Nat) :
    node.outline depth = node.parts.map (Parts.line depth) := by
  induction node using Node.parts.induct generalizing depth with
  | case1 e children ih =>
      rw [parts, Parts.under, outline, outline_props_eq depth e.props 0,
        outlineAll_eq (fun n hn => ih n hn (depth + 1)) 0, List.map_cons, List.map_append]
      rfl
  | case2 | case3 | case4 =>
      rw [parts, outline]
      exact congrArg (· :: []) (leafLine_eq ..)

end Node

theorem Root.outlineLines_eq (r : Root) :
    r.outlineLines = (Part.root r).parts.map (Parts.line 0) := by
  rw [outlineLines, Node.outlineAll_eq (fun n _ => n.outline_eq 1) 0]
  rfl

namespace Tally

/-- How many parts have been counted. Components count as elements. -/
def total (t : Tally) : Nat :=
  t.elements + t.texts + t.comments + t.interpolations + t.attributes + t.directives

theorem total_countElement (t : Tally) (e : Element) :
    (t.countElement e).total = t.total + 1 + e.props.length := by
  have each : ∀ (props : List Property) (t : Tally),
      (props.foldl countProperty t).total = t.total + props.length := by
    intro props
    induction props with
    | nil => exact fun _ => rfl
    | cons p props ih =>
        intro t
        rw [List.foldl_cons, ih]
        cases p <;> simp only [countProperty, total, List.length_cons] <;> omega
  rw [countElement, each]
  simp only [total]
  omega

theorem total_countAll {nodes : List Node}
    (h : ∀ n ∈ nodes, ∀ t : Tally, (t.countNode n).total = t.total + n.parts.length)
    (t : Tally) :
    (t.countAll nodes).total = t.total + (nodes.map Node.parts).flatten.length := by
  induction nodes generalizing t with
  | nil => rfl
  | cons node nodes ih =>
      obtain ⟨first, rest⟩ := List.forall_mem_cons.mp h
      rw [countAll, ih rest, first, List.map_cons, List.flatten_cons, List.length_append,
        Nat.add_assoc]

/-- Counting goes through the same parts. -/
theorem total_countNode (t : Tally) (node : Node) :
    (t.countNode node).total = t.total + node.parts.length := by
  induction node using Node.parts.induct generalizing t with
  | case1 e children ih =>
      rw [countNode, total_countAll ih, total_countElement, Node.parts, Parts.length_under]
      omega
  | case2 | case3 | case4 =>
      rw [countNode, Node.parts]
      simp only [total, List.length_singleton]
      omega

end Tally

theorem Root.length_parts (r : Root) : (Part.root r).parts.length = 1 + r.tally.total := by
  rw [Root.tally, Tally.total_countAll (fun n _ t => t.total_countNode n), Part.parts,
    Parts.length_under]
  simp [Tally.zero, Tally.total]

/-! ## Texts that cannot break a line -/

namespace Text

theorem lineBreak_not_mem_toDigits (base : Nat) (h : 1 < base) (n : Nat) :
    '\n' ∉ Nat.toDigits base n := by
  induction n using Nat.strongRecOn with
  | ind n ih =>
      have digit : ∀ m, '\n' ≠ Nat.digitChar m := fun m => (Nat.digitChar_ne '\n' rfl).symm
      rw [Nat.toDigits_eq_if h]
      split
      · simp [digit]
      · next large =>
        have less : n / base < n := Nat.div_lt_self (by omega) h
        simp [digit, ih _ less]

/-- A quoted text stays on its line, whatever is in it. -/
theorem lineBreak_not_mem_encode (s : List Char) : '\n' ∉ Quoted.encode s := by
  have each : ∀ c, '\n' ∉ Quoted.encodeChar c := by
    intro c
    unfold Quoted.encodeChar
    split
    · decide
    split
    · decide
    split
    · decide
    split
    · decide
    · next other =>
      split
      · decide
      split
      · decide
      split
      · intro member
        exact other (beq_iff_eq.mpr (List.mem_singleton.mp member).symm)
      · have digits := lineBreak_not_mem_toDigits 16 (by decide) c.toNat
        simp [digits]
  simp [Quoted.encode, each]

/-- Lines with an end each are what a text is cut into at the ends of its lines. -/
theorem pieces_lines {lines : List (List Char)} (h : ∀ line ∈ lines, '\n' ∉ line) :
    pieces (· == '\n') (lines.flatMap (· ++ ['\n'])) = lines ++ [[]] := by
  have one : ∀ {line : List Char} (s : List Char), '\n' ∉ line →
      pieces (· == '\n') (line ++ '\n' :: s) = line :: pieces (· == '\n') s := by
    intro line s solid
    induction line with
    | nil => simp [pieces]
    | cons c line ih =>
        rw [List.mem_cons, not_or] at solid
        have other : (c == '\n') = false := beq_eq_false_iff_ne.mpr (Ne.symm solid.1)
        simp [pieces, other, ih solid.2]
  induction lines with
  | nil => rfl
  | cons line lines ih =>
      obtain ⟨first, rest⟩ := List.forall_mem_cons.mp h
      rw [List.flatMap_cons, List.append_assoc, List.singleton_append, one _ first, ih rest,
        List.cons_append]

end Text

/-! ## Headlines -/

theorem Location.lineBreak_not_mem_span (l : Location) : '\n' ∉ l.span := by
  have digits := Text.lineBreak_not_mem_toDigits 10 (by decide)
  simp [span, Text.decimal, digits]

theorem lineBreak_not_mem_shownValue (v : Option (List Char)) : '\n' ∉ shownValue v := by
  cases v with
  | none => simp [shownValue]
  | some s => simp [shownValue, Text.lineBreak_not_mem_encode]

theorem Property.IsUnbroken.headline {p : Property} (h : p.IsUnbroken) : '\n' ∉ p.headline := by
  rcases p with a | d
  · have name := h a.name List.mem_cons_self
    have value := lineBreak_not_mem_shownValue (a.value.map TextNode.content)
    have span := a.loc.lineBreak_not_mem_span
    unfold Property.headline
    simp only [List.mem_append, List.mem_cons, name, value, span]
    decide
  · simp only [Property.IsUnbroken, words, List.forall_mem_cons, List.forall_mem_map,
      List.forall_mem_append] at h
    obtain ⟨name, arg, modifiers⟩ := h
    have shown : '\n' ∉ d.arg.elim [] shownArg := by
      cases given : d.arg with
      | none => simp
      | some a =>
          have content := arg a (by simp [given])
          simp only [Option.elim_some, shownArg]
          split <;> simp [content]
    have spelled : '\n' ∉ d.modifiers.flatMap fun m => '.' :: m.content := by
      simpa using modifiers
    have value := lineBreak_not_mem_shownValue (d.exp.map Expression.content)
    have span := d.loc.lineBreak_not_mem_span
    unfold Property.headline
    simp only [List.mem_append, List.mem_cons, name, shown, spelled, value, span]
    decide

theorem Element.IsUnbroken.headline {e : Element} (h : e.IsUnbroken) : '\n' ∉ e.headline := by
  have tag := h e.tag List.mem_cons_self
  have kind : '\n' ∉ e.kind.name.toList := by cases e.kind <;> decide
  have ns : '\n' ∉ e.ns.name.toList := by cases e.ns <;> decide
  have span := e.loc.lineBreak_not_mem_span
  unfold Element.headline
  split <;> split <;> split <;> simp [tag, kind, ns, span]

theorem lineBreak_not_mem_leafHeadline (kind : NodeKind) (content : List Char) (loc : Location) :
    '\n' ∉ leafHeadline kind content loc := by
  have name : '\n' ∉ kind.name.toList := by cases kind <;> decide
  have quoted := Text.lineBreak_not_mem_encode content
  have span := loc.lineBreak_not_mem_span
  simp [leafHeadline, name, quoted, span]

/-! ## What was read -/

namespace Part

variable {o : Options} {source : List Char} {whole part : Part}

/-- A part of a template that was read from `source`. -/
def IsRead (o : Options) (source : List Char) : Part → Prop
  | .root r => ∀ n ∈ r.children, ∃ flags, n.Derived o source flags
  | .node n => ∃ flags, n.Derived o source flags
  | .property p => p.IsUnbroken

theorem IsRead.props (h : part.IsRead o source) :
    ∀ p ∈ part.props, (Part.property p).IsRead o source := by
  match part, h with
  | .node (.element e children), ⟨_, derived⟩ =>
      intro p member w word
      exact derived.isUnbroken w
        (List.mem_cons_of_mem _ (List.mem_flatMap.mpr ⟨p, member, word⟩))
  | .node (.text _), _ | .node (.comment _), _ | .node (.interpolation _), _ | .root _, _
  | .property _, _ => exact nofun

theorem IsRead.children (h : part.IsRead o source) :
    ∀ n ∈ part.children, (Part.node n).IsRead o source := by
  match part, h with
  | .root r, children => exact children
  | .node (.element e children), ⟨_, derived⟩ =>
      obtain ⟨flags, inner⟩ := derived.inner
      exact fun n member => ⟨flags, inner n member⟩
  | .node (.text _), _ | .node (.comment _), _ | .node (.interpolation _), _ | .property _, _ =>
      exact nofun

theorem IsRead.at? (h : whole.IsRead o source) {place : List Turn}
    (found : whole.at? place = some part) : part.IsRead o source := by
  induction place generalizing whole with
  | nil =>
      cases found
      exact h
  | cons turn place ih =>
      obtain ⟨next, here, rest⟩ := Option.bind_eq_some_iff.mp found
      refine ih ?_ rest
      cases turn with
      | property i =>
          obtain ⟨p, member, rfl⟩ := Option.map_eq_some_iff.mp here
          exact h.props p (List.mem_of_getElem? member)
      | child i =>
          obtain ⟨n, member, rfl⟩ := Option.map_eq_some_iff.mp here
          exact h.children n (List.mem_of_getElem? member)

theorem IsRead.headline (h : part.IsRead o source) : '\n' ∉ part.headline := by
  match part, h with
  | .root r, _ =>
      have span := r.loc.lineBreak_not_mem_span
      unfold Part.headline
      simp only [List.mem_append, span]
      decide
  | .node (.element e children), ⟨_, derived⟩ => exact derived.isUnbroken.headline
  | .node (.text _), _ | .node (.comment _), _ | .node (.interpolation _), _ =>
      exact lineBreak_not_mem_leafHeadline _ _ _
  | .property p, h => exact Property.IsUnbroken.headline h

end Part

/-- An outline consists of one line for each part of the template, each with an end: cut at the ends
    of its lines, it falls into these lines and nothing behind them. The parts are all those that
    turns from the template lead to, in the order of their places, so an element comes before its
    properties and these before its children; each line is indented by two spaces a turn. There are
    as many parts besides the template as are counted. -/
theorem parse_outline (o : Options) (source : List Char) :
    let r := (parse o source).root
    let t := r.tally
    ∃ parts : List (List Turn × Part),
      (∀ place part, (place, part) ∈ parts ↔ (Part.root r).at? place = some part) ∧
      (parts.Pairwise fun x y => List.Lex Turn.Before x.1 y.1) ∧
      Text.pieces (· == '\n') r.outline =
        (parts.map fun x => indent x.1.length ++ x.2.headline) ++ [[]] ∧
      parts.length = 1 + t.elements + t.texts + t.comments + t.interpolations + t.attributes +
        t.directives := by
  intro r t
  have read : (Part.root r).IsRead o source := fun n hn => ⟨_, parse_derived o source n hn⟩
  have lines : r.outlineLines = (Part.root r).parts.map fun x =>
      indent x.1.length ++ x.2.headline := by
    rw [r.outlineLines_eq]
    exact List.map_congr_left fun x _ => by rw [Parts.line, Nat.zero_add]
  refine ⟨(Part.root r).parts, fun _ _ => Part.mem_parts, Part.ordered_parts _, ?_, ?_⟩
  · rw [Root.outline, lines]
    apply Text.pieces_lines
    intro line member
    obtain ⟨⟨place, part⟩, listed, rfl⟩ := List.mem_map.mp member
    have solid := (read.at? (Part.mem_parts.mp listed)).headline
    simp [indent, solid]
  · rw [r.length_parts]
    simp only [Tally.total, t, Nat.add_assoc]

end Stencil
