import Stencil.Proofs.Location

/-! # Moving behind a text

What was read from a template, as it stands when the template itself stands behind some text: the
same contents and sources, with every position counted from the start of that text.
-/

namespace Stencil

namespace Position

/-- The position `p` of a template that stands behind `u`. Only on the first line of the template
    do columns go on from the last line of `u`. -/
def behind (u : List Char) (p : Position) : Position where
  offset := Text.byteLength u + p.offset
  line := u.count '\n' + p.line
  column := if p.line = 1 then (u.reverse.takeWhile (· != '\n')).length + p.column else p.column

theorem behind_nil (p : Position) : p.behind [] = p := by
  simp [behind]

theorem start_behind (u : List Char) : start.behind u = canonical u := by
  simp [behind, start, canonical, Nat.add_comm]

theorem count_pos_of_lastLine? {s tail : List Char} (h : lastLine? s = some tail) :
    0 < s.count '\n' := by
  induction s with
  | nil => cases h
  | cons c s ih =>
      rw [lastLine?] at h
      rw [List.count_cons]
      cases last : lastLine? s with
      | some tail => exact Nat.lt_of_lt_of_le (ih (h ▸ last ▸ rfl)) (Nat.le_add_right _ _)
      | none =>
          simp only [last] at h
          split at h
          · next same => simp [beq_iff_eq.mp same]
          · cases h

theorem count_of_lastLine?_none {s : List Char} (h : lastLine? s = none) : s.count '\n' = 0 := by
  induction s with
  | nil => rfl
  | cons c s ih =>
      rw [lastLine?] at h
      cases last : lastLine? s with
      | some tail =>
          rw [last] at h
          cases h
      | none =>
          simp only [last] at h
          split at h
          · cases h
          · next other => simpa [List.count_cons, ih last] using other

/-- Going over a text and moving behind another one can be done in either order. -/
theorem past_behind {p : Position} (u s : List Char) (first : 0 < p.line) :
    (p.past s).behind u = (p.behind u).past s := by
  simp only [behind, past, mk.injEq]
  refine ⟨Nat.add_assoc _ _ _ |>.symm, Nat.add_assoc _ _ _ |>.symm, ?_⟩
  cases last : lastLine? s with
  | some tail =>
      have breaks := count_pos_of_lastLine? last
      exact if_neg (by omega)
  | none =>
      simp only [count_of_lastLine?_none last, Nat.add_zero]
      split
      · exact (Nat.add_assoc _ _ _).symm
      · rfl

end Position

/-! ## Everything that has a place -/

section

variable (u : List Char)

/-- A location that stands behind `u`. -/
def Location.behind (l : Location) : Location :=
  ⟨l.start.behind u, l.stop.behind u, l.source⟩

def Expression.behind (e : Expression) : Expression :=
  { e with loc := e.loc.behind u }

def TextNode.behind (t : TextNode) : TextNode :=
  { t with loc := t.loc.behind u }

def Comment.behind (c : Comment) : Comment :=
  { c with loc := c.loc.behind u }

def Interpolation.behind (i : Interpolation) : Interpolation :=
  ⟨i.content.behind u, i.loc.behind u⟩

def Attribute.behind (a : Attribute) : Attribute :=
  { a with
    nameLoc := a.nameLoc.behind u
    value := a.value.map (·.behind u)
    loc := a.loc.behind u }

def Directive.behind (d : Directive) : Directive :=
  { d with
    exp := d.exp.map (·.behind u)
    arg := d.arg.map (·.behind u)
    modifiers := d.modifiers.map (·.behind u)
    loc := d.loc.behind u }

def Property.behind : Property → Property
  | .attribute a => .attribute (a.behind u)
  | .directive d => .directive (d.behind u)

def Element.behind (e : Element) : Element :=
  { e with
    props := e.props.map (·.behind u)
    loc := e.loc.behind u }

mutual
/-- A node that stands behind `u`, with all that it holds. -/
def Node.behind : Node → Node
  | .element e children => .element (e.behind u) (Node.listBehind children)
  | .text t => .text (t.behind u)
  | .comment c => .comment (c.behind u)
  | .interpolation i => .interpolation (i.behind u)

/-- Nodes that stand behind `u`. -/
def Node.listBehind : List Node → List Node
  | [] => []
  | node :: nodes => node.behind :: Node.listBehind nodes
end

def ParseError.behind (e : ParseError) : ParseError :=
  { e with loc := e.loc.map (·.behind u) }

/-- The options for a template that stands behind `u`: the rules of the platform are asked about
    elements where they come to stand. -/
def Options.behind (o : Options) : Options :=
  { o with
    namespaceOf := fun tag parent => o.namespaceOf tag (parent.map (·.behind u))
    textModeOf := fun e parent => o.textModeOf (e.behind u) (parent.map (·.behind u)) }

end

/-- The rules of the platform do not look at where elements stand. -/
structure Options.PlaceFree (o : Options) : Prop where
  namespaceOf : ∀ u tag parent,
    o.namespaceOf tag (parent.map (Element.behind u)) = o.namespaceOf tag parent
  textModeOf : ∀ u e parent,
    o.textModeOf (Element.behind u e) (parent.map (Element.behind u)) = o.textModeOf e parent

theorem Options.PlaceFree.behind_eq {o : Options} (h : o.PlaceFree) (u : List Char) :
    o.behind u = o := by
  have names : (o.behind u).namespaceOf = o.namespaceOf := by
    funext tag parent
    exact h.namespaceOf u tag parent
  have modes : (o.behind u).textModeOf = o.textModeOf := by
    funext e parent
    exact h.textModeOf u e parent
  cases o
  simp only [Options.behind] at names modes ⊢
  rw [names, modes]

/-- The rules of the browser platform look at names and values alone. -/
theorem Dom.options_placeFree : Dom.options.PlaceFree where
  namespaceOf u tag parent := by
    cases parent with
    | none => rfl
    | some p =>
        have encoding : ∀ x : Property, Dom.isHtmlEncoding (x.behind u) = Dom.isHtmlEncoding x
          | .attribute a => by
              simp only [Property.behind, Attribute.behind, Dom.isHtmlEncoding, Option.any_map]
              rfl
          | .directive _ => rfl
        have declared : (p.behind u).props.any Dom.isHtmlEncoding =
            p.props.any Dom.isHtmlEncoding := by
          simp only [Element.behind, List.any_map, Function.comp_def, encoding]
        have inherited : Dom.inherited tag (p.behind u) = Dom.inherited tag p := by
          simp only [Dom.inherited, declared]
          rfl
        simp only [Dom.options, Dom.namespaceOf, Option.map_some, Option.elim_some, inherited]
  textModeOf _ _ _ := rfl

theorem Node.listBehind_eq_map (u : List Char) (nodes : List Node) :
    Node.listBehind u nodes = nodes.map (Node.behind u) := by
  induction nodes with
  | nil => rfl
  | cons node nodes ih => rw [listBehind, ih, List.map_cons]

theorem Node.element_behind (u : List Char) (e : Element) (children : List Node) :
    (Node.element e children).behind u = .element (e.behind u) (children.map (Node.behind u)) := by
  rw [behind, listBehind_eq_map]

@[simp]
theorem Node.kind_behind (u : List Char) (node : Node) : (node.behind u).kind = node.kind := by
  cases node <;> rfl

/-! ## Behind nothing -/

theorem Location.behind_nil (l : Location) : l.behind [] = l := by
  simp only [behind, Position.behind_nil]

theorem Expression.behind_nil (e : Expression) : e.behind [] = e := by
  simp only [behind, Location.behind_nil]

theorem TextNode.behind_nil (t : TextNode) : t.behind [] = t := by
  simp only [behind, Location.behind_nil]

theorem Attribute.behind_nil (a : Attribute) : a.behind [] = a := by
  have value : a.value.map (TextNode.behind []) = a.value := by
    cases a.value <;> simp [TextNode.behind_nil]
  simp only [behind, Location.behind_nil, value]

theorem Directive.behind_nil (d : Directive) : d.behind [] = d := by
  have part : ∀ e : Option Expression, e.map (Expression.behind []) = e := by
    intro e
    cases e <;> simp [Expression.behind_nil]
  have parts : d.modifiers.map (Expression.behind []) = d.modifiers := by
    rw [funext Expression.behind_nil]
    exact List.map_id _
  simp only [behind, Location.behind_nil, part, parts]

theorem Property.behind_nil (p : Property) : p.behind [] = p := by
  cases p with
  | _ => simp only [behind, Attribute.behind_nil, Directive.behind_nil]

theorem Element.behind_nil (e : Element) : e.behind [] = e := by
  have props : e.props.map (Property.behind []) = e.props := by
    rw [funext Property.behind_nil]
    exact List.map_id _
  simp only [behind, Location.behind_nil, props]

mutual
theorem Node.behind_nil (node : Node) : node.behind [] = node := by
  cases node with
  | element e children => rw [behind, Element.behind_nil, listBehind_nil children]
  | text t => rw [behind, TextNode.behind_nil]
  | comment c => rw [behind, Comment.behind, Location.behind_nil]
  | interpolation i =>
      rw [behind, Interpolation.behind, Expression.behind_nil, Location.behind_nil]
termination_by sizeOf node

theorem Node.listBehind_nil (nodes : List Node) : listBehind [] nodes = nodes := by
  cases nodes with
  | nil => rfl
  | cons node nodes => rw [listBehind, behind_nil node, listBehind_nil nodes]
termination_by sizeOf nodes
end

theorem Options.behind_nil (o : Options) : o.behind [] = o := by
  simp only [behind, Element.behind_nil, Option.map_id']

end Stencil
