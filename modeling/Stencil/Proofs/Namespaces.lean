import Mathlib.Data.List.Chain
import Stencil.Proofs.RoundTrip

/-! # Where foreign namespaces come from

On the browser platform the namespace of an element follows from its tag and from its parent, and
the parent that counts is the innermost element that is open. In a finished tree that is the parent
there, whatever closed the elements in between. So the namespace of an element can be read off its
ancestors: SVG goes back to an `svg` with no integration point on the way, and MathML to a `math`.
-/

namespace Stencil

/-- The elements that a path leads through, innermost first. The path starts below `above`. -/
def Node.lineage (nodes : List Node) (above : List Element) : List Nat → List Element
  | [] => above
  | i :: path =>
    match nodes[i]? with
    | some (.element e children) => lineage children (e :: above) path
    | some (.text _) | some (.comment _) | some (.interpolation _) | none => above

/-- A lineage has a `root` among its elements, and from there down to the innermost one each child
    is tied to its parent by `link`. -/
def Element.StemsFrom (root : Element → Prop) (link : Element → Element → Prop)
    (lineage : List Element) : Prop :=
  ∃ inner e outer, lineage = inner ++ e :: outer ∧ root e ∧ (inner ++ [e]).IsChain link

namespace Dom

/-- An element that starts SVG. -/
def IsSvgRoot (e : Element) : Prop :=
  e.tag = "svg".toList ∧ e.ns = .svg

/-- SVG goes on from an element to its children. -/
def KeepsSvg (_child parent : Element) : Prop :=
  parent.tag ∉ ["foreignObject", "desc", "title"].map String.toList

/-- An element that starts MathML. -/
def IsMathRoot (e : Element) : Prop :=
  e.tag = "math".toList ∧ e.ns = .mathMl

/-- MathML goes on from an element to one of its children. -/
structure KeepsMathMl (child parent : Element) : Prop where
  text : parent.tag ∈ ["mi", "mo", "mn", "ms", "mtext"].map String.toList →
    child.tag = "mglyph".toList ∨ child.tag = "malignmark".toList
  notSvg : parent.tag = "annotation-xml".toList → child.tag ≠ "svg".toList
  notHtml : parent.tag = "annotation-xml".toList → ∀ a, .attribute a ∈ parent.props →
    a.name = "encoding".toList →
      ∀ v ∈ a.value, v.content ≠ "text/html".toList ∧ v.content ≠ "application/xhtml+xml".toList

end Dom

/-! ## One step down -/

theorem Tag.isOneOf_iff {table : List String} {tag : List Char} :
    isOneOf table tag = true ↔ tag ∈ table.map String.toList := by
  rw [isOneOf, List.contains_iff_mem, List.mem_map]
  constructor
  · exact fun member => ⟨_, member, String.toList_ofList⟩
  · rintro ⟨name, member, rfl⟩
    rwa [String.ofList_toList]

namespace Dom

variable {tag : List Char} {c p q : Element} {parent : Option Element}

theorem keepsSvg_iff : KeepsSvg c p ↔ Tag.isOneOf Tag.svgIntegrationPoints p.tag = false := by
  rw [← Bool.not_eq_true, Tag.isOneOf_iff]
  rfl

/-- No attribute declares the content to be HTML. -/
theorem any_isHtmlEncoding_eq_false : p.props.any isHtmlEncoding = false ↔
    ∀ a, .attribute a ∈ p.props → a.name = "encoding".toList → ∀ v ∈ a.value,
      v.content ≠ "text/html".toList ∧ v.content ≠ "application/xhtml+xml".toList := by
  rw [List.any_eq_false]
  constructor
  · intro none a member name v value
    have plain := none (.attribute a) member
    rw [Option.mem_def] at value
    simpa [isHtmlEncoding, name, value] using plain
  · intro none prop member html
    match prop, html with
    | .attribute a, html =>
        simp only [isHtmlEncoding, Bool.and_eq_true, beq_iff_eq, Option.any_eq_true,
          Bool.or_eq_true] at html
        obtain ⟨name, v, value, content⟩ := html
        obtain ⟨first, second⟩ := none a member name v value
        exact content.elim first second

/-- The namespace of a child depends on little of its parent. -/
theorem namespaceOf_congr (ns : p.ns = q.ns) (name : p.tag = q.tag) (props : p.props = q.props)
    (tag : List Char) : namespaceOf tag (some p) = namespaceOf tag (some q) := by
  simp only [namespaceOf, inherited, Option.elim_some, ns, name, props]

theorem inherited_of_svg (svg : p.ns = .svg) :
    inherited c.tag p = .svg ↔ KeepsSvg c p := by
  rw [keepsSvg_iff]
  cases point : Tag.isOneOf Tag.svgIntegrationPoints p.tag <;> simp [inherited, svg, point]

theorem inherited_of_mathMl (mathMl : p.ns = .mathMl) :
    inherited c.tag p = .mathMl ↔ KeepsMathMl c p := by
  simp only [inherited, mathMl]
  by_cases annotated : p.tag = "annotation-xml".toList
  · have keeps : KeepsMathMl c p ↔
        c.tag ≠ "svg".toList ∧ p.props.any isHtmlEncoding = false := by
      rw [any_isHtmlEncoding_eq_false]
      refine ⟨fun h => ⟨h.notSvg annotated, h.notHtml annotated⟩, fun ⟨svg, html⟩ => ?_⟩
      have other : p.tag ∉ ["mi", "mo", "mn", "ms", "mtext"].map String.toList := by
        rw [annotated]
        decide
      exact ⟨(absurd · other), fun _ => svg, fun _ => html⟩
    rw [keeps, if_pos (beq_iff_eq.mpr annotated)]
    by_cases svg : c.tag = "svg".toList
    · simp only [beq_iff_eq, svg, if_true, ne_eq, not_true, false_and, reduceCtorEq]
    · cases html : p.props.any isHtmlEncoding <;>
        simp only [beq_iff_eq, svg, if_false, ne_eq, not_false_eq_true, true_and, reduceCtorEq,
          Bool.false_eq_true, if_true]
  · have keeps : KeepsMathMl c p ↔ (Tag.isOneOf Tag.mathMlIntegrationPoints p.tag = true →
        c.tag = "mglyph".toList ∨ c.tag = "malignmark".toList) := by
      rw [Tag.isOneOf_iff]
      exact ⟨fun h => h.text, fun text => ⟨text, (absurd · annotated), (absurd · annotated)⟩⟩
    rw [keeps, if_neg (mt beq_iff_eq.mp annotated)]
    split
    · next html =>
      simp only [Bool.and_eq_true, bne_iff_ne] at html
      simp only [reduceCtorEq, html.1.1, html.1.2, html.2, or_self, forall_const]
    · next other =>
      simp only [Bool.and_eq_true, bne_iff_ne, not_and_or, not_not, or_assoc] at other
      exact iff_of_true rfl fun point => other.resolve_left (not_not.mpr point)

/-- Where SVG goes on, the parent is SVG already, except that an annotation may hold an `svg`. -/
theorem ns_of_inherited_svg (h : inherited tag p = .svg) : p.ns = .svg ∨ tag = "svg".toList := by
  unfold inherited at h
  split at h
  · cases h
  · next svg => exact .inl svg
  · split at h
    · split at h
      · next svg => exact .inr (beq_iff_eq.mp svg)
      · split at h <;> cases h
    · split at h <;> cases h

theorem ns_of_inherited_mathMl (h : inherited tag p = .mathMl) : p.ns = .mathMl := by
  unfold inherited at h
  split at h
  · cases h
  · split at h <;> cases h
  · next mathMl => exact mathMl

/-- A namespace other than HTML starts at the element, or goes on from the parent. -/
theorem foreign_up {ns : Namespace} (foreign : ns ≠ .html) (h : namespaceOf tag parent = ns) :
    (tag = "svg".toList ∧ ns = .svg ∨ tag = "math".toList ∧ ns = .mathMl) ∨
      ∃ p ∈ parent, inherited tag p = ns := by
  unfold namespaceOf at h
  split at h
  · split at h
    · next svg => exact .inl (.inl ⟨beq_iff_eq.mp svg, h.symm⟩)
    · split at h
      · next math => exact .inl (.inr ⟨beq_iff_eq.mp math, h.symm⟩)
      · exact absurd h.symm foreign
  all_goals
    next inherits =>
    cases parent with
    | none => cases inherits
    | some p => exact .inr ⟨p, rfl, inherits.trans h⟩

theorem svg_up (h : namespaceOf c.tag parent = .svg) :
    c.tag = "svg".toList ∨ ∃ p ∈ parent, p.ns = .svg ∧ KeepsSvg c p := by
  rcases foreign_up (by decide) h with (⟨svg, _⟩ | ⟨_, other⟩) | ⟨p, member, inherits⟩
  · exact .inl svg
  · cases other
  · rcases ns_of_inherited_svg inherits with svg | svg
    · exact .inr ⟨p, member, svg, (inherited_of_svg svg).mp inherits⟩
    · exact .inl svg

theorem svg_down (svg : p.ns = .svg) (keeps : KeepsSvg c p) :
    namespaceOf c.tag (some p) = .svg := by
  rw [namespaceOf, Option.elim_some, (inherited_of_svg svg).mpr keeps]

theorem mathMl_up (h : namespaceOf c.tag parent = .mathMl) :
    c.tag = "math".toList ∨ ∃ p ∈ parent, p.ns = .mathMl ∧ KeepsMathMl c p := by
  rcases foreign_up (by decide) h with (⟨_, other⟩ | ⟨math, _⟩) | ⟨p, member, inherits⟩
  · cases other
  · exact .inl math
  · have mathMl := ns_of_inherited_mathMl inherits
    exact .inr ⟨p, member, mathMl, (inherited_of_mathMl mathMl).mp inherits⟩

theorem mathMl_down (mathMl : p.ns = .mathMl) (keeps : KeepsMathMl c p) :
    namespaceOf c.tag (some p) = .mathMl := by
  rw [namespaceOf, Option.elim_some, (inherited_of_mathMl mathMl).mpr keeps]

end Dom

/-! ## Along a lineage -/

namespace Element

variable {root : Element → Prop} {link : Element → Element → Prop} {e : Element}
  {above : List Element}

theorem not_stemsFrom_nil : ¬StemsFrom root link [] := by
  rintro ⟨inner, e, outer, split, _⟩
  simp at split

theorem stemsFrom_cons : StemsFrom root link (e :: above) ↔
    root e ∨ (∀ p ∈ above.head?, link e p) ∧ StemsFrom root link above := by
  have head (inner outer : List Element) (x : Element) :
      (inner ++ x :: outer).head? = (inner ++ [x]).head? := by
    cases inner <;> rfl
  constructor
  · rintro ⟨inner, x, outer, split, isRoot, chain⟩
    cases inner with
    | nil =>
        cases split
        exact .inl isRoot
    | cons y inner =>
        rw [List.cons_append, List.cons.injEq] at split
        obtain ⟨rfl, rfl⟩ := split
        rw [List.cons_append, List.isChain_cons] at chain
        rw [head]
        exact .inr ⟨chain.1, inner, x, outer, rfl, isRoot, chain.2⟩
  · rintro (isRoot | ⟨links, inner, x, outer, rfl, isRoot, chain⟩)
    · exact ⟨[], e, above, rfl, isRoot, .singleton e⟩
    · refine ⟨e :: inner, x, outer, rfl, isRoot, ?_⟩
      rw [List.cons_append, List.isChain_cons]
      rw [head] at links
      exact ⟨links, chain⟩

end Element

namespace Dom

/-- Each element of a lineage has the namespace that its tag has in its parent. -/
def Descends : List Element → Prop
  | [] => True
  | e :: above => e.ns = namespaceOf e.tag above.head? ∧ Descends above

variable {root : Element → Prop} {link : Element → Element → Prop} {ns : Namespace} {e : Element}
  {above : List Element}

/-- What decides on one step about a namespace decides on it along the whole lineage. -/
theorem Descends.ns_eq_iff (h : Descends (e :: above)) (start : ∀ {c}, root c → c.ns = ns)
    (up : ∀ {c parent}, c.ns = namespaceOf c.tag parent → c.ns = ns →
      root c ∨ ∃ p ∈ parent, p.ns = ns ∧ link c p)
    (down : ∀ {c p}, c.ns = namespaceOf c.tag (some p) → p.ns = ns → link c p → c.ns = ns) :
    e.ns = ns ↔ Element.StemsFrom root link (e :: above) := by
  induction above generalizing e with
  | nil =>
      rw [Element.stemsFrom_cons, or_iff_left fun h => Element.not_stemsFrom_nil h.2]
      refine ⟨fun same => (up h.1 same).resolve_right ?_, start⟩
      rintro ⟨_, member, _⟩
      cases member
  | cons p above ih =>
      obtain ⟨here, rest⟩ := h
      rw [Element.stemsFrom_cons, ← ih rest]
      simp only [List.head?_cons, Option.mem_def, Option.some.injEq, forall_eq']
      constructor
      · intro same
        refine (up here same).imp_right ?_
        rintro ⟨_, member, parent, tied⟩
        cases member
        exact ⟨tied, parent⟩
      · rintro (isRoot | ⟨tied, parent⟩)
        · exact start isRoot
        · exact down here parent tied

theorem Descends.svg_iff (h : Descends (e :: above)) :
    e.ns = .svg ↔ Element.StemsFrom IsSvgRoot KeepsSvg (e :: above) := by
  refine h.ns_eq_iff And.right (fun {c parent} here same => ?_) fun here svg keeps => ?_
  · exact (svg_up (here.symm.trans same)).imp_left (⟨·, same⟩)
  · exact here.trans (svg_down svg keeps)

theorem Descends.mathMl_of_stemsFrom (h : Descends (e :: above))
    (stems : Element.StemsFrom IsMathRoot KeepsMathMl (e :: above)) : e.ns = .mathMl := by
  refine (h.ns_eq_iff And.right (fun {c parent} here same => ?_) fun here mathMl keeps => ?_).mpr
    stems
  · exact (mathMl_up (here.symm.trans same)).imp_left (⟨·, same⟩)
  · exact here.trans (mathMl_down mathMl keeps)

/-- From its `math` on, everything down to an element of MathML is MathML. -/
theorem Descends.stemsFrom_of_mathMl (h : Descends (e :: above)) (mathMl : e.ns = .mathMl) :
    Element.StemsFrom IsMathRoot (fun c p => c.ns = .mathMl ∧ KeepsMathMl c p) (e :: above) := by
  refine (h.ns_eq_iff And.right (fun {c parent} here same => ?_) fun _ _ keeps => keeps.1).mp mathMl
  rcases mathMl_up (here.symm.trans same) with math | ⟨p, member, mathMl, keeps⟩
  · exact .inl ⟨math, same⟩
  · exact .inr ⟨p, member, mathMl, same, keeps⟩

end Dom

/-! ## In a tree -/

/-- Every element of a node has the namespace that its tag has in its parent; `parent` is the parent
    of the node. -/
inductive Node.Resolved : Option Element → Node → Prop where
  | leaf {parent : Option Element} {node : Node} (leaf : node.kind ≠ .element) :
      Resolved parent node
  | element {parent : Option Element} {e : Element} {children : List Node}
      (ns : e.ns = Dom.namespaceOf e.tag parent) (inner : ∀ n ∈ children, Resolved (some e) n) :
      Resolved parent (.element e children)

namespace Node

variable {node : Node} {nodes : List Node} {path : List Nat} {e : Element} {above : List Element}

theorem Resolved.text (parent : Option Element) (t : TextNode) :
    (Node.text t).Resolved parent :=
  .leaf nofun

theorem Resolved.congr {p q : Element} (h : node.Resolved (some p)) (ns : p.ns = q.ns)
    (name : p.tag = q.tag) (props : p.props = q.props) : node.Resolved (some q) := by
  cases h with
  | leaf leaf => exact .leaf leaf
  | element here inner =>
      exact .element (here.trans (Dom.namespaceOf_congr ns name props _)) inner

theorem exists_lineage {children : List Node} (found : at? nodes path = some (.element e children))
    (above : List Element) : ∃ outer, lineage nodes above path = e :: outer := by
  fun_induction at? nodes path generalizing above with
  | case1 => cases found
  | case2 nodes i =>
      rw [lineage, found]
      exact ⟨above, rfl⟩
  | case3 nodes i j path parent parentAt ih =>
      cases parent with
      | text | comment | interpolation =>
          rw [Node.children] at found
          cases path <;> cases found
      | element a inner =>
          rw [lineage, parentAt]
          exact ih found (a :: above)
  | case4 => cases found

theorem descends_lineage (h : ∀ n ∈ nodes, n.Resolved above.head?) (outer : Dom.Descends above) :
    Dom.Descends (lineage nodes above path) := by
  induction path generalizing nodes above with
  | nil => exact outer
  | cons i path ih =>
      rw [lineage]
      split
      · next e children here =>
        have resolved := h _ (List.mem_of_getElem? here)
        cases resolved with
        | leaf leaf => exact absurd rfl leaf
        | element ns inner => exact ih inner ⟨ns, outer⟩
      all_goals exact outer

end Node

/-! ## In every state -/

namespace State

variable {o : Options} {source : List Char} {s t : State} {node : Node} {nodes : List Node}
  {e : OpenElement} {stack : List OpenElement}

/-- Every open element has the namespace that its tag has in the next one, and so have the children
    that it has so far. -/
def StackResolved (roots : List Node) : List OpenElement → Prop
  | [] => ∀ n ∈ roots, n.Resolved none
  | e :: stack =>
    e.element.ns = Dom.namespaceOf e.element.tag (stack.head?.map (·.element)) ∧
      (∀ n ∈ e.children, n.Resolved (some e.element)) ∧ StackResolved roots stack

/-- Every element of a state has the namespace that its tag has in its parent. -/
def Resolved (s : State) : Prop :=
  StackResolved s.roots s.stack

theorem Resolved.add (h : Resolved s) (k : node.Resolved s.parent) : Resolved (s.add node) := by
  unfold Resolved parent at *
  unfold State.add
  split
  · next empty =>
    rw [empty] at h k
    dsimp only
    rw [empty]
    exact Siblings.forall_push (.text _) h k
  · next e stack top =>
    rw [top] at h k
    exact ⟨h.1, Siblings.forall_push (.text _) h.2.1 k, h.2.2⟩

theorem Resolved.addLeaves (h : Resolved s) (leaves : ∀ n ∈ nodes, n.kind ≠ .element) :
    Resolved (s.addAll nodes) := by
  induction nodes generalizing s with
  | nil => exact h
  | cons node nodes ih =>
      obtain ⟨first, rest⟩ := List.forall_mem_cons.mp leaves
      exact ih (h.add (.leaf first)) rest

section

variable (modern : o.legacy = none) (dom : o.namespaceOf = Dom.namespaceOf)

include modern

/-- An element that is closed is the one that was opened, and its parent is the next open one. -/
theorem Resolved.closeElement (h : Resolved s) (top : s.stack = e :: stack) :
    Resolved (s.closeElement o source e stack) := by
  unfold Resolved at h
  rw [top] at h
  obtain ⟨ns, children, below⟩ := h
  have filled : (s.filled o e).1 = e.element := congrArg Prod.fst (withInlineTemplate_eq modern _ _)
  rw [closeElement_eq, addElement_eq modern]
  refine Resolved.add ?_ ?_
  · simp only [Resolved, afterEndTag, stack_readEndTag, (flags_readEndTag o _ _ _).2]
    exact below
  · simp only [parent, afterEndTag, stack_readEndTag, stack_report, closed, filled]
    refine .element ns fun n hn => ?_
    have inner := forall_finishedChildren (.text _) o source s.flags.pre children n hn
    exact inner.congr rfl rfl rfl

include dom

theorem Opening.resolved (k : Opening o s t) (h : Resolved s) : Resolved t := by
  have ns : (s.started o).1.ns = Dom.namespaceOf (s.started o).1.tag s.parent := by
    rw [← dom]
    rfl
  have element : (Node.element (s.started o).1 []).Resolved s.parent :=
    .element ns fun _ hn => nomatch hn
  cases k with
  | empty =>
      rw [addElement_eq modern]
      exact Resolved.add (s := s.afterStartTag o) h element
  | tooDeep =>
      rw [addElement_eq modern]
      exact Resolved.add (s := (s.afterStartTag o).reportAt _ _) h element
  | opened => exact ⟨ns, fun _ hn => (nomatch hn), h⟩

theorem Step.resolved (k : Step o source s t) (h : Resolved s) : Resolved t := by
  cases k with
  | close _ top => exact h.closeElement modern top
  | text => exact Resolved.add (s := (s.report _).after _) h (.text _ _)
  | interpolation => exact Resolved.add (s := s.after _) h (.leaf nofun)
  | comment => exact Resolved.add (s := (s.report _).after _) h (.leaf nofun)
  | cdata =>
      refine Resolved.addLeaves (s := s.after _) h ?_
      refine Siblings.forall_settle (fun _ => nofun) o source _ _ fun n hn => ?_
      obtain ⟨t, _, rfl⟩ := List.mem_map.mp hn
      exact nofun
  | namelessEndTag => exact h
  | strayEndTag => exact h
  | startTag => exact (openElement_cases o s).resolved modern dom h

theorem Reachable.resolved (h : Reachable o source s) : Resolved s := by
  induction h with
  | initial => exact fun _ hn => nomatch hn
  | step _ goes ih => exact (step_cases goes).resolved modern dom ih

end

end State

theorem parse_resolved {o : Options} (modern : o.legacy = none)
    (dom : o.namespaceOf = Dom.namespaceOf) (source : List Char) :
    ∀ n ∈ (parse o source).root.children, n.Resolved none := by
  obtain ⟨s, reachable, done, result⟩ := State.exists_reachable_result o source
  have roots := reachable.resolved modern dom
  unfold State.Resolved at roots
  rw [(State.rest_of_isDone done).1] at roots
  rw [result]
  refine Siblings.forall_settle (.text _) o source _ _ fun n hn => ?_
  exact roots n (List.mem_reverse.mp hn)

/-- Where foreign namespaces come from, on the browser platform and with nothing legacy. An element
    is one of SVG if and only if it or an ancestor is an `svg` of SVG, with no integration point of
    SVG from there on above the element. An element of MathML has a `math` of MathML at or above it,
    with nothing but MathML in between and no step down at which MathML is left; and where there is
    such a `math`, the element is one of MathML. -/
theorem parse_namespaces (o : Options) (modern : o.legacy = none)
    (dom : o.namespaceOf = Dom.namespaceOf) (source : List Char) (path : List Nat) (e : Element)
    (children : List Node)
    (found : Node.at? (parse o source).root.children path = some (.element e children)) :
    ∃ above, Node.lineage (parse o source).root.children [] path = e :: above ∧
      (e.ns = .svg ↔ Element.StemsFrom Dom.IsSvgRoot Dom.KeepsSvg (e :: above)) ∧
      (e.ns = .mathMl → Element.StemsFrom Dom.IsMathRoot
        (fun c p => c.ns = .mathMl ∧ Dom.KeepsMathMl c p) (e :: above)) ∧
      (Element.StemsFrom Dom.IsMathRoot Dom.KeepsMathMl (e :: above) → e.ns = .mathMl) := by
  obtain ⟨above, lineage⟩ := Node.exists_lineage found []
  have descends : Dom.Descends (Node.lineage (parse o source).root.children [] path) :=
    Node.descends_lineage (parse_resolved modern dom source) trivial
  rw [lineage] at descends
  exact ⟨above, lineage, descends.svg_iff, descends.stemsFrom_of_mathMl,
    descends.mathMl_of_stemsFrom⟩

theorem lineage_of_glyph :
    let source := "<svg><desc><math><mi><b></b><mglyph></mglyph></desc><g></g></svg>".toList
    let nodes := (parse Dom.options source).root.children
    ((Node.at? nodes [0, 0, 0, 0, 1]).any fun
      | .element e _ => e.ns == .mathMl
      | _ => false) = true ∧
    (Node.lineage nodes [] [0, 0, 0, 0, 1]).map (·.tag) =
      ["mglyph", "mi", "math", "desc", "svg"].map String.toList := by decide +kernel

/-- An element of MathML in an element for text, where other elements are of HTML, inside of an
    integration point of SVG that closes it. -/
theorem parse_namespaces_glyph :
    let source := "<svg><desc><math><mi><b></b><mglyph></mglyph></desc><g></g></svg>".toList
    let nodes := (parse Dom.options source).root.children
    Dom.options.legacy = none ∧ Dom.options.namespaceOf = Dom.namespaceOf ∧
    ∃ e children above, Node.at? nodes [0, 0, 0, 0, 1] = some (.element e children) ∧
      Node.lineage nodes [] [0, 0, 0, 0, 1] = e :: above ∧
      (e :: above).map (·.tag) = ["mglyph", "mi", "math", "desc", "svg"].map String.toList ∧
      e.ns = .mathMl ∧ ¬Element.StemsFrom Dom.IsSvgRoot Dom.KeepsSvg (e :: above) ∧
      Element.StemsFrom Dom.IsMathRoot
        (fun c p => c.ns = .mathMl ∧ Dom.KeepsMathMl c p) (e :: above) := by
  intro source nodes
  obtain ⟨here, tags⟩ := lineage_of_glyph
  obtain ⟨node, found, mathMl⟩ := (Option.any_eq_true _ _).mp here
  cases node with
  | element e children =>
      have mathMl : e.ns = .mathMl := beq_iff_eq.mp mathMl
      obtain ⟨above, lineage, svg, math, _⟩ :=
        parse_namespaces Dom.options rfl rfl source [0, 0, 0, 0, 1] e children found
      rw [lineage] at tags
      refine ⟨rfl, rfl, e, children, above, found, lineage, tags, mathMl, fun stems => ?_,
        math mathMl⟩
      exact absurd (mathMl.symm.trans (svg.mpr stems)) (by decide)
  | text | comment | interpolation => cases mathMl

end Stencil
