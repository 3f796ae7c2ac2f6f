import Stencil.Proofs.Containment
import Stencil.Proofs.Excerpt.State

/-! # Locality

A template that is put behind another one is read as it is on its own, if the seam is one between
two elements and the rules of the platform do not look at places. The first template is an excerpt
that the second one follows, the second one is an excerpt that stands behind the first, and between
them everything is as at the start.
-/

namespace Stencil

/-- A text that starts with markup does not complete a delimiter without that mark. -/
theorem Text.seamless_mark {needle y t : List Char} (other : '<' ∉ needle)
    (starts : t.head? = some '<') : Seamless needle.isPrefixOf t y := by
  rintro x z rfl more
  obtain ⟨t, rfl⟩ := List.head?_eq_some_iff.mp starts
  rcases Nat.lt_or_ge z.length needle.length with cut | fits
  · have long : ¬needle <+: z ++ '<' :: t := by
      rintro ⟨w, split⟩
      have mark : (needle ++ w)[z.length]? = some '<' := by rw [split]; simp
      rw [List.getElem?_append_left cut] at mark
      exact other (List.mem_of_getElem? mark)
    have short : ¬needle <+: z := fun starts => Nat.not_le_of_lt cut starts.length_le
    rw [Bool.eq_iff_iff, List.isPrefixOf_iff_prefix, List.isPrefixOf_iff_prefix]
    exact iff_of_false long short
  · exact isPrefixOf_append_of_le fits

namespace Siblings

theorem getLast?_push {node : Node} {nodes : List Node}
    (h : nodes.getLast?.map Node.kind = some .element) :
    (push node nodes).getLast?.map Node.kind = some .element := by
  have kept : ∀ (n : Node) {rest : List Node}, rest.getLast?.map Node.kind = some .element →
      (n :: rest).getLast?.map Node.kind = some .element := by
    intro n rest last
    cases rest with
    | nil => cases last
    | cons m rest => rwa [List.getLast?_cons_cons]
  unfold push
  split
  · next x prev rest =>
    split
    · cases rest with
      | nil => cases h
      | cons m rest => exact kept _ (by rwa [List.getLast?_cons_cons] at h)
    · exact kept _ h
  · exact kept _ h

end Siblings

namespace State

variable {o : Options} {u t text : List Char} {base long short s : State}

/-! ## Reading an excerpt to its end -/

/-- Outside of all elements, markup ends a text. -/
theorem endsAt_mark {mode : TextMode} (data : mode = .data) (starts : t.head? = some '<') :
    TextNode.endsAt o mode t = true := by
  simp [data, TextNode.endsAt, starts]

/-- Reading goes through every state of reading an excerpt, if nothing follows the excerpt, or if
    markup follows it and it has no errors of its own. -/
theorem Embeds.run (modern : o.legacy = none) (seam : Seam o t text) (clear : base.Clear)
    (sound : t = [] ∨ t.head? = some '<' ∧ (parse (o.behind u) text).errors = [])
    (reached : Reachable o (u ++ text ++ t) long) (start : Embeds u t base long (initial text))
    (h : Reachable (o.behind u) text short) :
    ∃ long', Reachable o (u ++ text ++ t) long' ∧ Embeds u t base long' short := by
  induction h with
  | initial => exact ⟨long, reached, start⟩
  | @step s reachable goes ih =>
      obtain ⟨long', reached', embeds⟩ := ih
      have next := reachable.step goes
      have more : s.cursor.rest ≠ [] ∨ t = [] := by
        refine sound.symm.imp_left fun quiet none => ?_
        cases top : s.stack with
        | nil => simp [isDone, State.atEnd, Cursor.atEnd, top, none] at goes
        | cons e stack => exact reachable.rest_ne_nil quiet.2 (by simp [top]) none
      rcases embeds.step modern seam reachable goes more (fun _ => clear) (fun _ _ _ => clear) with
        same | parts
      · refine ⟨_, reached'.step ?_, same⟩
        cases top : s.stack with
        | cons e stack =>
            rw [isDone, embeds.stack, top]
            rfl
        | nil =>
            have rest : s.cursor.rest ≠ [] := by
              intro none
              simp [isDone, State.atEnd, Cursor.atEnd, top, none] at goes
            have empty : long'.stack = [] := by rw [embeds.stack, top, clear.1]; rfl
            simp [isDone, State.atEnd, Cursor.atEnd, State.mode, empty, embeds.cursor, rest]
      · cases parts with
        | outside around => exact absurd clear.1 around
        | runsOver far cut =>
            rcases sound with rfl | ⟨mark, quiet⟩
            · exact absurd far (Nat.not_lt_zero _)
            · rcases cut with failed | ⟨none, goes⟩
              · exact absurd (next.errors_eq_nil quiet) failed
              · cases top : (s.step (o.behind u) text).stack with
                | cons e stack =>
                    exact absurd none (next.rest_ne_nil quiet (by simp [top]))
                | nil =>
                    rw [endsAt_mark (by rw [State.mode, top]; rfl) mark] at goes
                    cases goes

/-! ## The nodes at the seam -/

/-- The last step of reading a template that ends with an element adds an element. -/
theorem Reachable.head?_roots (modern : o.legacy = none) (h : Reachable o text s)
    (done : s.isDone = true) {e : Element} {children : List Node}
    (member : Node.element e children ∈ (s.result o text).root.children)
    (ends : e.loc.stop.offset = Text.byteLength text) :
    s.roots.head?.map Node.kind = some .element := by
  have outside := (rest_of_isDone done).1
  have read : ∀ n ∈ (s.result o text).root.children, n.kind = .element → n ∈ s.roots :=
    Siblings.forall_settle (fun _ => nofun) o text _ _
      fun _ member _ => List.mem_reverse.mp member
  have last := read _ member rfl
  cases h with
  | initial => cases last
  | @step s' reachable goes =>
      -- before the last step, the template has not been read to its end
      have early : s'.stack = [] → Node.element e children ∉ s'.roots := by
        intro empty member
        have placed := reachable.placed
        have nodes := placed.nodes
        rw [empty] at nodes
        have inside := (Node.ListSpans.ordered nodes).1 _ (List.mem_reverse.mpr member)
        have bound : e.loc.stop.offset ≤ s'.cursor.position.offset := inside.2.2
        have rest : s'.cursor.rest ≠ [] := by
          intro none
          simp [isDone, atEnd, Cursor.atEnd, empty, none] at goes
        have total := placed.inside.rest_eq
        have offset := placed.inside.offset_eq
        change text = _ at total
        change s'.cursor.position.offset = 0 + _ at offset
        have width : 0 < Text.byteLength s'.cursor.rest :=
          Nat.pos_of_ne_zero fun zero => rest (Text.byteLength_eq_zero zero)
        rw [total, Text.byteLength_append] at ends
        omega
      cases (step_cases goes).roots modern with
      | kept roots empty =>
          rw [roots] at last
          exact absurd last (early (empty outside))
      | pushed node roots _ kind =>
          rw [roots]
          cases element : decide (node.kind = .element) with
          | true =>
              have element : node.kind = .element := of_decide_eq_true element
              rw [push_of_ne (by simp [element]), List.head?_cons, Option.map_some, element]
          | false =>
              have leaf : node.kind ≠ .element := of_decide_eq_false element
              have kept : ∀ n ∈ Siblings.push node s'.roots, n.kind = .element → n ∈ s'.roots :=
                Siblings.forall_push (fun _ => nofun)
                  (fun _ member _ => member) fun kind => absurd kind leaf
              rw [roots] at last
              exact absurd (kept _ last rfl) (early (kind.resolve_left leaf))

theorem Opening.getLast?_roots (modern : o.legacy = none) {s' : State} (k : Opening o s s')
    (blank : s.roots = []) (outside : s.stack = []) :
    s'.roots.getLast?.map Node.kind = some .element ∨ s'.roots = [] ∧ s'.stack ≠ [] := by
  cases k with
  | empty | tooDeep =>
      left
      rw [addElement_eq modern]
      simp [add, afterStartTag, reportAt, after, report, blank, outside, Siblings.push, Node.kind]
  | opened => exact .inr ⟨blank, List.cons_ne_nil _ _⟩

/-- The first node of a template that starts with a start tag is an element. -/
theorem Reachable.getLast?_roots (modern : o.legacy = none) (opens : (State.initial text).Opens o)
    (h : Reachable o text s) :
    s = State.initial text ∨ s.roots.getLast?.map Node.kind = some .element ∨
      s.roots = [] ∧ s.stack ≠ [] := by
  induction h with
  | initial => exact .inl rfl
  | @step s _ goes ih =>
      right
      rcases ih with rfl | ih
      · rw [opens.step_eq]
        exact (openElement_cases o _).getLast?_roots modern rfl rfl
      · cases (step_cases goes).roots modern with
        | kept roots empty =>
            rw [roots]
            exact ih.imp_right fun ⟨blank, inside⟩ => ⟨blank, fun outside => inside (empty outside)⟩
        | pushed node roots _ kind =>
            left
            rw [roots]
            rcases ih with last | ⟨blank, inside⟩
            · exact Siblings.getLast?_push last
            · have element := kind.resolve_right inside
              rw [blank, push_of_ne (by rw [element]; exact nofun)]
              exact congrArg some element

/-! ## Templates one behind the other -/

/-- A template without errors that ends with an element ends with a tag. -/
theorem Reachable.getLast?_text (modern : o.legacy = none) (h : Reachable o text s)
    (done : s.isDone = true) (quiet : (parse o text).errors = []) {e : Element}
    {children : List Node} (member : Node.element e children ∈ (parse o text).root.children)
    (ends : e.loc.stop.offset = Text.byteLength text) : text.getLast? = some '>' := by
  have source : e.loc.source.getLast? = some '>' := by
    obtain ⟨_, _, reachable, opens, finished, _⟩ :=
      exists_of_derived modern (parse_derived o text _ member)
    exact finished.getLast?_source reachable opens quiet
  rw [h.parse_eq done] at member
  have spans := Node.listSpans_iff.mp (result_spans (o := o) h.placed done)
  obtain ⟨a, b, left, right, place⟩ := spans.exists_of_mem member Node.Spans.reaches
  obtain ⟨c, d, first, middle, last, loc, _⟩ := place.loc
  change e.loc = c.locationTo d at loc
  rw [loc] at source ends
  have finish : s.cursor.position.offset = Text.byteLength text := by
    have offset := h.placed.inside.offset_eq
    have rest := h.placed.inside.rest_eq
    rw [(rest_of_isDone done).2, List.append_nil] at rest
    change text = _ at rest
    rw [offset, ← rest]
    exact Nat.zero_add _
  have same : d = s.cursor := (last.trans right).eq_of_offset (ends.trans finish.symm)
  have rest := middle.rest_eq
  rw [same, (rest_of_isDone done).2, List.append_nil, ← same] at rest
  have whole := (left.trans first).rest_eq
  change text = _ at whole
  rw [whole, rest, List.getLast?_append]
  change ((c.textTo d).getLast?).or _ = _
  rw [show (c.textTo d).getLast? = some '>' from source]
  rfl

theorem map_behind_nil (nodes : List Node) : nodes.map (Node.behind []) = nodes := by
  rw [funext Node.behind_nil]
  exact List.map_id nodes

variable {s₁ s₂ : List Char} {roots : List Node}

/-- Reading stands before `s₂` as at its start, behind `s₁` with its finished nodes. -/
structure AtSeam (s₁ s₂ : List Char) (roots : List Node) (s : State) : Prop where
  cursor : s.cursor = (initial s₂).cursor.within s₁ []
  stack : s.stack = []
  roots : s.roots = roots
  flags : s.flags = (initial s₂).flags
  errors : s.errors = []

/-- A template without errors is read to its end whatever markup follows it. -/
theorem Reachable.exists_atSeam (modern : o.legacy = none) (seam : Seam o s₂ s₁)
    (mark : s₂.head? = some '<') (h : Reachable o s₁ s) (done : s.isDone = true)
    (quiet : (parse o s₁).errors = []) :
    ∃ s', Reachable o (s₁ ++ s₂) s' ∧ AtSeam s₁ s₂ s.roots s' := by
  have plain := Options.behind_nil o
  have clear : (State.initial []).Clear := ⟨rfl, nofun⟩
  have start : Embeds [] s₂ (State.initial []) (State.initial ([] ++ s₁ ++ s₂))
      (State.initial s₁) :=
    ⟨by simp [State.initial, Cursor.within, Cursor.ofText, Position.behind_nil], rfl, rfl, rfl, rfl⟩
  obtain ⟨s', reached, embeds⟩ := start.run modern seam clear
    (.inr ⟨mark, plain.symm ▸ quiet⟩) .initial (plain.symm ▸ h)
  obtain ⟨outside, read⟩ := rest_of_isDone done
  refine ⟨s', reached, ?_, ?_, ?_, ?_, ?_⟩
  · have inside := h.placed.inside
    have rest := inside.rest_eq
    have position := inside.position_eq
    rw [read, List.append_nil] at rest
    change s₁ = _ at rest
    rw [← rest] at position
    change s.cursor.position = Position.start.past s₁ at position
    rw [embeds.cursor]
    simp only [Cursor.within, State.initial, Cursor.ofText, read, position, Position.behind_nil,
      Position.past_start, Position.start_behind, List.nil_append, List.append_nil]
  · rw [embeds.stack, outside]
    rfl
  · rw [embeds.roots, map_behind_nil]
    exact List.append_nil _
  · rw [embeds.flags]
    exact h.flags_of_nil outside
  · rw [embeds.errors, h.errors_eq_nil quiet]
    rfl

/-- From the seam on, the template is read as on its own. -/
theorem AtSeam.parse_eq (h : AtSeam s₁ s₂ roots s) (modern : o.legacy = none)
    (reachable : Reachable o (s₁ ++ s₂) s) (edge : roots.head?.map Node.kind = some .element)
    (opens : (initial s₂).Opens (o.behind s₁)) :
    (parse o (s₁ ++ s₂)).root.children = Siblings.settle o (s₁ ++ s₂) false false roots.reverse ++
        (parse (o.behind s₁) s₂).root.children.map (Node.behind s₁) ∧
      (parse o (s₁ ++ s₂)).errors =
        (parse (o.behind s₁) s₂).errors.map (ParseError.behind s₁) := by
  have clear : s.Clear := by
    refine ⟨h.stack, ?_⟩
    rw [h.roots, edge]
    exact nofun
  have source : s₁ ++ s₂ ++ [] = s₁ ++ s₂ := List.append_nil _
  obtain ⟨short, reached, done, result⟩ := exists_reachable_result (o.behind s₁) s₂
  have start : Embeds s₁ [] s s (initial s₂) := ⟨h.cursor, rfl, rfl, h.flags, rfl⟩
  obtain ⟨long, reached', embeds⟩ := start.run modern (Seam.nil o s₂) clear (.inl rfl)
    (source.symm ▸ reachable) reached
  obtain ⟨outside, read⟩ := rest_of_isDone done
  rw [source] at reached'
  have done' : long.isDone = true := by
    simp [isDone, atEnd, Cursor.atEnd, embeds.stack, embeds.cursor, outside, h.stack, read]
  rw [reached'.parse_eq done', result]
  constructor
  · have flags : long.flags = ⟨false, false⟩ := by
      rw [embeds.flags]
      exact reached.flags_of_nil outside
    have flags' := reached.flags_of_nil outside
    have list : long.roots.reverse =
        roots.reverse ++ short.roots.reverse.map (Node.behind s₁) := by
      rw [embeds.roots, h.roots, List.reverse_append, List.map_reverse]
    have first : short.roots.getLast?.map Node.kind = some .element := by
      rcases reached.getLast?_roots (o := o.behind s₁) modern opens with rfl | last | ⟨_, inside⟩
      · rw [opens.not_isDone] at done
        cases done
      · exact last
      · exact absurd outside inside
    have second : (short.roots.reverse.map (Node.behind s₁)).head?.map Node.kind =
        some .element := by
      rw [List.head?_map, List.head?_reverse, Option.map_map, ← first]
      exact congrArg (Option.map · _) (funext (Node.kind_behind s₁))
    have placed := reached.placed.nodes
    rw [outside] at placed
    have settled := Siblings.settle_behind o false false (.refl _) placed s₁ []
    rw [source] at settled
    simp only [State.result, flags, flags', list]
    rw [Siblings.settle_append _ (by rw [List.getLast?_reverse]; exact edge) second, settled,
      Siblings.settle_options]
  · simp only [State.result, embeds.errors, h.errors, List.append_nil, List.map_reverse]

end State

/-- The last node is an element that ends at `n`, if its kind and its place say so. -/
theorem Siblings.exists_element_of_last {nodes : List Node} {n : Nat}
    (h : (nodes.getLast?.any fun node => node.kind == .element && node.loc.stop.offset == n) = true) :
    ∃ e children, nodes.getLast? = some (.element e children) ∧ e.loc.stop.offset = n := by
  obtain ⟨node, last, shape⟩ := (Option.any_eq_true _ _).mp h
  rw [Bool.and_eq_true, beq_iff_eq, beq_iff_eq] at shape
  cases node with
  | text | comment | interpolation => cases shape.1
  | element e children => exact ⟨e, children, last, shape.2⟩

open State in
/-- Behind a template `s₁` without errors that ends with an element, a template `s₂` that starts with
    a tag is read as if nothing came before it. Its nodes and errors come after those of `s₁`, each
    in its place behind `s₁`. The rules of the platform are asked about its elements where they come
    to stand; if these rules do not look at places, `s₂` has the same nodes and errors on its own. -/
theorem parse_append {o : Options} {s₁ s₂ : List Char} {e : Element} {children : List Node}
    {letter : Char} {rest : List Char} (modern : o.legacy = none)
    (delimiter : '<' ∉ o.openDelimiter) (quiet : (parse o s₁).errors = [])
    (last : (parse o s₁).root.children.getLast? = some (.element e children))
    (ends : e.loc.stop.offset = Text.byteLength s₁) (starts : s₂ = '<' :: letter :: rest)
    (isLetter : letter.isAlpha = true) :
    (parse o (s₁ ++ s₂)).root.children =
        (parse o s₁).root.children ++
          (parse (o.behind s₁) s₂).root.children.map (Node.behind s₁) ∧
      (parse o (s₁ ++ s₂)).errors =
        (parse (o.behind s₁) s₂).errors.map (ParseError.behind s₁) ∧
      (o.PlaceFree →
        (parse o (s₁ ++ s₂)).root.children =
            (parse o s₁).root.children ++ (parse o s₂).root.children.map (Node.behind s₁) ∧
          (parse o (s₁ ++ s₂)).errors = (parse o s₂).errors.map (ParseError.behind s₁)) := by
  have mark : s₂.head? = some '<' := by rw [starts]; rfl
  have member := List.mem_of_getLast? last
  obtain ⟨first, reachable, done, result⟩ := exists_reachable_result o s₁
  have close := reachable.getLast?_text modern done quiet member ends
  have seam : Seam o s₂ s₁ := ⟨.inr close, Text.seamless_mark delimiter mark⟩
  obtain ⟨s, reachable', seam⟩ := reachable.exists_atSeam modern seam mark done quiet
  have edge := reachable.head?_roots modern done (result ▸ member) ends
  have opens : (initial s₂).Opens (o.behind s₁) :=
    starts ▸ opens_initial (o := o.behind s₁) delimiter isLetter rest
  obtain ⟨nodes, errors⟩ := seam.parse_eq modern reachable' edge opens
  -- the nodes of `s₁` are settled as if nothing followed
  have placed := reachable.placed.nodes
  rw [(rest_of_isDone done).1] at placed
  have settled := Siblings.settle_behind o false false (.refl _) placed [] s₂
  rw [map_behind_nil, map_behind_nil] at settled
  have children : (parse o (s₁ ++ s₂)).root.children = (parse o s₁).root.children ++
      (parse (o.behind s₁) s₂).root.children.map (Node.behind s₁) := by
    rw [nodes, result]
    simp only [State.result, reachable.flags_of_nil (rest_of_isDone done).1]
    exact congrArg (· ++ _) settled
  refine ⟨children, errors, fun free => ?_⟩
  rw [free.behind_eq s₁] at children errors
  exact ⟨children, errors⟩

theorem parse_append_title :
    let s₁ := "<p>a</p>\n<pre>\n b</pre>".toList
    let s₂ := "<title>\x7b\x7b c \x7d\x7d</title> d\n</i>".toList
    (parse Dom.options s₁).errors = [] ∧
      (parse Dom.options (s₁ ++ s₂)).root.children = (parse Dom.options s₁).root.children ++
        (parse Dom.options s₂).root.children.map (Node.behind s₁) ∧
      (parse Dom.options (s₁ ++ s₂)).errors =
        (parse Dom.options s₂).errors.map (ParseError.behind s₁) := by
  intro s₁ s₂
  have quiet : (parse Dom.options s₁).errors = [] := by decide +kernel
  have last : ((parse Dom.options s₁).root.children.getLast?.any fun node =>
      node.kind == .element && node.loc.stop.offset == Text.byteLength s₁) = true := by
    decide +kernel
  obtain ⟨e, children, last, ends⟩ := Siblings.exists_element_of_last last
  have starts : s₂ = '<' :: 't' :: s₂.drop 2 := rfl
  obtain ⟨_, _, alone⟩ :=
    parse_append (o := Dom.options) rfl (by decide) quiet last ends starts rfl
  exact ⟨quiet, alone Dom.options_placeFree⟩

/-- Rules that look at places: inside an element, the namespace is that of drawings unless the
    element stands at the very start. On its own, the second template starts with such an element;
    behind the first one it does not. -/
theorem parse_append_ne_of_places :
    let o : Options := { Options.base with
      namespaceOf := fun _ parent => if parent.any (0 < ·.loc.start.offset) then .svg else .html }
    let s₁ := "<p></p>".toList
    let s₂ := "<a><b></b></a>".toList
    o.legacy = none ∧ '<' ∉ o.openDelimiter ∧ (parse o s₁).errors = [] ∧
      (∃ e children, (parse o s₁).root.children.getLast? = some (.element e children) ∧
        e.loc.stop.offset = Text.byteLength s₁) ∧
      (∃ rest, s₂ = '<' :: 'a' :: rest) ∧
      (parse o (s₁ ++ s₂)).root.children ≠
        (parse o s₁).root.children ++ (parse o s₂).root.children.map (Node.behind s₁) := by
  intro o s₁ s₂
  have last : ((parse o s₁).root.children.getLast?.any fun node =>
      node.kind == .element && node.loc.stop.offset == Text.byteLength s₁) = true := by
    decide +kernel
  refine ⟨rfl, by decide, by decide +kernel, Siblings.exists_element_of_last last,
    ⟨s₂.drop 2, rfl⟩, fun same => ?_⟩
  -- `b` is a drawing behind `s₁`, and is none on its own
  have drawing : ((Node.at? (parse o (s₁ ++ s₂)).root.children [1, 0]).any fun node =>
      node matches .element { ns := .svg, .. } _) = true := by decide +kernel
  rw [same] at drawing
  revert drawing
  decide +kernel

end Stencil
