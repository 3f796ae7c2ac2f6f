import Stencil.Proofs.Settling
import Stencil.Proofs.Transcript

/-! # Preformatted content

Where white space is kept, what an element holds is what was read inside of it, character by
character. Only the carriage return before a line feed is left out and, right after the start tag
that makes it preformatted, one line break. The text of a CDATA section goes through this twice, so
that more can get lost of it: once by itself, as if the section were all there is in the element,
and once more as part of the element.
-/

namespace Stencil

namespace Text

theorem head?_unifyLineBreaks {s : List Char} (h : (unifyLineBreaks s).head? = some '\n') :
    s.head? = some '\n' ∨ ['\r', '\n'] <+: s := by
  unfold unifyLineBreaks at h
  split at h
  · cases h
  · next rest => exact .inr ⟨rest, rfl⟩
  · exact .inl h

/-- Two carriage returns before a line feed leave one behind. Other than that none is left before a
    line feed. -/
theorem not_infix_unifyLineBreaks {s : List Char} (single : ¬['\r', '\r', '\n'] <:+: s) :
    ¬['\r', '\n'] <:+: unifyLineBreaks s := by
  fun_induction unifyLineBreaks s with
  | case1 => simp
  | case2 cs ih =>
      have rest := ih fun later => single (later.trans ⟨['\r', '\n'], [], by simp⟩)
      simpa [List.infix_cons_iff] using rest
  | case3 c cs other ih =>
      rw [List.infix_cons_iff, not_or]
      refine ⟨fun starts => ?_, ih fun later => single (List.infix_cons later)⟩
      obtain ⟨same, starts⟩ := List.cons_prefix_cons.mp starts
      obtain ⟨rest, next⟩ := starts
      rcases head?_unifyLineBreaks (by rw [← next]; rfl) with first | second
      · obtain ⟨cs', rfl⟩ := List.head?_eq_some_iff.mp first
        exact other cs' same.symm rfl
      · rw [← same] at single
        exact single (List.cons_prefix_cons.mpr ⟨rfl, second⟩).isInfix

theorem unifyLineBreaks_eq_self {s : List Char} (none : ¬['\r', '\n'] <:+: s) :
    unifyLineBreaks s = s := by
  fun_induction unifyLineBreaks s with
  | case1 => rfl
  | case2 cs => exact absurd ⟨[], cs, rfl⟩ none
  | case3 c cs _ ih => rw [ih fun later => none (List.infix_cons later)]

theorem dropLineBreak_eq_self {s : List Char} (feed : s.head? ≠ some '\n')
    (pair : ¬['\r', '\n'] <+: s) : dropLineBreak s = s := by
  unfold dropLineBreak
  split
  · next rest => exact absurd ⟨rest, rfl⟩ pair
  · simp at feed
  · rfl

/-- A text of a section of which nothing gets lost but carriage returns before line feeds. -/
structure IsHarmless (preTag : Bool) (raw : List Char) : Prop where
  single : ¬['\r', '\r', '\n'] <:+: raw
  first : preTag = true → raw.head? ≠ some '\n' ∧ ¬['\r', '\n'] <+: raw

/-- Settling the text of a section twice is as good as settling it once, if it is harmless. -/
theorem IsHarmless.unifyLineBreaks_settledSection {preTag : Bool} {raw : List Char}
    (h : IsHarmless preTag raw) :
    unifyLineBreaks (settledSection preTag raw) = unifyLineBreaks raw := by
  have unified := not_infix_unifyLineBreaks h.single
  have once : settledSection preTag raw = unifyLineBreaks raw := by
    unfold settledSection
    split
    · next pre =>
      obtain ⟨feed, pair⟩ := h.first pre
      refine dropLineBreak_eq_self (fun starts => ?_) fun starts => unified starts.isInfix
      exact (head?_unifyLineBreaks starts).elim feed pair
    · rfl
  rw [once, unifyLineBreaks_eq_self unified]

end Text

namespace Siblings

/-- Everything in some children, one behind the other, apart from nodes that do not count. -/
def spread (counts : Node → Bool) (views : List (List Char ⊕ Node)) : List (Char ⊕ Node) :=
  views.flatMap fun
    | .inl s => s.map .inl
    | .inr node => if counts node then [.inr node] else []

/-- Children without the line break that the first one starts with, if that is a text. -/
def withoutLineBreak : List (List Char ⊕ Node) → List (List Char ⊕ Node)
  | .inl s :: views => .inl (Text.dropLineBreak s) :: views
  | views => views

/-- What is left in the end of the children that were read in some mode where white space is kept.
    Without markup everything is. Otherwise line breaks are unified, unwanted comments are left
    out, and if the element itself is what keeps white space, the line break that the first child
    starts with is left out. -/
def preformatted (o : Options) (preTag : Bool) (mode : TextMode)
    (views : List (List Char ⊕ Node)) : List (Char ⊕ Node) :=
  match mode with
  | .rawText | .rcData => spread (fun _ => true) views
  | .data | .cData | .attributeValue =>
    let unified := views.map (Sum.map Text.unifyLineBreaks id)
    spread (isWanted o) (if preTag then withoutLineBreak unified else unified)

variable {o : Options} {source : List Char} {prev next : Option NodeKind} {node : Node}
  {nodes : List Node}

@[simp]
theorem spread_nil (counts : Node → Bool) : spread counts [] = [] := rfl

@[simp]
theorem spread_inl (counts : Node → Bool) (s : List Char) (views : List (List Char ⊕ Node)) :
    spread counts (.inl s :: views) = s.map .inl ++ spread counts views := rfl

@[simp]
theorem spread_inr (counts : Node → Bool) (node : Node) (views : List (List Char ⊕ Node)) :
    spread counts (.inr node :: views) =
      (if counts node then [.inr node] else []) ++ spread counts views := rfl

theorem content_cons (node : Node) (nodes : List Node) :
    content (node :: nodes) = spread (fun _ => true) [node.view] ++ content nodes := by
  cases node <;> simp [spread, content, Node.view, Node.content]

theorem content_eq_spread (nodes : List Node) :
    content nodes = spread (fun _ => true) (nodes.map Node.view) := by
  induction nodes with
  | nil => rfl
  | cons node nodes ih =>
      rw [content_cons, ih]
      simp [spread]

theorem content_consJoining (o : Options) (source : List Char) (node : Node) (nodes : List Node) :
    content (consJoining o true source node nodes) = content (node :: nodes) := by
  unfold consJoining
  split
  · simp [content, joinTexts, Node.content]
  · rfl

theorem content_foldr_consJoining (o : Options) (source : List Char) (nodes : List Node) :
    content (nodes.foldr (consJoining o true source) []) = content nodes := by
  induction nodes with
  | nil => rfl
  | cons node nodes ih =>
      rw [List.foldr_cons, content_consJoining, content_cons, ih, content_cons]

theorem content_filterMap_cons (x : Option Node) (list : List (Option Node)) :
    content ((x :: list).filterMap id) =
      x.elim [] (fun n => spread (fun _ => true) [n.view]) ++ content (list.filterMap id) := by
  cases x with
  | none => rfl
  | some node =>
      rw [List.filterMap_cons_some (f := id) rfl, content_cons]
      rfl

theorem content_settleEach_pre (o : Options) (prev : Option NodeKind) (nodes : List Node) :
    content ((settleEach o true prev nodes).filterMap id) =
      spread (isWanted o) (nodes.map fun n => n.view.map Text.unifyLineBreaks id) := by
  induction nodes generalizing prev with
  | nil => rfl
  | cons node nodes ih =>
      rw [settleEach, List.map_cons, content_filterMap_cons, ih]
      by_cases text : node.kind = .text
      · obtain ⟨t, rfl⟩ := Node.eq_text_of_kind text
        simp [settleNode, settleText]
      · rw [settleNode_other text, Node.view_of_ne text]
        cases wanted : isWanted o node <;> simp [Node.view_of_ne text, wanted]

/-- Only a first child that is a text can lose its line break. -/
theorem dropFirstLineBreak_other (other : node.kind ≠ .text) (list : List (Option Node)) :
    dropFirstLineBreak ((if isWanted o node then some node else none) :: list) =
      (if isWanted o node then some node else none) :: list := by
  split
  · cases node with
    | text t => exact absurd rfl other
    | element | comment | interpolation => rfl
  · rfl

theorem content_dropFirstLineBreak_pre (o : Options) (nodes : List Node) :
    content ((dropFirstLineBreak (settleEach o true none nodes)).filterMap id) =
      spread (isWanted o)
        (withoutLineBreak (nodes.map fun n => n.view.map Text.unifyLineBreaks id)) := by
  have kept := content_settleEach_pre o none nodes
  cases nodes with
  | nil => rfl
  | cons node nodes =>
      by_cases text : node.kind = .text
      · obtain ⟨t, rfl⟩ := Node.eq_text_of_kind text
        have others := content_settleEach_pre o (some .text) nodes
        simp only [settleEach, settleNode, settleText, if_true, Option.map_some,
          dropFirstLineBreak, content_filterMap_cons, List.map_cons, Node.view_text, Sum.map_inl,
          withoutLineBreak, spread_inl, ← others]
        simp [Node.kind]
      · rw [settleEach, settleNode_other text, List.map_cons, Node.view_of_ne text] at kept ⊢
        rw [dropFirstLineBreak_other text]
        exact kept

/-- Settling, where white space is kept, does what is said of preformatted children. -/
theorem content_settle_pre (o : Options) (source : List Char) (preTag : Bool)
    (nodes : List Node) :
    content (settle o source true preTag nodes) =
      preformatted o preTag .data (nodes.map Node.view) := by
  simp only [settle, preformatted, content_foldr_consJoining, Bool.true_and, List.map_map]
  cases preTag with
  | false => exact content_settleEach_pre o none nodes
  | true => exact content_dropFirstLineBreak_pre o nodes

/-- Sections that are harmless leave the same behind as if their texts had not been touched. -/
theorem preformatted_congr {f : List Char → List Char} {preTag : Bool} {mode : TextMode}
    {items : List Item}
    (harmless : ∀ raw, .cdata raw ∈ items → mode = .data ∧
      Text.unifyLineBreaks (f raw) = Text.unifyLineBreaks raw) :
    preformatted o preTag mode (items.filterMap (Item.view? f)) =
      preformatted o preTag mode (items.filterMap (Item.view? id)) := by
  have unified : (items.filterMap (Item.view? f)).map (Sum.map Text.unifyLineBreaks id) =
      (items.filterMap (Item.view? id)).map (Sum.map Text.unifyLineBreaks id) := by
    rw [List.map_filterMap, List.map_filterMap]
    refine List.filterMap_congr fun item member => ?_
    cases item with
    | cdata raw =>
        have same := (harmless raw member).2
        cases raw <;> simp_all [Item.view?]
    | text | endTag | other => rfl
  by_cases data : mode = .data
  · rw [data]
    simp only [preformatted, unified]
  · have same : items.filterMap (Item.view? f) = items.filterMap (Item.view? id) := by
      refine List.filterMap_congr fun item member => ?_
      cases item with
      | cdata raw => exact absurd (harmless raw member).1 data
      | text | endTag | other => rfl
    rw [same]

end Siblings

/-- There are sections only where markup is read. -/
theorem Transcript.data_of_mem {o : Options} {mode : TextMode} {a c : Cursor} {items : List Item}
    {raw : List Char} (h : Transcript o mode a items c) (member : .cdata raw ∈ items) :
    mode = .data := by
  induction h with
  | nil => cases member
  | text _ _ _ ih | comment _ _ _ ih | other _ _ _ _ ih => exact ih ((List.mem_cons.mp member).resolve_left nofun)
  | goOn _ _ ih =>
      exact ih (List.mem_cons_of_mem _ ((List.mem_cons.mp member).resolve_left nofun))
  | cdata _ data => exact data
  | endTag _ data => exact data

namespace State

variable {o : Options} {source : List Char} {s t : State} {e : Element} {children : List Node}

theorem content_finishedChildren (o : Options) (source : List Char) (e : OpenElement) :
    Siblings.content (finishedChildren o source true e) =
      Siblings.preformatted o (o.isPreTag e.element.tag) e.mode
        (e.children.reverse.map Node.view) := by
  unfold finishedChildren
  cases e.mode with
  | rawText | rcData => exact Siblings.content_eq_spread _
  | data | cData | attributeValue => exact Siblings.content_settle_pre o source _ _

/-- White space is kept in an element if it is kept around it or the element itself keeps it. -/
theorem Finished.pre_eq (h : s.Finished o source e children) :
    (s.flagsInside o).pre = (s.flags.pre || o.isPreTag e.tag) := by
  rw [h.tag_eq]
  rfl

/-- An element that is closed ends in an end tag or where the reading stands. -/
theorem startsEndTag_or_stop_eq (o : Options) (source : List Char) (s : State) (e : OpenElement)
    (stack : List OpenElement) :
    Tag.startsEndTag (s.closed o source e stack).tag s.cursor.rest = true ∨
      (s.closed o source e stack).loc.stop = s.cursor.position := by
  by_cases ends : Tag.startsEndTag (s.filled o e).1.tag s.cursor.rest = true
  · exact .inl ends
  · right
    have stays : (s.afterEndTag o source e stack).cursor = s.cursor := by
      unfold afterEndTag readEndTag
      rw [cursor_report, if_neg ends]
      dsimp only
      split <;> rfl
    exact congrArg Cursor.position stays

end State

namespace Node

variable {o : Options} {source : List Char} {flags : Flags} {nodes : List Node} {path : List Nat}
  {node : Node}

/-- The path leads to an element that keeps white space, or through one. -/
def LeadsInto (keeps : Element → Bool) (nodes : List Node) (path : List Nat) : Prop :=
  ∃ above e children, above <+: path ∧ at? nodes above = some (.element e children) ∧
    keeps e = true

theorem LeadsInto.down {keeps : Element → Bool} {i : Nat} {parent : Node}
    (h : LeadsInto keeps nodes (i :: path)) (here : nodes[i]? = some parent) :
    (∃ e children, parent = .element e children ∧ keeps e = true) ∨
      LeadsInto keeps parent.children path := by
  obtain ⟨above, e, children, within, leads, keeps⟩ := h
  match above with
  | [] => cases leads
  | [k] =>
      cases (List.cons_prefix_cons.mp within).1
      rw [at?, here] at leads
      exact .inl ⟨e, children, Option.some.inj leads, keeps⟩
  | k :: l :: rest =>
      obtain ⟨rfl, rest_within⟩ := List.cons_prefix_cons.mp within
      rw [at?, here] at leads
      exact .inr ⟨l :: rest, e, children, rest_within, leads, keeps⟩

theorem not_leadsInto_nil {keeps : Element → Bool} : ¬LeadsInto keeps nodes [] := by
  rintro ⟨above, _, _, within, leads, _⟩
  rw [List.prefix_nil.mp within] at leads
  cases leads

/-- White space is kept in every node that a path through an element that keeps it leads to. -/
theorem exists_derived_pre (modern : o.legacy = none)
    (derived : ∀ n ∈ nodes, n.Derived o source flags) (found : at? nodes path = some node)
    (pre : flags.pre = true ∨ LeadsInto (o.isPreTag ·.tag) nodes path) :
    ∃ inside : Flags, node.Derived o source inside ∧
      (inside.pre = true ∨ ∃ e children, node = .element e children ∧ o.isPreTag e.tag = true) := by
  fun_induction at? nodes path generalizing flags with
  | case1 => cases found
  | case2 nodes i =>
      refine ⟨flags, derived _ (List.mem_of_getElem? found), pre.imp_right fun leads => ?_⟩
      exact (leads.down found).resolve_right not_leadsInto_nil
  | case3 nodes i j path parent parentAt ih =>
      cases parent with
      | text | comment | interpolation =>
          simp only [children] at found
          cases path <;> cases found
      | element a inner =>
          have above := derived _ (List.mem_of_getElem? parentAt)
          obtain ⟨s, same, _, _, finished, inside⟩ := State.exists_of_derived modern above
          refine ih inside found ?_
          rw [finished.pre_eq, same, Bool.or_eq_true]
          rcases pre with pre | leads
          · exact .inl (.inl pre)
          · rcases leads.down parentAt with ⟨_, _, here, keeps⟩ | leads
            · cases here
              exact .inl (.inr keeps)
            · exact .inr leads
  | case4 => cases found

end Node

open State in
/-- Preformatted content is kept as it is. An element in which white space is kept, since it or an
    element around it keeps it, goes back to the state in which its start tag was read. Unless it
    was finished there and then, there is a transcript of what was read from there up to its end,
    and what the element holds is what the transcript has, in its order: its texts with line breaks
    unified, its nodes apart from comments that are not wanted, and only where the element itself
    keeps white space, and only of a text that is its first child, one line break less. Of the text
    of a section settling it on its own takes its share first. If that text has no second carriage
    return before a line feed and, in an element that keeps white space itself, does not start with
    a line break, then nothing more is lost of it than of any other text, wherever the section
    stands. -/
theorem parse_preformatted (o : Options) (modern : o.legacy = none) (source : List Char)
    (path : List Nat) (e : Element) (children : List Node)
    (found : Node.at? (parse o source).root.children path = some (.element e children))
    (pre : Node.LeadsInto (o.isPreTag ·.tag) (parse o source).root.children path) :
    ∃ s, Reachable o source s ∧ s.Opens o ∧ s.cursor.position = e.loc.start ∧
      (s.started o).1.tag = e.tag ∧
      ((s.startsEmpty o = true ∨ o.maxDepth ≤ s.stack.length) ∧ children = [] ∨
        ∃ items stop, Transcript o (s.opened o).mode (s.opened o).body items stop ∧
          (Tag.startsEndTag e.tag stop.rest = true ∨ e.loc.stop = stop.position) ∧
          Siblings.content children =
            Siblings.preformatted o (o.isPreTag e.tag) (s.opened o).mode
              (items.reverse.filterMap (Item.view? (Text.settledSection (o.isPreTag e.tag)))) ∧
          ((∀ raw, .cdata raw ∈ items → Text.IsHarmless (o.isPreTag e.tag) raw) →
            Siblings.content children =
              Siblings.preformatted o (o.isPreTag e.tag) (s.opened o).mode
                (items.reverse.filterMap (Item.view? id)))) := by
  obtain ⟨flags, derived, inside⟩ :=
    Node.exists_derived_pre modern (parse_derived o source) found (.inr pre)
  obtain ⟨s, same, reachable, opens, finished, _⟩ := exists_of_derived modern derived
  have tag := finished.tag_eq
  have keeps : (s.flagsInside o).pre = true := by
    rw [finished.pre_eq, same, Bool.or_eq_true]
    refine inside.imp_right ?_
    rintro ⟨_, _, here, keeps⟩
    cases here
    exact keeps
  refine ⟨s, reachable, opens, finished.start_eq.symm, tag.symm, ?_⟩
  cases finished with
  | empty empty => exact .inl ⟨.inl empty, rfl⟩
  | tooDeep _ deep => exact .inl ⟨.inr deep, rfl⟩
  | @closed t entry _ _ stays top bare flags ends =>
      right
      have reached := (reachable.step opens.not_isDone).staysInside stays
      have told := reached.toldTo modern
      unfold ToldTo at told
      rw [top, flags] at told
      obtain ⟨items, transcript, stand⟩ := told.1 keeps
      have name : entry.element.tag = (t.closed o source entry s.stack).tag :=
        (filled_tag o t entry).symm
      have content := content_finishedChildren o source entry
      rw [List.map_reverse, stand.views, ← List.filterMap_reverse, name] at content
      rw [flags, keeps, ← bare]
      refine ⟨items, t.cursor, transcript, startsEndTag_or_stop_eq o source t entry s.stack,
        content, fun harmless => content.trans (Siblings.preformatted_congr fun raw member => ?_)⟩
      have member := List.mem_reverse.mp member
      exact ⟨transcript.data_of_mem member,
        (harmless raw member).unifyLineBreaks_settledSection⟩

/-- The content of the text that an element consists of, and the element, pass a test. -/
def Node.holdsText (test : Element → List Char → Bool) : Option Node → Bool
  | some (.element e [.text t]) => test e t.content
  | _ => false

theorem Node.exists_of_holdsText {test : Element → List Char → Bool} {found : Option Node}
    (h : holdsText test found = true) :
    ∃ e t, found = some (.element e [.text t]) ∧ test e t.content = true := by
  unfold holdsText at h
  split at h
  · next e t => exact ⟨e, t, rfl, h⟩
  · cases h

open State in
/-- A line break after the start tag, a comment that is dropped and a section. -/
theorem parse_preformatted_section :
    let o := { Dom.options with comments := false }
    let source := "<svg><pre>\r\n\n a<!-- b --><![CDATA[c\r\n]]></pre></svg>".toList
    o.legacy = none ∧
      ∃ e t, Node.at? (parse o source).root.children [0, 0] = some (.element e [.text t]) ∧
        Node.LeadsInto (o.isPreTag ·.tag) (parse o source).root.children [0, 0] ∧
        t.content = "\n ac\n".toList ∧
        ∃ s items stop, Transcript o (opened o s).mode (opened o s).body items stop ∧
          t.content.map Sum.inl = Siblings.preformatted o (o.isPreTag e.tag) (opened o s).mode
            (items.reverse.filterMap (Item.view? (Text.settledSection (o.isPreTag e.tag)))) := by
  intro o source
  have shape : Node.holdsText (fun e content => o.isPreTag e.tag && content == "\n ac\n".toList)
      (Node.at? (parse o source).root.children [0, 0]) = true := by decide +kernel
  obtain ⟨e, t, found, passes⟩ := Node.exists_of_holdsText shape
  obtain ⟨keeps, content⟩ := Bool.and_eq_true_iff.mp passes
  have leads : Node.LeadsInto (o.isPreTag ·.tag) (parse o source).root.children [0, 0] :=
    ⟨[0, 0], e, [.text t], List.prefix_rfl, found, keeps⟩
  obtain ⟨s, _, _, _, _, ⟨_, none⟩ | ⟨items, stop, transcript, _, whole, _⟩⟩ :=
    parse_preformatted o rfl source [0, 0] e [.text t] found leads
  · cases none
  · refine ⟨rfl, e, t, found, leads, beq_iff_eq.mp content, s, items, stop, transcript, ?_⟩
    rw [← whole]
    simp [Siblings.content, Node.content]

/-- The text of a section loses a line break that it starts with although another text comes first,
    and both of two carriage returns before a line feed. -/
theorem section_loses_lineBreaks :
    (let source := "<svg><pre>a<![CDATA[\nb]]></pre></svg>".toList
      let start := (Cursor.ofText source).skip 10
      let items := [Item.cdata ['\n', 'b'], .text ['a']]
      Transcript Dom.options .data start items (start.skip 15) ∧
        (∃ e t, Node.at? (parse Dom.options source).root.children [0, 0] =
            some (.element e [.text t]) ∧ Dom.options.isPreTag e.tag = true ∧
          t.content = "ab".toList) ∧
        Siblings.preformatted Dom.options true .data
          (items.reverse.filterMap (Item.view? id)) = "a\nb".toList.map .inl) ∧
    let source := "<svg><pre><g><![CDATA[a\r\r\nb]]></g></pre></svg>".toList
    let start := (Cursor.ofText source).skip 13
    let items := [Item.cdata ['a', '\r', '\r', '\n', 'b']]
    Transcript Dom.options .data start items (start.skip 17) ∧
      (∃ e t, Node.at? (parse Dom.options source).root.children [0, 0, 0] =
          some (.element e [.text t]) ∧ Dom.options.isPreTag e.tag = false ∧
        t.content = "a\nb".toList) ∧
      Siblings.preformatted Dom.options false .data
        (items.reverse.filterMap (Item.view? id)) = "a\r\nb".toList.map .inl := by
  constructor
  · intro source start items
    refine ⟨?_, ?_, rfl⟩
    · have first : Transcript Dom.options .data start [.text ['a']] (start.skip 1) :=
        .text .nil (by decide) (by simp)
      have text : TextNode.sectionText (start.skip 1) = ['\n', 'b'] := by decide +kernel
      have stop : (TextNode.readSection (start.skip 1)).cursor = start.skip 15 := by
        decide +kernel
      have starts : TextNode.sectionStart <+: (start.skip 1).rest := by decide
      have whole := first.cdata rfl starts
      rw [text, stop] at whole
      exact whole
    · have shape : Node.holdsText
          (fun e content => Dom.options.isPreTag e.tag && content == "ab".toList)
          (Node.at? (parse Dom.options source).root.children [0, 0]) = true := by decide +kernel
      obtain ⟨e, t, found, passes⟩ := Node.exists_of_holdsText shape
      obtain ⟨keeps, content⟩ := Bool.and_eq_true_iff.mp passes
      exact ⟨e, t, found, keeps, beq_iff_eq.mp content⟩
  · intro source start items
    have text : TextNode.sectionText start = ['a', '\r', '\r', '\n', 'b'] := by decide +kernel
    have stop : (TextNode.readSection start).cursor = start.skip 17 := by decide +kernel
    have starts : TextNode.sectionStart <+: start.rest := by decide
    have whole : Transcript Dom.options .data start _ _ := .cdata .nil rfl starts
    rw [text, stop] at whole
    refine ⟨whole, ?_, rfl⟩
    have shape : Node.holdsText
        (fun e content => !Dom.options.isPreTag e.tag && content == "a\nb".toList)
        (Node.at? (parse Dom.options source).root.children [0, 0, 0]) = true := by decide +kernel
    obtain ⟨e, t, found, passes⟩ := Node.exists_of_holdsText shape
    obtain ⟨other, content⟩ := Bool.and_eq_true_iff.mp passes
    exact ⟨e, t, found, by simpa using other, beq_iff_eq.mp content⟩

end Stencil
