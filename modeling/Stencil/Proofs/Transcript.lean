import Stencil.Proofs.Gathering

/-! # What is read inside an element

Inside an element one thing is read after another: texts, CDATA sections, other nodes, and end tags
that are passed over. A transcript lists them from the start of its content to some place in it.
Where white space is kept, the children that an element has at that place can be told from the
transcript: texts that were read one right behind the other have become one, the text of a section
has been settled on its own, and the other nodes are there as they are.
-/

namespace Stencil

/-- Something that is read inside an element. -/
inductive Item where
  /-- A text, in however many pieces it was read, with its references replaced. -/
  | text (content : List Char)
  /-- A CDATA section with what stands between its marks. -/
  | cdata (raw : List Char)
  /-- An end tag that is passed over. -/
  | endTag
  /-- A node other than a text. -/
  | other (node : Node)

/-- What stands between the marks of the CDATA section at a cursor. -/
def TextNode.sectionText (c : Cursor) : List Char :=
  (readSection c).value.elim [] (·.content)

/-- An end tag at `m` that no element ends in is passed over up to `b`. -/
inductive Tag.PassedOver (o : Options) (m : Cursor) : Cursor → Prop where
  | nameless (markup : m.markup? = some .namelessEndTag) : PassedOver o m (m.skip 3)
  | stray (markup : m.markup? = some .endTag) (vPre : Bool) :
      PassedOver o m (Tag.read o .closing vPre m).cursor

/-- The items, newest first, that are read in a mode from `a` up to some cursor. A text that is read
    right behind another one goes on with it. -/
inductive Transcript (o : Options) (mode : TextMode) (a : Cursor) : List Item → Cursor → Prop where
  | nil : Transcript o mode a [] a
  | text {items : List Item} {m : Cursor} (before : Transcript o mode a items m)
      (more : m.rest ≠ []) (fresh : ∀ content, items.head? ≠ some (.text content)) :
      Transcript o mode a (.text (TextNode.read o mode m).value.content :: items)
        (TextNode.read o mode m).cursor
  | goOn {items : List Item} {m : Cursor} {content : List Char}
      (before : Transcript o mode a (.text content :: items) m) (more : m.rest ≠ []) :
      Transcript o mode a (.text (content ++ (TextNode.read o mode m).value.content) :: items)
        (TextNode.read o mode m).cursor
  | cdata {items : List Item} {m : Cursor} (before : Transcript o mode a items m)
      (data : mode = .data) (starts : TextNode.sectionStart <+: m.rest) :
      Transcript o mode a (.cdata (TextNode.sectionText m) :: items) (TextNode.readSection m).cursor
  | endTag {items : List Item} {m b : Cursor} (before : Transcript o mode a items m)
      (data : mode = .data) (passed : Tag.PassedOver o m b) :
      Transcript o mode a (.endTag :: items) b
  | comment {items : List Item} {m : Cursor} {r : Reading Comment}
      (before : Transcript o mode a items m) (data : mode = .data)
      (read : Comment.at? m = some r) :
      Transcript o mode a (.other (.comment r.value) :: items) r.cursor
  | other {items : List Item} {m b : Cursor} {node : Node} (before : Transcript o mode a items m)
      (kind : node.kind ≠ .text ∧ node.kind ≠ .comment) (forward : m.Reaches b)
      (place : node.loc = m.locationTo b) : Transcript o mode a (.other node :: items) b

/-- A node as far as its content goes. -/
def Node.view : Node → List Char ⊕ Node
  | .text t => .inl t.content
  | node => .inr node

@[simp]
theorem Node.view_text (t : TextNode) : (Node.text t).view = .inl t.content := rfl

theorem Node.view_of_ne {node : Node} (other : node.kind ≠ .text) : node.view = .inr node := by
  cases node with
  | text t => exact absurd rfl other
  | element | comment | interpolation => rfl

theorem Node.exists_text_of_view {nodes : List Node} {content : List Char}
    {views : List (List Char ⊕ Node)} (h : nodes.map view = .inl content :: views) :
    ∃ t rest, nodes = .text t :: rest ∧ t.content = content ∧ rest.map view = views := by
  obtain ⟨node, rest, rfl, first, others⟩ := List.map_eq_cons_iff.mp h
  cases node with
  | text t => exact ⟨t, rest, rfl, Sum.inl.inj first, others⟩
  | element | comment | interpolation => cases first

namespace Item

/-- The child that is made of an item, if the texts of sections are changed by `f`. -/
def view? (f : List Char → List Char) : Item → Option (List Char ⊕ Node)
  | .text content => some (.inl content)
  | .cdata raw => if raw.isEmpty then none else some (.inl (f raw))
  | .endTag => none
  | .other node => some (.inr node)

def isText : Item → Bool
  | .text _ => true
  | .cdata _ | .endTag | .other _ => false

end Item

namespace Siblings

variable {f : List Char → List Char} {items : List Item} {m b : Cursor} {nodes : List Node}
  {node : Node} {t : TextNode} {content : List Char}

/-- Siblings, newest first, that are what has become of the items up to the cursor. The last one is
    a text that reaches up to there exactly if the last item is one. -/
structure StandFor (f : List Char → List Char) (items : List Item) (c : Cursor)
    (nodes : List Node) : Prop where
  views : nodes.map Node.view = items.filterMap (Item.view? f)
  behind : ∀ n ∈ nodes.head?, n.loc.stop.offset ≤ c.position.offset
  touches : c.rest ≠ [] → ∀ n ∈ nodes.head?, n.kind = .text →
    (n.loc.stop.offset = c.position.offset ↔ items.head?.any Item.isText = true)

theorem StandFor.nil (f : List Char → List Char) (c : Cursor) : StandFor f [] c [] := by
  refine ⟨rfl, ?_, ?_⟩ <;> simp

/-- A text that does not start where the last one ends is a new one. -/
theorem push_of_apart
    (apart : ∀ n ∈ nodes.head?, n.kind = .text → n.loc.stop.offset ≠ t.loc.start.offset) :
    push (.text t) nodes = .text t :: nodes := by
  by_cases text : nodes.head?.map Node.kind = some .text
  · obtain ⟨n, first, kind⟩ := Option.map_eq_some_iff.mp text
    obtain ⟨prev, rfl⟩ := Node.eq_text_of_kind kind
    obtain ⟨rest, rfl⟩ := List.head?_eq_some_iff.mp first
    have ends : prev.loc.stop.offset ≠ t.loc.start.offset := apart _ rfl rfl
    simp [push, ends]
  · exact State.push_of_head text

theorem StandFor.text (h : StandFor f items m nodes) (more : m.rest ≠ [])
    (fresh : ∀ content, items.head? ≠ some (.text content))
    (place : t.loc = m.locationTo b) :
    StandFor f (.text t.content :: items) b (push (.text t) nodes) := by
  have other : items.head?.any Item.isText = false := by
    cases items with
    | nil => rfl
    | cons item items => cases item <;> simp_all [Item.isText]
  rw [push_of_apart]
  · refine ⟨?_, ?_, ?_⟩
    · simp [h.views, Item.view?]
    · simp [Node.loc, place, Cursor.locationTo]
    · simp [Node.loc, place, Cursor.locationTo, Item.isText]
  · intro n first kind same
    rw [place] at same
    have touches := (h.touches more n first kind).mp same
    simp [other] at touches

theorem StandFor.goOn (h : StandFor f (.text content :: items) m nodes) (more : m.rest ≠ [])
    (place : t.loc = m.locationTo b) :
    StandFor f (.text (content ++ t.content) :: items) b (push (.text t) nodes) := by
  obtain ⟨prev, rest, rfl, rfl, views⟩ := Node.exists_text_of_view h.views
  have touches : prev.loc.stop.offset = t.loc.start.offset := by
    rw [place]
    exact (h.touches more _ rfl rfl).mpr rfl
  simp only [push, touches, if_true]
  refine ⟨?_, ?_, ?_⟩
  · simpa [Item.view?] using views
  · simp [Node.loc, place, Cursor.locationTo]
  · simp [Node.loc, place, Cursor.locationTo, Item.isText]

theorem StandFor.other (h : StandFor f items m nodes) (kind : node.kind ≠ .text)
    (place : node.loc = m.locationTo b) :
    StandFor f (.other node :: items) b (push node nodes) := by
  rw [State.push_of_ne kind]
  refine ⟨?_, ?_, ?_⟩
  · simp [h.views, Node.view_of_ne kind, Item.view?]
  · simp [place, Cursor.locationTo]
  · simp [kind]

/-- An item that leaves no node makes the cursor go on. -/
theorem StandFor.pass {item : Item} (h : StandFor f items m nodes) (none : item.view? f = none)
    (ahead : m.position.offset < b.position.offset) : StandFor f (item :: items) b nodes := by
  have other : item.isText = false := by
    cases item <;> simp_all [Item.view?, Item.isText]
  refine ⟨?_, ?_, ?_⟩
  · simp [h.views, none]
  · intro n first
    have := h.behind n first
    omega
  · intro _ n first _
    have := h.behind n first
    simp [other]
    omega

end Siblings

/-- The text of a section, if there is any, lies between its marks. The mark at its end is missing
    only at the end of the template. -/
theorem TextNode.readSection_place {c : Cursor} (starts : sectionStart <+: c.rest) :
    c.position.offset < (readSection c).cursor.position.offset ∧
      ∀ t ∈ (readSection c).value, t.content ≠ [] ∧ c.position.offset < t.loc.start.offset ∧
        t.loc.stop.offset ≤ (readSection c).cursor.position.offset ∧
        ((readSection c).cursor.rest ≠ [] →
          t.loc.stop.offset < (readSection c).cursor.position.offset) := by
  have more : c.rest ≠ [] := by
    rintro none
    rw [none] at starts
    exact absurd (List.prefix_nil.mp starts) (by decide)
  have inner := c.reaches_skip sectionStart.length
  have opened : c.position.offset < (c.skip sectionStart.length).position.offset :=
    inner.offset_lt (Cursor.length_lt_of_skip_reaches more (by decide) (.refl _))
  unfold readSection
  dsimp only
  generalize within : c.skip sectionStart.length = d at opened
  generalize length : (Text.find sectionEnd d.rest).getD d.rest.length = n
  have text := d.reaches_skip n
  have mark := (d.skip n).reaches_skip sectionEnd.length
  refine ⟨by have := text.offset_le; have := mark.offset_le; omega, fun t found => ?_⟩
  split at found
  · cases found
  · next some =>
    cases found
    refine ⟨?_, opened, mark.offset_le, fun after => mark.offset_lt ?_⟩
    · intro none
      rcases List.take_eq_nil_iff.mp none with zero | none
      · exact some zero
      · rw [none] at length
        exact some length.symm
    · refine Cursor.length_lt_of_skip_reaches (fun none => after ?_) (by decide) (.refl _)
      rw [Cursor.rest_skip, none, List.drop_nil]

namespace Siblings

variable {f : List Char → List Char} {items : List Item} {m : Cursor} {nodes : List Node}

theorem StandFor.cdata (h : StandFor f items m nodes)
    (starts : TextNode.sectionStart <+: m.rest) :
    StandFor f (.cdata (TextNode.sectionText m) :: items) (TextNode.readSection m).cursor
      (((TextNode.readSection m).value.toList.map fun t =>
        .text { t with content := f t.content }).foldl (fun list n => push n list) nodes) := by
  obtain ⟨ahead, place⟩ := TextNode.readSection_place starts
  unfold TextNode.sectionText
  cases value : (TextNode.readSection m).value with
  | none => exact h.pass rfl ahead
  | some t =>
      obtain ⟨some, start, stop, last⟩ := place t value
      have fresh : push (.text { t with content := f t.content }) nodes =
          .text { t with content := f t.content } :: nodes := by
        refine push_of_apart fun n first _ => ?_
        have behind := h.behind n first
        dsimp only
        omega
      simp only [Option.toList_some, List.map_cons, List.map_nil, List.foldl_cons, List.foldl_nil,
        fresh]
      refine ⟨?_, ?_, ?_⟩
      · simp [h.views, Item.view?, some]
      · simpa [Node.loc] using stop
      · intro more n first _
        cases first
        have before := last more
        simp [Node.loc, Item.isText]
        omega

end Siblings

/-- What settling a section on its own makes of its text where white space is kept. -/
def Text.settledSection (preTag : Bool) (raw : List Char) : List Char :=
  if preTag then dropLineBreak (unifyLineBreaks raw) else unifyLineBreaks raw

theorem Siblings.settle_section (o : Options) (source : List Char) (preTag : Bool)
    (value : Option TextNode) :
    settle o source true preTag (value.toList.map .text) =
      value.toList.map fun t =>
        .text { t with content := Text.settledSection preTag t.content } := by
  cases value with
  | none => cases preTag <;> rfl
  | some t => cases preTag <;> rfl

/-! ## Open elements -/

namespace OpenElement

/-- If white space is kept in the element, its children are those of a transcript up to `c`. -/
def Told (o : Options) (pre : Bool) (c : Cursor) (e : OpenElement) : Prop :=
  pre = true → ∃ items, Transcript o e.mode e.body items c ∧
    Siblings.StandFor (Text.settledSection (o.isPreTag e.element.tag)) items c e.children

variable {o : Options} {pre : Bool} {m b : Cursor} {e : OpenElement} {node : Node}

theorem Told.text (h : e.Told o pre m) (more : m.rest ≠ []) :
    (e.receive [.text (TextNode.read o e.mode m).value]).Told o pre
      (TextNode.read o e.mode m).cursor := by
  intro on
  obtain ⟨items, transcript, stand⟩ := h on
  by_cases text : ∃ content, items.head? = some (.text content)
  · obtain ⟨content, first⟩ := text
    obtain ⟨rest, rfl⟩ := List.head?_eq_some_iff.mp first
    exact ⟨_, transcript.goOn more, stand.goOn more rfl⟩
  · have fresh : ∀ content, items.head? ≠ some (.text content) := fun content first =>
      text ⟨content, first⟩
    exact ⟨_, transcript.text more fresh, stand.text more fresh rfl⟩

theorem Told.comment {r : Reading Comment} (h : e.Told o pre m) (data : e.mode = .data)
    (read : Comment.at? m = some r) : (e.receive [.comment r.value]).Told o pre r.cursor := by
  intro on
  obtain ⟨items, transcript, stand⟩ := h on
  have place := (Comment.place_of_read (Comment.eq_of_at? read)).2
  exact ⟨_, transcript.comment data read, stand.other nofun place⟩

theorem Told.other (h : e.Told o pre m) (kind : node.kind ≠ .text ∧ node.kind ≠ .comment)
    (forward : m.Reaches b) (place : node.loc = m.locationTo b) :
    (e.receive [node]).Told o pre b := by
  intro on
  obtain ⟨items, transcript, stand⟩ := h on
  exact ⟨_, transcript.other kind forward place, stand.other kind.1 place⟩

theorem Told.cdata (h : e.Told o pre m) (data : e.mode = .data)
    (starts : TextNode.sectionStart <+: m.rest) (source : List Char) :
    (e.receive (Siblings.settle o source pre (o.isPreTag e.element.tag)
      ((TextNode.readSection m).value.toList.map .text))).Told o pre
      (TextNode.readSection m).cursor := by
  intro on
  obtain ⟨items, transcript, stand⟩ := h on
  subst on
  rw [Siblings.settle_section]
  exact ⟨_, transcript.cdata data starts, stand.cdata starts⟩

theorem Told.endTag (h : e.Told o pre m) (data : e.mode = .data) (passed : Tag.PassedOver o m b)
    (ahead : m.position.offset < b.position.offset) : e.Told o pre b := by
  intro on
  obtain ⟨items, transcript, stand⟩ := h on
  exact ⟨_, transcript.endTag data passed, stand.pass rfl ahead⟩

end OpenElement

namespace State

variable {o : Options} {source : List Char} {s t : State} {flags : Flags} {m b : Cursor}
  {stack : List OpenElement} {nodes : List Node}

/-- The children of each open element can be told from what was read up to the start tag of the next
    one, and at last up to `c`; `flags` are switched on inside the innermost one. -/
def StackTold (o : Options) : Flags → List OpenElement → Cursor → Prop
  | _, [], _ => True
  | flags, e :: stack, c => e.Told o flags.pre c ∧ StackTold o e.outer stack e.start

theorem StackTold.receive (h : StackTold o flags stack m)
    (keeps : ∀ e below, stack = e :: below → e.Told o flags.pre m →
      (e.receive nodes).Told o flags.pre b) : StackTold o flags (receive nodes stack) b := by
  cases stack with
  | nil => trivial
  | cons e below => exact ⟨keeps e below rfl h.1, h.2⟩

/-- Everything that was read in `s` up to `m` is told. -/
def ToldTo (o : Options) (m : Cursor) (s : State) : Prop :=
  StackTold o s.flags s.stack m

theorem ToldTo.other {node : Node} (h : ToldTo o m s)
    (kind : node.kind ≠ .text ∧ node.kind ≠ .comment) (forward : m.Reaches b)
    (place : node.loc = m.locationTo b) : ToldTo o b (s.add node) := by
  unfold ToldTo
  rw [stack_add, flags_add]
  exact h.receive fun _ _ _ told => told.other kind forward place

theorem ToldTo.addElement {e : Element} (modern : o.legacy = none) (h : ToldTo o m s)
    (forward : m.Reaches b) (place : e.loc = m.locationTo b) :
    ToldTo o b (s.addElement o e nodes) := by
  rw [addElement_eq modern]
  exact h.other ⟨nofun, nofun⟩ forward place

theorem ToldTo.readText (h : ToldTo o s.cursor s) (more : s.cursor.rest ≠ []) :
    ToldTo o (s.readText o).cursor (s.readText o) := by
  unfold ToldTo State.readText
  rw [stack_add, flags_add, cursor_add]
  refine StackTold.receive h fun e below (top : s.stack = e :: below) told => ?_
  rw [mode_of_top top]
  exact told.text more

theorem ToldTo.addComment {r : Reading Comment} (h : ToldTo o s.cursor s) (data : s.mode = .data)
    (read : Comment.at? s.cursor = some r) :
    ToldTo o (s.addComment r).cursor (s.addComment r) := by
  unfold ToldTo State.addComment
  rw [stack_add, flags_add, cursor_add, cursor_after]
  refine StackTold.receive h fun e below (top : s.stack = e :: below) told => ?_
  exact told.comment ((mode_of_top top).symm.trans data) read

@[simp]
theorem flags_addAll (s : State) (nodes : List Node) : (s.addAll nodes).flags = s.flags := by
  induction nodes generalizing s with
  | nil => rfl
  | cons node nodes ih => rw [addAll, List.foldl_cons, ← addAll, ih, flags_add]

theorem ToldTo.readSection (h : ToldTo o s.cursor s) (data : s.mode = .data)
    (starts : TextNode.sectionStart <+: s.cursor.rest) :
    ToldTo o (s.readSection o source).cursor (s.readSection o source) := by
  unfold ToldTo State.readSection
  dsimp only
  rw [stack_addAll, flags_addAll, cursor_addAll]
  refine StackTold.receive h fun e below (top : s.stack = e :: below) told => ?_
  have parent : (s.parent.any fun e => o.isPreTag e.tag) = o.isPreTag e.element.tag := by
    simp [State.parent, top]
  rw [parent]
  exact told.cdata ((mode_of_top top).symm.trans data) starts source

theorem ToldTo.endTag (h : ToldTo o s.cursor s) (data : s.mode = .data)
    (passed : Tag.PassedOver o s.cursor b) (forward : s.cursor.Reaches b)
    (fewer : b.rest.length < s.cursor.rest.length) : ToldTo o b s := by
  have told : StackTold o s.flags (receive [] s.stack) b :=
    StackTold.receive h fun _ _ top told =>
      told.endTag ((mode_of_top top).symm.trans data) passed (forward.offset_lt fewer)
  rw [receive_nil] at told
  exact told

theorem ToldTo.closeElement {e : OpenElement} (modern : o.legacy = none)
    (placed : Placed source s) (h : ToldTo o s.cursor s) (top : s.stack = e :: stack) :
    ToldTo o (s.closeElement o source e stack).cursor (s.closeElement o source e stack) := by
  have spans := placed.nodes
  rw [top] at spans
  have forward := (spans.1.tag.trans spans.1.children.reaches).trans
    (s.reaches_afterEndTag o source e stack)
  unfold ToldTo at h
  rw [top] at h
  rw [closeElement_eq, cursor_addElement]
  refine ToldTo.addElement modern ?_ forward rfl
  simp only [ToldTo, afterEndTag, stack_readEndTag]
  exact h.2

theorem Opening.toldTo (k : Opening o s t) (modern : o.legacy = none)
    (h : ToldTo o s.cursor s) : ToldTo o t.cursor t := by
  have read := Tag.read_sound o .opening s.flags.vPre s.cursor s.cursor s.cursor
  cases k with
  | empty =>
      rw [cursor_addElement]
      exact ToldTo.addElement (s := s.afterStartTag o) modern h read.reaches rfl
  | tooDeep =>
      rw [cursor_addElement]
      exact ToldTo.addElement (s := (s.afterStartTag o).reportAt _ _) modern h read.reaches rfl
  | opened => exact ⟨fun _ => ⟨[], .nil, .nil _ _⟩, h⟩

/-- The mark that markup starts with stands at the cursor. -/
theorem mark_prefix {c : Cursor} (mark : c.rest.head? = some '<') :
    (Markup.classify (c.rest.drop 1)).mark <+: c.rest := by
  obtain ⟨rest, text⟩ := List.head?_eq_some_iff.mp mark
  rw [text]
  exact Markup.mark_classify rest

theorem Step.toldTo (k : Step o source s t) (modern : o.legacy = none)
    (placed : Placed source s) (smaller : t.size < s.size) (h : ToldTo o s.cursor s) :
    ToldTo o t.cursor t := by
  cases k with
  | close _ top => exact h.closeElement modern placed top
  | text goes => exact ToldTo.readText (s := s.report _) h (rest_ne_nil goes)
  | interpolation _ _ read =>
      rw [cursor_add, cursor_after]
      exact ToldTo.other (s := s.after _) h ⟨nofun, nofun⟩ (Interpolation.read?_sound read).reaches
        (Interpolation.loc_of_read? read)
  | comment _ data _ read => exact ToldTo.addComment (s := s.report _) h data read
  | cdata _ data _ markup mark =>
      have starts := mark_prefix mark
      rw [markup] at starts
      exact h.readSection data starts
  | namelessEndTag _ data markup mark =>
      exact h.endTag data (.nameless (Cursor.markup?_eq_some mark markup))
        (s.cursor.reaches_skip 3) (Nat.lt_of_add_lt_add_right smaller)
  | strayEndTag _ data markup mark =>
      have read := Tag.read_sound o .closing s.flags.vPre s.cursor s.cursor s.cursor
      exact h.endTag data (.stray (Cursor.markup?_eq_some mark markup) s.flags.vPre)
        read.reaches (Nat.lt_of_add_lt_add_right smaller)
  | startTag => exact (openElement_cases o s).toldTo modern h

/-- In every state of a reading the children of the open elements can be told from what was read. -/
theorem Reachable.toldTo (h : Reachable o source s) (modern : o.legacy = none) :
    ToldTo o s.cursor s := by
  induction h with
  | initial => trivial
  | step reachable goes ih =>
      exact (step_cases goes).toldTo modern reachable.placed (size_step_lt o source goes) ih

end State

end Stencil
