import Stencil.Proofs.Gathering

/-! # Nothing is lost

Where comments are kept and nothing legacy is honoured, every piece of a template but two kinds of
end tags goes into a node. So the finished nodes follow one another without a gap, and settling a
list opens gaps only where it drops blank text.
-/

namespace Stencil

namespace Text

theorem isBlankOnly_append {s t : List Char} :
    isBlankOnly (s ++ t) = true ↔ isBlankOnly s = true ∧ isBlankOnly t = true := by
  rw [isBlankOnly, List.all_append, Bool.and_eq_true]
  rfl

theorem not_isBlank_of_referenceAt? {s name : List Char} {c : Char}
    (h : referenceAt? basicReferences s = some (name, c)) : isBlank c = false := by
  have visible : ∀ entry ∈ basicReferences, isBlank entry.2 = false := by decide
  exact visible _ (List.mem_of_find?_eq_some h)

/-- No basic reference stands for a blank. -/
theorem isBlankOnly_of_decodeBasic {s : List Char} (h : isBlankOnly (decodeBasic s) = true) :
    isBlankOnly s = true := by
  induction s with
  | nil => rfl
  | cons c s ih =>
      rw [decodeBasic, decodeFrom] at h
      split at h
      · next name char found =>
        rw [isBlankOnly, List.all_cons, not_isBlank_of_referenceAt? found] at h
        cases h
      · rw [isBlankOnly, List.all_cons, Bool.and_eq_true] at h ⊢
        exact ⟨h.1, ih h.2⟩

end Text

namespace Cursor

/-- Nothing but blanks lies between two cursors. -/
def OverBlanks (a b : Cursor) : Prop :=
  a.Reaches b ∧ Text.isBlankOnly (a.textTo b) = true

theorem OverBlanks.refl (a : Cursor) : a.OverBlanks a :=
  ⟨.refl a, by rw [textTo_self]; rfl⟩

theorem OverBlanks.trans {a b c : Cursor} (h : a.OverBlanks b) (k : b.OverBlanks c) :
    a.OverBlanks c := by
  refine ⟨h.1.trans k.1, ?_⟩
  rw [textTo_append h.1 k.1]
  exact Text.isBlankOnly_append.mpr ⟨h.2, k.2⟩

/-- What the template has between the offsets of the two cursors is blank. -/
theorem OverBlanks.slice {source : List Char} {a b : Cursor} (h : a.OverBlanks b)
    (inside : (ofText source).Reaches a) :
    Text.isBlankOnly (Text.sliceBytes source a.position.offset b.position.offset) = true := by
  rw [sliceBytes_of_reaches inside h.1]
  exact h.2

end Cursor

namespace Location

/-- Locations that follow one another from `a` to `b`, with nothing but blanks before, between and
    after them. -/
def Cover (a b : Cursor) : List Location → Prop
  | [] => a.OverBlanks b
  | l :: ls => ∃ c d, a.OverBlanks c ∧ c.Reaches d ∧ l = c.locationTo d ∧ Cover d b ls

variable {a b m : Cursor} {l : Location} {ls ks : List Location}

theorem Cover.reaches (h : Cover a b ls) : a.Reaches b := by
  induction ls generalizing a with
  | nil => exact h.1
  | cons l ls ih =>
      obtain ⟨c, d, first, here, _, rest⟩ := h
      exact (first.1.trans here).trans (ih rest)

theorem Cover.after (h : Cover m b ls) (blank : a.OverBlanks m) : Cover a b ls := by
  cases ls with
  | nil => exact blank.trans h
  | cons l ls =>
      obtain ⟨c, d, first, rest⟩ := h
      exact ⟨c, d, blank.trans first, rest⟩

theorem cover_append : Cover a b (ls ++ ks) ↔ ∃ m, Cover a m ls ∧ Cover m b ks := by
  induction ls generalizing a with
  | nil =>
      refine ⟨fun h => ⟨a, .refl a, h⟩, ?_⟩
      rintro ⟨m, first, rest⟩
      exact rest.after first
  | cons l ls ih =>
      constructor
      · rintro ⟨c, d, first, here, place, rest⟩
        obtain ⟨m, rest, last⟩ := ih.mp rest
        exact ⟨m, ⟨c, d, first, here, place, rest⟩, last⟩
      · rintro ⟨m, ⟨c, d, first, here, place, rest⟩, last⟩
        exact ⟨c, d, first, here, place, ih.mpr ⟨m, rest, last⟩⟩

theorem Cover.single (h : a.Reaches b) : Cover a b [a.locationTo b] :=
  ⟨a, b, .refl a, h, rfl, .refl b⟩

end Location

/-! ## Siblings -/

/-- A text that shows nothing has nothing but blanks in the template. -/
def Node.Honest : Node → Prop
  | .text t => Text.isBlankOnly t.content = true → Text.isBlankOnly t.loc.source = true
  | .element .. | .comment _ | .interpolation _ => True

/-- Siblings as they were read on the way from `a` to `b`: all of it is in one of them. -/
structure Node.Cover (a b : Cursor) (nodes : List Node) : Prop where
  places : Location.Cover a b (nodes.map Node.loc)
  honest : ∀ n ∈ nodes, n.Honest

namespace Siblings

variable {source : List Char} {a b m : Cursor} {node : Node} {nodes : List Node}

theorem Cover.nil (a : Cursor) : Node.Cover a a [] :=
  ⟨.refl a, fun _ hn => nomatch hn⟩

theorem push_cover (h : Node.Cover a m nodes.reverse) (forward : m.Reaches b)
    (place : node.loc = m.locationTo b) (honest : node.Honest) :
    Node.Cover a b (push node nodes).reverse := by
  obtain ⟨places, earlier⟩ := h
  have appended : Node.Cover a b (node :: nodes).reverse := by
    rw [List.reverse_cons]
    refine ⟨?_, fun n hn => ?_⟩
    · rw [List.map_append, List.map_singleton, place]
      exact Location.cover_append.mpr ⟨m, places, .single forward⟩
    · rcases List.mem_append.mp hn with hn | hn
      · exact earlier n hn
      · exact List.mem_singleton.mp hn ▸ honest
  unfold push
  split
  · next t prev rest =>
    split
    · next touch =>
      rw [List.reverse_cons, List.map_append] at places
      obtain ⟨x, before, c, d, blank, here, last, gap⟩ := Location.cover_append.mp places
      change prev.loc = c.locationTo d at last
      change t.loc = m.locationTo b at place
      rw [last, place] at touch
      have same : d = m := gap.1.eq_of_offset touch
      subst same
      rw [List.reverse_cons]
      refine ⟨?_, fun n hn => ?_⟩
      · rw [List.map_append, List.map_singleton]
        refine Location.cover_append.mpr ⟨x, before, c, b, blank, here.trans forward, ?_, .refl b⟩
        simp only [Node.loc, last, place, Cursor.locationTo, Cursor.textTo_append here forward]
      · rcases List.mem_append.mp hn with hn | hn
        · exact earlier n (by rw [List.reverse_cons]; exact List.mem_append_left _ hn)
        · cases List.mem_singleton.mp hn
          have first : (Node.text prev).Honest := earlier _ (by simp)
          intro blank
          obtain ⟨left, right⟩ := Text.isBlankOnly_append.mp blank
          exact Text.isBlankOnly_append.mpr ⟨first left, honest right⟩
    · exact appended
  · exact appended

/-! ### Settling -/

theorem loc_of_settleNode {o : Options} {inPre : Bool} {prev next : Option NodeKind} {n : Node}
    (h : settleNode o inPre prev next node = some n) : n.loc = node.loc := by
  unfold settleNode at h
  split at h
  · obtain ⟨u, settled, rfl⟩ := Option.map_eq_some_iff.mp h
    exact loc_of_settleText settled
  · split at h
    · cases h
      rfl
    · cases h
  · cases h
    rfl

/-- Where comments are kept, only blank text is dropped. -/
theorem blank_of_settleNode {o : Options} {inPre : Bool} {prev next : Option NodeKind}
    (comments : o.comments = true) (h : settleNode o inPre prev next node = none) :
    ∃ t, node = .text t ∧ Text.isBlankOnly t.content = true := by
  cases node with
  | element e children => cases h
  | interpolation i => cases h
  | comment c =>
      rw [settleNode, if_pos comments] at h
      cases h
  | text t =>
      refine ⟨t, rfl, ?_⟩
      simp only [settleNode, Option.map_eq_none_iff, settleText] at h
      split at h
      · cases h
      · split at h
        · next blank => exact blank
        · split at h <;> cases h

theorem map_loc_dropFirstLineBreak (list : List (Option Node)) :
    ((dropFirstLineBreak list).filterMap id).map Node.loc = (list.filterMap id).map Node.loc := by
  unfold dropFirstLineBreak
  split <;> rfl

/-- What is kept of a list, before texts are joined, still covers it. -/
theorem settleEach_cover {o : Options} (comments : o.comments = true) (inPre : Bool)
    (prev : Option NodeKind) (h : Node.Cover a b nodes) :
    Location.Cover a b (((settleEach o inPre prev nodes).filterMap id).map Node.loc) := by
  obtain ⟨places, honest⟩ := h
  induction nodes generalizing a prev with
  | nil => exact places
  | cons node nodes ih =>
      obtain ⟨c, d, first, here, place, rest⟩ := places
      obtain ⟨told, honest⟩ := List.forall_mem_cons.mp honest
      have later := ih (some node.kind) rest honest
      rw [settleEach]
      cases settled : settleNode o inPre prev (nodes.head?.map Node.kind) node with
      | some n =>
          rw [List.filterMap_cons_some (f := id) rfl]
          exact ⟨c, d, first, here, (loc_of_settleNode settled).trans place, later⟩
      | none =>
          rw [List.filterMap_cons_none rfl]
          obtain ⟨t, rfl, blank⟩ := blank_of_settleNode comments settled
          have source : t.loc.source = c.textTo d := congrArg Location.source place
          have gap : c.OverBlanks d := ⟨here, source ▸ told blank⟩
          exact later.after (first.trans gap)

/-- Texts that are joined cover what lies between them too. -/
theorem joining_cover (o : Options) (inPre : Bool) (inside : (Cursor.ofText source).Reaches a)
    (h : Location.Cover a b (nodes.map Node.loc)) :
    Location.Cover a b ((nodes.foldr (consJoining o inPre source) []).map Node.loc) := by
  induction nodes generalizing a with
  | nil => exact h
  | cons node nodes ih =>
      obtain ⟨c, d, first, here, place, rest⟩ := h
      have start := inside.trans first.1
      have later := ih (start.trans here) rest
      rw [List.foldr_cons]
      generalize nodes.foldr (consJoining o inPre source) [] = joined at later ⊢
      unfold consJoining
      split
      · next t u rest =>
        obtain ⟨e, f, between, there, place', rest⟩ := later
        have across := (here.trans between.1).trans there
        change t.loc = c.locationTo d at place
        change u.loc = e.locationTo f at place'
        refine ⟨c, f, first, across, ?_, rest⟩
        simp only [Node.loc, joinTexts, place, place', Cursor.locationTo]
        rw [Cursor.sliceBytes_of_reaches start across]
      · exact ⟨c, d, first, here, place, later⟩

/-- Settling opens no gap but over blanks, where comments are kept. -/
theorem settle_cover {o : Options} (comments : o.comments = true) (inPre preParent : Bool)
    (inside : (Cursor.ofText source).Reaches a) (h : Node.Cover a b nodes) :
    Location.Cover a b ((settle o source inPre preParent nodes).map Node.loc) := by
  refine joining_cover o inPre inside ?_
  split
  · rw [map_loc_dropFirstLineBreak]
    exact settleEach_cover comments inPre none h
  · exact settleEach_cover comments inPre none h

end Siblings

/-! ## States -/

/-- Options under which nothing is left out: comments are kept, no legacy is honoured, there are no
    CDATA sections, and no reference stands for blanks. -/
structure Options.KeepsAll (o : Options) : Prop where
  comments : o.comments = true
  modern : o.legacy = none
  html : ∀ tag parent, o.namespaceOf tag parent = .html
  visible : ∀ s inValue, Text.isBlankOnly (o.decodeReferences s inValue) = true →
    Text.isBlankOnly s = true

theorem Options.KeepsAll.decode {o : Options} (h : o.KeepsAll) {mode : TextMode} {s : List Char}
    (blank : Text.isBlankOnly (o.decode mode s) = true) : Text.isBlankOnly s = true := by
  unfold Options.decode at blank
  split at blank
  case h_1 | h_2 => exact blank
  all_goals
    split at blank
    · exact h.visible s _ blank
    · exact blank

theorem Options.keepsAll_base (w : Whitespace) :
    Options.KeepsAll { Options.base with whitespace := w } where
  comments := rfl
  modern := rfl
  html _ _ := rfl
  visible _ _ := Text.isBlankOnly_of_decodeBasic

/-- Cover is kept on the way as long as no end tag is passed over. -/
theorem Siblings.cover_gathers {o : Options} {errors : List ParseError} (keeps : o.KeepsAll)
    (clean : ∀ x ∈ errors, x.code.isPassedOver = false) :
    Gathers o errors fun a b nodes => Node.Cover a b nodes.reverse where
  nil a := Cover.nil a
  text {a m nodes mode} _ _ h := by
    have read := TextNode.read_sound o mode m
    refine push_cover h read.reaches rfl fun blank => ?_
    change Text.isBlankOnly (m.textTo (m.skip _)) = true
    rw [Cursor.textTo_skip]
    exact keeps.decode blank
  other {a m b nodes node} other forward place h := by
    have honest : node.Honest := by
      cases node with
      | text t => exact absurd rfl other
      | element | comment | interpolation => exact trivial
    rw [← State.push_of_ne other]
    exact push_cover h forward place honest
  endTag forward passed _ _ h := by
    obtain ⟨x, reported, code, _⟩ := passed
    rw [clean x reported] at code
    cases code

namespace State

variable {o : Options} {source : List Char} {s : State} {roots : List Node}
  {stack : List OpenElement} {a c : Cursor}

/-- The nodes outside of all elements, and then those inside each open element, cover the way from
    `a` to `c` but for the start tags of the open elements. -/
def StackCovers (roots : List Node) (a : Cursor) : List OpenElement → Cursor → Prop
  | [], c => Node.Cover a c roots.reverse
  | e :: stack, c => Node.Cover e.body c e.children.reverse ∧ StackCovers roots a stack e.start

/-- All that was read of `source` up to `m` is in some node or start tag. -/
def CoveredTo (source : List Char) (m : Cursor) (s : State) : Prop :=
  StackCovers s.roots (.ofText source) s.stack m

theorem stackCovers_iff : StackCovers roots a stack c ↔
    StackGathers (fun a b nodes => Node.Cover a b nodes.reverse) roots a stack c := by
  induction stack generalizing c with
  | nil => exact .rfl
  | cons e stack ih => exact and_congr_right fun _ => ih

/-- As long as no end tag was passed over, all that was read is in some node or start tag. -/
theorem Reachable.coveredTo (h : Reachable o source s) (keeps : o.KeepsAll)
    (clean : ∀ x ∈ s.errors, x.code.isPassedOver = false) : CoveredTo source s.cursor s :=
  stackCovers_iff.mpr
    (h.gathered (Siblings.cover_gathers keeps clean) keeps.modern keeps.html fun _ hx => hx)

theorem cover_finishedChildren {e : OpenElement} (keeps : o.KeepsAll) (h : Reachable o source s)
    (top : s.stack = e :: stack) (clean : ∀ x ∈ s.errors, x.code.isPassedOver = false)
    (inPre : Bool) :
    Location.Cover e.body s.cursor ((finishedChildren o source inPre e).map Node.loc) := by
  have spans := h.placed.nodes
  have covered := h.coveredTo keeps clean
  unfold CoveredTo at covered
  rw [top] at spans covered
  have inside := spans.2.reaches.trans spans.1.tag
  unfold finishedChildren
  split
  · exact covered.1.places
  · exact covered.1.places
  all_goals exact Siblings.settle_cover keeps.comments _ _ inside covered.1

end State

/-! ## Trees -/

namespace Node

/-- Between siblings next to each other the template `source` has nothing but blanks. -/
def Adjoin (source : List Char) (nodes : List Node) : Prop :=
  nodes.IsChain fun m n =>
    Text.isBlankOnly (Text.sliceBytes source m.loc.stop.offset n.loc.start.offset) = true

variable {source : List Char} {a b : Cursor} {node : Node} {nodes : List Node}

/-- Before the first of some nodes that cover a way there is nothing but blanks. -/
theorem blank_before (h : Location.Cover a b (nodes.map Node.loc))
    (inside : (Cursor.ofText source).Reaches a) : ∀ n ∈ nodes.head?,
      Text.isBlankOnly (Text.sliceBytes source a.position.offset n.loc.start.offset) = true := by
  intro n hn
  obtain ⟨rest, rfl⟩ := List.head?_eq_some_iff.mp hn
  obtain ⟨c, d, first, _, place, _⟩ := h
  rw [place]
  exact first.slice inside

theorem adjoin_of_cover (h : Location.Cover a b (nodes.map Node.loc))
    (inside : (Cursor.ofText source).Reaches a) : Adjoin source nodes := by
  induction nodes generalizing a with
  | nil => exact .nil
  | cons node nodes ih =>
      obtain ⟨c, d, first, here, place, rest⟩ := h
      have after := (inside.trans first.1).trans here
      refine List.isChain_cons.mpr ⟨fun n hn => ?_, ih rest after⟩
      rw [place]
      exact blank_before rest after n hn

/-- After the last of some nodes that cover a way there is nothing but blanks. -/
theorem blank_after (h : Location.Cover a b (nodes.map Node.loc))
    (inside : (Cursor.ofText source).Reaches a) : ∀ n ∈ nodes.getLast?,
      Text.isBlankOnly (Text.sliceBytes source n.loc.stop.offset b.position.offset) = true := by
  intro n hn
  obtain ⟨before, rfl⟩ := List.getLast?_eq_some_iff.mp hn
  rw [List.map_append] at h
  obtain ⟨m, before, c, d, first, here, place, last⟩ := Location.cover_append.mp h
  change n.loc = c.locationTo d at place
  rw [place]
  exact last.slice (((inside.trans before.reaches).trans first.1).trans here)

theorem Derived.adjoin {o : Options} {flags : Flags} (h : node.Derived o source flags)
    (keeps : o.KeepsAll)
    (clean : ∀ s, State.Reachable o source s → ∀ x ∈ s.errors, x.code.isPassedOver = false) :
    Adjoin source node.children := by
  refine h.forall_children (P := fun _ => Adjoin source) (fun _ => .nil) ?_
  intro s e stack reachable top
  have spans := reachable.placed.nodes
  rw [top] at spans
  exact adjoin_of_cover (State.cover_finishedChildren keeps reachable top (clean s reachable) _)
    (spans.2.reaches.trans spans.1.tag)

end Node

/-- What is reported in some state of a reading is reported in the end. -/
theorem State.Reachable.errors_subset {o : Options} {source : List Char} {s : State}
    (h : Reachable o source s) : ∀ x ∈ s.errors, x ∈ (parse o source).errors := by
  intro x hx
  obtain ⟨_, n, _, steps⟩ := steps_run o source s
  rw [parse, h.run_eq]
  exact List.mem_reverse.mpr (steps.errors_suffix.subset hx)

/-- The whole template lies between its start and a cursor that has nothing left to read. -/
theorem Cursor.textTo_end {source : List Char} {c : Cursor} (h : (ofText source).Reaches c)
    (rest : c.rest = []) : (ofText source).textTo c = source := by
  have split := h.rest_eq
  rw [rest, List.append_nil] at split
  exact split.symm

/-- A template is covered by its tree: with comments kept and nothing legacy honoured, and unless an
    end tag is reported to have no name or no element, nothing but blanks lies between two siblings,
    before the first node and after the last one. -/
theorem parse_covers (w : Whitespace) (source : List Char)
    (clean : ∀ x ∈ (parse { Options.base with whitespace := w } source).errors,
      x.code ≠ .invalidEndTag ∧ x.code ≠ .missingEndTagName) :
    let children := (parse { Options.base with whitespace := w } source).root.children
    Node.Adjoin source children ∧
      (∀ n ∈ children.head?,
        Text.isBlankOnly (Text.sliceBytes source 0 n.loc.start.offset) = true) ∧
      (∀ n ∈ children.getLast?, Text.isBlankOnly
        (Text.sliceBytes source n.loc.stop.offset (Text.byteLength source)) = true) ∧
      (children = [] → Text.isBlankOnly source = true) ∧
      ∀ path node, Node.at? children path = some node → Node.Adjoin source node.children := by
  intro children
  have keeps := Options.keepsAll_base w
  have quiet : ∀ s, State.Reachable { Options.base with whitespace := w } source s →
      ∀ x ∈ s.errors, x.code.isPassedOver = false := by
    intro s reachable x hx
    obtain ⟨closes, named⟩ := clean x (reachable.errors_subset x hx)
    unfold ErrorCode.isPassedOver
    split <;> simp_all
  obtain ⟨s, reachable, done, result⟩ :=
    State.exists_reachable_result { Options.base with whitespace := w } source
  obtain ⟨empty, rest⟩ := State.rest_of_isDone done
  have places : Location.Cover (.ofText source) s.cursor (children.map Node.loc) := by
    have covered := reachable.coveredTo keeps (quiet s reachable)
    unfold State.CoveredTo at covered
    rw [empty] at covered
    rw [show children = _ from congrArg (fun t => t.root.children) result]
    exact Siblings.settle_cover keeps.comments s.flags.pre false (.refl _) covered
  have whole := Cursor.textTo_end places.reaches rest
  have stop : s.cursor.position.offset = Text.byteLength source := by
    rw [places.reaches.offset_eq, whole]
    exact Nat.zero_add _
  refine ⟨Node.adjoin_of_cover places (.refl _), Node.blank_before places (.refl _), ?_, ?_, ?_⟩
  · rw [← stop]
    exact Node.blank_after places (.refl _)
  · intro none
    rw [none] at places
    exact whole ▸ places.2
  · intro path node found
    obtain ⟨flags, derived⟩ := exists_derived_of_at? found
    exact derived.adjoin keeps quiet

/-- Unclosed elements, stray marks and bogus comments are not lost. -/
theorem parse_covers_unclosed :
    let source := "\t<!x>\n<ul> <li>a < b<!-- c --> &lt; <p> </li>\x7b\x7b d</".toList
    let children := (parse { Options.base with whitespace := .condense } source).root.children
    (∀ x ∈ (parse { Options.base with whitespace := .condense } source).errors,
      x.code ≠ .invalidEndTag ∧ x.code ≠ .missingEndTagName) ∧
      children.length = 2 ∧ Node.Adjoin source children := by
  intro source children
  have clean : ∀ x ∈ (parse { Options.base with whitespace := .condense } source).errors,
      x.code ≠ .invalidEndTag ∧ x.code ≠ .missingEndTagName := by decide +kernel
  exact ⟨clean, by decide +kernel, (parse_covers .condense source clean).1⟩

end Stencil
