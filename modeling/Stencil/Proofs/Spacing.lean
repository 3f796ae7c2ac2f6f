import Stencil.Proofs.Coverage
import Stencil.Proofs.Diagnostics.Siblings
import Stencil.Proofs.Scoping

/-! # White space in finished trees

Where white space is condensed, the texts of a finished tree have single spaces only, and blank
text is left only where it separates what is shown. Whether a blank text goes is decided by its
neighbours as they were read. These are no texts, and so they are its neighbours in the end too,
unless an end tag was passed over right next to it: only then are two texts read one behind the
other without being one.
-/

namespace Stencil

namespace Text

/-- Every blank is a space, and none follows another. -/
structure SingleSpaced (s : List Char) : Prop where
  spaces : ∀ c ∈ s, isBlank c = true → c = ' '
  single : s.IsChain fun c d => ¬(isBlank c = true ∧ isBlank d = true)

/-- In the middle of a run of blanks, what comes next is none. -/
theorem head?_condenseFrom_true (s : List Char) :
    ∀ c ∈ (condenseFrom true s).head?, isBlank c = false := by
  induction s with
  | nil => exact fun c hc => nomatch hc
  | cons c s ih =>
      rw [condenseFrom]
      split
      · exact ih
      · next other =>
        intro d hd
        cases hd
        simpa using other

theorem singleSpaced_condenseFrom (inRun : Bool) (s : List Char) :
    SingleSpaced (condenseFrom inRun s) := by
  fun_induction condenseFrom inRun s with
  | case1 => exact ⟨List.forall_mem_nil _, .nil⟩
  | case2 c cs blank ih => exact ih
  | case3 inRun c cs blank _ ih =>
      refine ⟨List.forall_mem_cons.mpr ⟨fun _ => rfl, ih.spaces⟩, ?_⟩
      refine List.isChain_cons.mpr ⟨fun d hd both => ?_, ih.single⟩
      rw [head?_condenseFrom_true cs d hd] at both
      exact Bool.false_ne_true both.2
  | case4 inRun c cs other ih =>
      refine ⟨List.forall_mem_cons.mpr ⟨fun blank => absurd blank other, ih.spaces⟩, ?_⟩
      exact List.isChain_cons.mpr ⟨fun d hd both => other both.1, ih.single⟩

theorem condense_condense (s : List Char) : condense (condense s) = condense s :=
  condense_append_condense [] s

end Text

/-! ## The law -/

/-- An offset lies inside of a location. -/
def Location.Holds (l : Location) (i : Nat) : Prop :=
  l.start.offset ≤ i ∧ i < l.stop.offset

namespace Node

/-- The text, if it is one, is as condensing leaves it. -/
def Condensed : Node → Prop
  | .text t => Text.condense t.content = t.content ∧ Text.SingleSpaced t.content
  | .element .. | .comment _ | .interpolation _ => True

/-- Blank text stands neither at the ends of a list nor between two comments nor between a comment
    and an element, and between two elements it has no line break. -/
structure WellSpaced (nodes : List Node) : Prop where
  first : ∀ t rest, nodes = .text t :: rest → Text.isBlankOnly t.content = false
  last : ∀ t before, nodes = before ++ [.text t] → Text.isBlankOnly t.content = false
  afterComment : ∀ m t n, [m, .text t, n] <:+: nodes → Text.isBlankOnly t.content = true →
    m.kind = .comment → n.kind ≠ .comment ∧ n.kind ≠ .element
  beforeComment : ∀ m t n, [m, .text t, n] <:+: nodes → Text.isBlankOnly t.content = true →
    m.kind = .element → n.kind ≠ .comment
  elements : ∀ m t n, [m, .text t, n] <:+: nodes → Text.isBlankOnly t.content = true →
    m.kind = .element → n.kind = .element → '\n' ∉ t.loc.source ∧ '\r' ∉ t.loc.source

/-- An end tag was passed over right among `nodes`, the siblings that stand in `l`: it lies in none
    of the elements among them. -/
def Interrupted (errors : List ParseError) (l : Location) (nodes : List Node) : Prop :=
  ∃ i, ParseError.PassedOver errors i ∧ l.Holds i ∧
    ∀ n ∈ nodes, n.kind = .element → ¬ n.loc.Holds i

/-- How the siblings that stand in `l` are spaced: their texts are condensed, and blank text is
    where it belongs unless an end tag was passed over among them. -/
structure Spaced (errors : List ParseError) (l : Location) (nodes : List Node) : Prop where
  condensed : ∀ n ∈ nodes, n.Condensed
  wellSpaced : ¬ Interrupted errors l nodes → WellSpaced nodes

/-- Every blank text in a list that follows a node of the kind `prev` is where it belongs. -/
def SpacedAfter : Option NodeKind → List Node → Prop
  | _, [] => True
  | prev, .text t :: nodes =>
    (Text.isBlankOnly t.content = true → ∃ p n, prev = some p ∧
      nodes.head?.map Node.kind = some n ∧ Siblings.isRemovable p n t.loc.source = false) ∧
    SpacedAfter (some .text) nodes
  | _, node :: nodes => SpacedAfter (some node.kind) nodes

variable {node : Node} {nodes : List Node} {prev : Option NodeKind}

/-- What comes before does not matter to a list that does not start with a text. -/
theorem SpacedAfter.after (h : SpacedAfter prev nodes)
    (other : nodes.head?.map Node.kind ≠ some .text) (previous : Option NodeKind) :
    SpacedAfter previous nodes := by
  match nodes, other with
  | [], _ => exact trivial
  | .text _ :: _, other => exact absurd rfl other
  | .element .. :: _, _ | .comment _ :: _, _ | .interpolation _ :: _, _ => exact h

theorem SpacedAfter.tail (h : SpacedAfter prev (node :: nodes)) :
    SpacedAfter (some node.kind) nodes := by
  cases node with
  | text t => exact h.2
  | element | comment | interpolation => exact h

theorem SpacedAfter.last (h : SpacedAfter prev nodes) {t : TextNode} {before : List Node}
    (split : nodes = before ++ [.text t]) : Text.isBlankOnly t.content = false := by
  subst split
  induction before generalizing prev with
  | nil =>
      by_contra blank
      obtain ⟨p, n, _, next, _⟩ := h.1 (by simpa using blank)
      cases next
  | cons node before ih => exact ih h.tail

theorem SpacedAfter.between (h : SpacedAfter prev nodes) {m n : Node} {t : TextNode}
    (here : [m, .text t, n] <:+: nodes) (blank : Text.isBlankOnly t.content = true) :
    Siblings.isRemovable m.kind n.kind t.loc.source = false := by
  obtain ⟨before, after, rfl⟩ := here
  rw [List.append_assoc] at h
  induction before generalizing prev with
  | nil =>
      obtain ⟨p, q, same, next, kept⟩ := h.tail.1 blank
      cases same
      cases next
      exact kept
  | cons node before ih => exact ih h.tail

theorem SpacedAfter.wellSpaced (h : SpacedAfter none nodes) : WellSpaced nodes where
  first t rest split := by
    subst split
    by_contra blank
    obtain ⟨p, n, previous, _⟩ := h.1 (by simpa using blank)
    cases previous
  last t before split := h.last split
  afterComment m t n here blank comment := by
    have kept := h.between here blank
    rw [comment] at kept
    constructor
    · intro next
      rw [next] at kept
      cases kept
    · intro next
      rw [next] at kept
      cases kept
  beforeComment m t n here blank element next := by
    have kept := h.between here blank
    rw [element, next] at kept
    cases kept
  elements m t n here blank element next := by
    have kept := h.between here blank
    rw [element, next] at kept
    simp only [Siblings.isRemovable, List.any_eq_false] at kept
    exact ⟨fun hc => kept _ hc rfl, fun hc => kept _ hc rfl⟩

/-- A text, if it is blank, is what the template has in its place. -/
def Verbatim : Node → Prop
  | .text t => Text.isBlankOnly t.content = true → t.content = t.loc.source
  | .element .. | .comment _ | .interpolation _ => True

theorem verbatim_of_ne (other : node.kind ≠ .text) : node.Verbatim := by
  cases node with
  | text t => exact absurd rfl other
  | element | comment | interpolation => exact trivial

end Node

/-! ## Settling -/

namespace Siblings

variable {o : Options} {source : List Char} {node : Node} {nodes : List Node}
  {prev : Option NodeKind}

theorem exists_of_mem_settleEach {inPre : Bool} {x : Option Node}
    (h : x ∈ settleEach o inPre prev nodes) :
    ∃ prev next, ∃ node ∈ nodes, settleNode o inPre prev next node = x := by
  induction nodes generalizing prev with
  | nil => cases h
  | cons node nodes ih =>
      rw [settleEach] at h
      rcases List.mem_cons.mp h with rfl | later
      · exact ⟨_, _, node, List.mem_cons_self, rfl⟩
      · obtain ⟨prev, next, n, member, settled⟩ := ih later
        exact ⟨prev, next, n, List.mem_cons_of_mem node member, settled⟩

theorem condensed_of_eq {t : TextNode} {s : List Char} (h : t.content = Text.condense s) :
    (Node.text t).Condensed := by
  refine ⟨?_, ?_⟩
  · rw [h, Text.condense_condense]
  · rw [h]
    exact Text.singleSpaced_condenseFrom false s

section

variable (condenses : o.condenses = true)

include condenses

/-- What becomes of a text that is kept: a blank one has a neighbour on either side and is now a
    space, and any other one is condensed. -/
theorem settleText_eq_some {next : Option NodeKind} {t u : TextNode}
    (h : settleText o false prev next t = some u) :
    (Text.isBlankOnly t.content = true ∧ u = { t with content := [' '] } ∧
      ∃ p n, prev = some p ∧ next = some n ∧ isRemovable p n t.content = false) ∨
    (Text.isBlankOnly t.content = false ∧ u = { t with content := Text.condense t.content }) := by
  simp only [settleText, condenses, Bool.true_and, Bool.false_eq_true, if_false, if_true] at h
  split at h
  · next blank =>
    split at h
    · next p n =>
      split at h
      · cases h
      · next kept =>
        cases h
        exact .inl ⟨blank, rfl, p, n, rfl, rfl, Bool.eq_false_iff.mpr kept⟩
    · cases h
  · next other =>
    cases h
    exact .inr ⟨Bool.eq_false_iff.mpr other, rfl⟩

theorem condensed_settleNode {next : Option NodeKind} {n : Node}
    (h : settleNode o false prev next node = some n) : n.Condensed := by
  cases node with
  | element | interpolation =>
      cases h
      exact trivial
  | comment c =>
      rw [settleNode] at h
      split at h
      · cases h
        exact trivial
      · cases h
  | text t =>
      obtain ⟨u, settled, rfl⟩ := Option.map_eq_some_iff.mp h
      rcases settleText_eq_some condenses settled with ⟨_, rfl, _⟩ | ⟨_, rfl⟩
      · exact condensed_of_eq (s := [' ']) rfl
      · exact condensed_of_eq rfl

/-- Settling condenses every text, those it joins included. -/
theorem condensed_settle (preParent : Bool) :
    ∀ n ∈ settle o source false preParent nodes, n.Condensed := by
  have kept : ∀ n ∈ (settleEach o false none nodes).filterMap id, n.Condensed := by
    intro n hn
    obtain ⟨x, hx, rfl⟩ := List.mem_filterMap.mp hn
    obtain ⟨prev, next, node, _, settled⟩ := exists_of_mem_settleEach hx
    exact condensed_settleNode condenses settled
  simp only [settle, Bool.false_and, Bool.false_eq_true, if_false]
  generalize (settleEach o false none nodes).filterMap id = list at kept ⊢
  induction list with
  | nil => exact List.forall_mem_nil _
  | cons node list ih =>
      obtain ⟨first, rest⟩ := List.forall_mem_cons.mp kept
      have later := ih rest
      rw [List.foldr_cons]
      generalize list.foldr (consJoining o false source) [] = joined at later ⊢
      unfold consJoining
      split
      · next t u rest =>
        refine List.forall_mem_cons.mpr ⟨?_, (List.forall_mem_cons.mp later).2⟩
        exact condensed_of_eq (s := t.content ++ u.content) (by simp [joinTexts, condenses])
      · exact List.forall_mem_cons.mpr ⟨first, later⟩

end

/-- Joining leaves a list alone that has no texts next to each other. -/
theorem foldr_consJoining_of_apart {inPre : Bool} (h : Node.Apart nodes) :
    nodes.foldr (consJoining o inPre source) [] = nodes := by
  induction nodes with
  | nil => rfl
  | cons node nodes ih =>
      obtain ⟨first, rest⟩ := List.isChain_cons.mp h
      rw [List.foldr_cons, ih rest]
      unfold consJoining
      split
      · exact absurd ⟨rfl, rfl⟩ (first _ rfl)
      · rfl

/-- What is kept of a list, one behind the other. -/
def settled (o : Options) (prev : Option NodeKind) (nodes : List Node) : List Node :=
  (settleEach o false prev nodes).filterMap id

theorem settled_cons_of_ne (comments : o.comments = true) (other : node.kind ≠ .text) :
    settled o prev (node :: nodes) = node :: settled o (some node.kind) nodes := by
  rw [settled, settleEach, settleNode_of_ne comments other]
  rfl

theorem settled_text (t : TextNode) :
    settled o prev (.text t :: nodes) =
      match settleText o false prev (nodes.head?.map Node.kind) t with
      | none => settled o (some .text) nodes
      | some u => .text u :: settled o (some .text) nodes := by
  rw [settled, settleEach, settleNode]
  cases settleText o false prev (nodes.head?.map Node.kind) t <;> rfl

theorem head?_settled (comments : o.comments = true)
    (other : nodes.head?.map Node.kind ≠ some .text) :
    (settled o prev nodes).head?.map Node.kind = nodes.head?.map Node.kind := by
  cases nodes with
  | nil => rfl
  | cons node nodes =>
      rw [settled_cons_of_ne comments fun text => other (congrArg some text)]
      rfl

/-- In a list without texts next to each other, the neighbours of a text stay. -/
theorem settled_spaced (comments : o.comments = true) (condenses : o.condenses = true)
    (apart : Node.Apart nodes) (verbatim : ∀ n ∈ nodes, n.Verbatim) :
    Node.Apart (settled o prev nodes) ∧ Node.SpacedAfter prev (settled o prev nodes) := by
  induction nodes generalizing prev with
  | nil => exact ⟨.nil, trivial⟩
  | cons node nodes ih =>
      obtain ⟨neighbour, apart⟩ := List.isChain_cons.mp apart
      obtain ⟨told, verbatim⟩ := List.forall_mem_cons.mp verbatim
      obtain ⟨apart, spaced⟩ := @ih (some node.kind) apart verbatim
      by_cases text : node.kind = .text
      · obtain ⟨t, rfl⟩ := Node.eq_text_of_kind text
        -- What follows a text is no text, so it is kept and still follows in the end.
        have other : nodes.head?.map Node.kind ≠ some .text := by
          intro next
          obtain ⟨n, hn, kind⟩ := Option.map_eq_some_iff.mp next
          exact neighbour n hn ⟨rfl, kind⟩
        have next : (settled o (some .text) nodes).head?.map Node.kind =
            nodes.head?.map Node.kind := head?_settled comments other
        rw [← next] at other
        cases kept : settleText o false prev (nodes.head?.map Node.kind) t with
        | none =>
            rw [settled_text, kept]
            exact ⟨apart, spaced.after other prev⟩
        | some u =>
            rw [settled_text, kept]
            refine ⟨List.isChain_cons.mpr ⟨fun n hn both => ?_, apart⟩, fun blank => ?_, spaced⟩
            · exact other (Option.map_eq_some_iff.mpr ⟨n, hn, both.2⟩)
            · rcases settleText_eq_some condenses kept with
                ⟨unseen, rfl, p, n, before, after, meaning⟩ | ⟨seen, rfl⟩
              · rw [told unseen] at meaning
                exact ⟨p, n, before, next.trans after, meaning⟩
              · rw [Text.condense, Text.isBlankOnly_condenseFrom, seen] at blank
                cases blank
      · rw [settled_cons_of_ne comments text]
        refine ⟨List.isChain_cons.mpr ⟨fun n _ both => text both.1, apart⟩, ?_⟩
        cases node with
        | text t => exact absurd rfl text
        | element | comment | interpolation => exact spaced

/-- A list without texts next to each other is well spaced once it is settled. -/
theorem wellSpaced_settle (comments : o.comments = true) (condenses : o.condenses = true)
    (apart : Node.Apart nodes) (verbatim : ∀ n ∈ nodes, n.Verbatim) (preParent : Bool) :
    Node.WellSpaced (settle o source false preParent nodes) := by
  obtain ⟨apart, spaced⟩ := @settled_spaced o nodes none comments condenses apart verbatim
  simp only [settle, Bool.false_and, Bool.false_eq_true, if_false]
  change Node.WellSpaced ((settled o none nodes).foldr (consJoining o false source) [])
  rw [foldr_consJoining_of_apart apart]
  exact spaced.wellSpaced

end Siblings

/-! ## Reading -/

theorem Node.Interrupted.widen {errors : List ParseError} {k l : Location}
    {nodes later : List Node} (h : Interrupted errors k nodes)
    (start : l.start.offset ≤ k.start.offset) (stop : k.stop.offset ≤ l.stop.offset)
    (elements : ∀ n ∈ later, n.kind = .element → n ∈ nodes ∨ k.stop.offset ≤ n.loc.start.offset) :
    Interrupted errors l later := by
  obtain ⟨i, passed, inside, outside⟩ := h
  refine ⟨i, passed, ⟨start.trans inside.1, inside.2.trans_le stop⟩, fun n hn element holds => ?_⟩
  rcases elements n hn element with old | new
  · exact outside n old element holds
  · exact absurd (inside.2.trans_le (new.trans holds.1)) (Nat.lt_irrefl i)

/-- A text in the template that stands for blanks is these blanks. -/
theorem Options.KeepsAll.decode_eq {o : Options} (h : o.KeepsAll) {mode : TextMode}
    {s : List Char} (blank : Text.isBlankOnly (o.decode mode s) = true) : o.decode mode s = s := by
  have blanks : ∀ c ∈ s, Text.isBlank c = true := List.all_eq_true.mp (h.decode blank)
  refine Options.decode_of_not_mem o mode fun hc => ?_
  exact absurd (blanks '&' hc) (by decide)

namespace Siblings

variable {o : Options} {source : List Char} {errors : List ParseError} {a c : Cursor}
  {nodes : List Node}

/-- Siblings, newest first, that were read on the way from `a` to `c`: they have no texts next to
    each other unless an end tag was passed over among them. -/
structure Traced (errors : List ParseError) (a c : Cursor) (nodes : List Node) : Prop where
  forward : a.Reaches c
  behind : ∀ n ∈ nodes, n.kind = .element → n.loc.stop.offset ≤ c.position.offset
  verbatim : ∀ n ∈ nodes, n.Verbatim
  flush : Flush c nodes ∨ Node.Interrupted errors (a.locationTo c) nodes

theorem verbatim_push {node : Node} (told : node.Verbatim) (h : ∀ n ∈ nodes, n.Verbatim) :
    ∀ n ∈ push node nodes, n.Verbatim := by
  have added : ∀ n ∈ node :: nodes, n.Verbatim := List.forall_mem_cons.mpr ⟨told, h⟩
  unfold push
  split
  · next t prev rest =>
    split
    · obtain ⟨first, rest⟩ := List.forall_mem_cons.mp h
      refine List.forall_mem_cons.mpr ⟨fun blank => ?_, rest⟩
      obtain ⟨left, right⟩ := Text.isBlankOnly_append.mp blank
      exact congr (congrArg _ (first left)) (told right)
    · exact added
  · exact added

theorem traced_gathers (keeps : o.KeepsAll) (errors : List ParseError) :
    Gathers o errors (Traced errors) where
  nil a := ⟨.refl a, fun _ hn => (nomatch hn), fun _ hn => (nomatch hn),
    .inl ⟨.nil, fun _ hn => nomatch hn⟩⟩
  text {a m nodes mode} _ _ h := by
    have read := (TextNode.read_sound o mode m).reaches
    have told : (Node.text (TextNode.read o mode m).value).Verbatim := by
      intro blank
      change _ = m.textTo (m.skip _)
      rw [Cursor.textTo_skip]
      exact keeps.decode_eq blank
    refine ⟨h.forward.trans read, ?_, verbatim_push told h.verbatim, ?_⟩
    · refine forall_push (fun _ => nofun) (fun n hn element => ?_) nofun
      exact (h.behind n hn element).trans read.offset_le
    · refine h.flush.imp (fun flush => flush.push rfl) fun interrupted => ?_
      refine interrupted.widen (Nat.le_refl _) read.offset_le ?_
      exact forall_push (fun _ => nofun) (fun n hn _ => .inl hn) nofun
  other {a m b nodes node} other forward place h := by
    have start : node.loc.start.offset = m.position.offset := by rw [place]; rfl
    have stop : node.loc.stop.offset = b.position.offset := by rw [place]; rfl
    refine ⟨h.forward.trans forward, ?_, ?_, ?_⟩
    · refine List.forall_mem_cons.mpr ⟨fun _ => stop.le, fun n hn element => ?_⟩
      exact (h.behind n hn element).trans forward.offset_le
    · exact List.forall_mem_cons.mpr ⟨Node.verbatim_of_ne other, h.verbatim⟩
    · refine h.flush.imp (fun flush => ?_) fun interrupted => ?_
      · rw [← State.push_of_ne other]
        exact flush.push place
      · refine interrupted.widen (Nat.le_refl _) forward.offset_le ?_
        exact List.forall_mem_cons.mpr ⟨fun _ => .inr start.ge, fun n hn _ => .inl hn⟩
  endTag {a m b nodes i} forward passed after before h := by
    -- Whatever was read so far ends before the end tag.
    refine ⟨h.forward.trans forward, fun n hn element => ?_, h.verbatim, .inr ?_⟩
    · exact (h.behind n hn element).trans forward.offset_le
    · refine ⟨i, passed, ⟨h.forward.offset_le.trans after, before⟩, fun n hn element holds => ?_⟩
      have ended := (h.behind n hn element).trans after
      exact absurd (holds.2.trans_le ended) (Nat.lt_irrefl i)

/-- Once they are settled, they are spaced as they should be in any place around them. -/
theorem Traced.spaced (h : Traced errors a c nodes) (comments : o.comments = true)
    (condenses : o.condenses = true) {l : Location} (start : l.start.offset ≤ a.position.offset)
    (stop : c.position.offset ≤ l.stop.offset) (preParent : Bool) :
    Node.Spaced errors l (settle o source false preParent nodes.reverse) where
  condensed := condensed_settle condenses preParent
  wellSpaced whole := by
    have flush : Flush c nodes := by
      refine h.flush.resolve_right fun interrupted => whole ?_
      refine interrupted.widen start stop ?_
      exact forall_settle (fun _ => nofun) o source _ _ fun n hn _ =>
        .inl (List.mem_reverse.mp hn)
    have verbatim : ∀ n ∈ nodes.reverse, n.Verbatim := fun n hn =>
      h.verbatim n (List.mem_reverse.mp hn)
    exact wellSpaced_settle comments condenses (apart_reverse.mpr flush.apart) verbatim preParent

end Siblings

namespace State

variable {source : List Char} {s : State}

/-- Without a platform there is no element inside which white space is kept. -/
theorem Reachable.pre_base (h : Reachable Options.base source s) : s.flags.pre = false := by
  rw [h.flags_within]
  simp [Flags.within, Options.base]

theorem Reachable.traced_base (h : Reachable Options.base source s) :
    Gathered (Siblings.Traced (parse Options.base source).errors) source s.cursor s :=
  h.gathered (Siblings.traced_gathers (Options.keepsAll_base .condense) _) rfl (fun _ _ => rfl)
    h.errors_subset

theorem Reachable.finishedChildren_base {e : OpenElement} {stack : List OpenElement}
    (h : Reachable Options.base source s) (top : s.stack = e :: stack) :
    finishedChildren Options.base source s.flags.pre e =
      Siblings.settle Options.base source false false e.children.reverse := by
  have data : e.mode = .data := by
    rcases h.uses_top top with data | ⟨_, _, data⟩ <;> exact data
  rw [finishedChildren, data, h.pre_base]
  rfl

end State

namespace Node

theorem spaced_nil (errors : List ParseError) (l : Location) : Spaced errors l [] where
  condensed := fun _ hn => nomatch hn
  wellSpaced := fun _ => SpacedAfter.wellSpaced trivial

theorem Derived.spaced {source : List Char} {flags : Flags} {node : Node}
    (h : node.Derived Options.base source flags) :
    Spaced (parse Options.base source).errors node.loc node.children := by
  refine h.forall_children (P := Spaced (parse Options.base source).errors) (spaced_nil _) ?_
  intro s e stack reachable top
  have spans := reachable.placed.nodes
  have traced := reachable.traced_base
  unfold State.Gathered at traced
  rw [top] at spans traced
  rw [reachable.finishedChildren_base top]
  exact traced.1.spaced rfl rfl spans.1.tag.offset_le
    (s.reaches_afterEndTag _ source e stack).offset_le false

end Node

/-- The white space of a finished tree: all its texts are condensed, and in every list of siblings
    among which no end tag was passed over, blank text is left where it separates what is shown and
    nowhere else. -/
theorem parse_spacing (source : List Char) :
    Node.Spaced (parse Options.base source).errors (parse Options.base source).root.loc
      (parse Options.base source).root.children ∧
    ∀ path node, Node.at? (parse Options.base source).root.children path = some node →
      Node.Spaced (parse Options.base source).errors node.loc node.children := by
  refine ⟨?_, fun path node found => ?_⟩
  · obtain ⟨s, reachable, done, result⟩ := State.exists_reachable_result Options.base source
    have traced := reachable.traced_base
    unfold State.Gathered at traced
    rw [(State.rest_of_isDone done).1] at traced
    rw [congrArg Template.root result]
    change Node.Spaced _ _ (Siblings.settle Options.base source s.flags.pre false s.roots.reverse)
    rw [reachable.pre_base]
    exact traced.spaced rfl rfl (Nat.le_refl _) (Nat.le_refl _) false
  · obtain ⟨flags, derived⟩ := exists_derived_of_at? found
    exact derived.spaced

/-- A list is well spaced although an end tag is passed over behind it. -/
theorem parse_spacing_list :
    let template := parse Options.base
      "<ul>\n<li>a\t b</li> <li></li>\n<!-- c --></ul></x>".toList
    ∃ node, Node.at? template.root.children [0] = some node ∧ template.errors ≠ [] ∧
      node.children.map Node.kind = [.element, .text, .element, .comment] ∧
      Node.WellSpaced node.children := by
  intro template
  have list : ((Node.at? template.root.children [0]).any fun node =>
      node.children.map Node.kind == [.element, .text, .element, .comment] &&
        node.loc.stop.offset == 44) = true := by decide +kernel
  have behind : ∀ x ∈ template.errors, x.loc.map (·.start.offset) = some 44 := by decide +kernel
  obtain ⟨node, found, shape⟩ := (Option.any_eq_true _ _).mp list
  simp only [Bool.and_eq_true, beq_iff_eq] at shape
  refine ⟨node, found, by decide +kernel, shape.1, ?_⟩
  refine ((parse_spacing _).2 [0] node found).wellSpaced ?_
  rintro ⟨i, ⟨x, reported, _, place⟩, inside, _⟩
  rw [behind x reported] at place
  cases place
  exact absurd (shape.2 ▸ inside.2) (Nat.lt_irrefl 44)

/-- What stays of the blanks around end tags that are passed over. -/
theorem children_around_passed_over :
    ((parse Options.base "<a></a>\n</x> <b></b>".toList).root.children matches
        [.element .., .text ⟨[' '], ⟨_, _, ['\n', '<', '/', 'x', '>', ' ']⟩⟩, .element ..]) = true ∧
      ((parse Options.base "<!--a--> </x> <b></b>".toList).root.children matches
        [.comment _, .text ⟨[' '], _⟩, .element ..]) = true ∧
      ((parse Options.base " </x> </x> ".toList).root.children matches
        [.text ⟨[' '], _⟩]) = true := by decide +kernel

/-- Where end tags are passed over, blank text with a line break is left between elements, blank
    text is left next to a comment, and blank text is left at the ends. -/
theorem not_wellSpaced_of_passed_over :
    ¬ Node.WellSpaced (parse Options.base "<a></a>\n</x> <b></b>".toList).root.children ∧
      ¬ Node.WellSpaced (parse Options.base "<!--a--> </x> <b></b>".toList).root.children ∧
      ¬ Node.WellSpaced (parse Options.base " </x> </x> ".toList).root.children := by
  obtain ⟨lineBreak, comment, ends⟩ := children_around_passed_over
  refine ⟨fun spaced => ?_, fun spaced => ?_, fun spaced => ?_⟩
  · split at lineBreak
    · next list =>
      rw [list] at spaced
      exact (spaced.elements _ _ _ (List.infix_refl _) rfl rfl rfl).1 List.mem_cons_self
    · cases lineBreak
  · split at comment
    · next list =>
      rw [list] at spaced
      exact (spaced.afterComment _ _ _ (List.infix_refl _) rfl rfl).2 rfl
    · cases comment
  · split at ends
    · next list =>
      rw [list] at spaced
      exact Bool.noConfusion (spaced.first _ _ rfl)
    · cases ends

end Stencil
