import Mathlib.Data.List.Chain
import Stencil.Proofs.Containment

/-! # Texts stand apart

No finished list of siblings has two texts next to each other. Settling a list sees to that, since
its last act is to join neighbouring texts, whatever was dropped between them or spliced in. The
lists that are never settled are those of elements that hold no markup: there every piece of text
starts where the node before it ends, so that it extends a text instead of following one.
-/

namespace Stencil

namespace Node

/-- No two texts stand next to each other. -/
def Apart (nodes : List Node) : Prop :=
  nodes.IsChain fun m n => ¬(m.kind = .text ∧ n.kind = .text)

theorem eq_text_of_kind {node : Node} (h : node.kind = .text) : ∃ t, node = .text t := by
  cases node with
  | text t => exact ⟨t, rfl⟩
  | element | comment | interpolation => cases h

end Node

namespace Siblings

variable {node : Node} {nodes : List Node}

/-- A node may stand before a list unless both it and the first of the list are texts. -/
theorem apart_cons (h : Node.Apart nodes)
    (other : ∀ t u rest, node = .text t → nodes = .text u :: rest → False) :
    Node.Apart (node :: nodes) := by
  refine List.isChain_cons.mpr ⟨fun n hn both => ?_, h⟩
  obtain ⟨t, rfl⟩ := Node.eq_text_of_kind both.1
  obtain ⟨u, rfl⟩ := Node.eq_text_of_kind both.2
  obtain ⟨rest, rfl⟩ := List.head?_eq_some_iff.mp hn
  exact other t u rest rfl rfl

/-- Whether a list stands apart depends on the kinds of its nodes only. -/
theorem apart_replace {node' : Node} (h : Node.Apart (node :: nodes))
    (same : node'.kind = node.kind) : Node.Apart (node' :: nodes) := by
  obtain ⟨first, rest⟩ := List.isChain_cons.mp h
  refine List.isChain_cons.mpr ⟨fun n hn => ?_, rest⟩
  rw [same]
  exact first n hn

theorem apart_reverse : Node.Apart nodes.reverse ↔ Node.Apart nodes := by
  unfold Node.Apart
  rw [List.isChain_reverse]
  simp only [and_comm]

/-! ## Settled lists -/

theorem apart_consJoining (o : Options) (inPre : Bool) (source : List Char) (node : Node)
    (h : Node.Apart nodes) : Node.Apart (consJoining o inPre source node nodes) := by
  unfold consJoining
  split
  · exact apart_replace h rfl
  · next other => exact apart_cons h other

/-- Settling joins whatever texts come to stand next to each other. -/
theorem apart_settle (o : Options) (source : List Char) (inPre preParent : Bool)
    (nodes : List Node) : Node.Apart (settle o source inPre preParent nodes) := by
  unfold settle
  dsimp only
  generalize List.filterMap id _ = kept
  induction kept with
  | nil => exact .nil
  | cons node kept ih => exact apart_consJoining o inPre source node ih

/-! ## Lists that grow piece by piece -/

/-- A list, newest first, without texts next to each other that goes on up to the cursor. -/
structure Flush (c : Cursor) (nodes : List Node) : Prop where
  apart : Node.Apart nodes
  last : ∀ n ∈ nodes.head?, n.loc.stop.offset = c.position.offset

/-- A node that starts at the cursor extends the last text or follows something else. -/
theorem Flush.push {c d : Cursor} (h : Flush c nodes) (place : node.loc = c.locationTo d) :
    Flush d (push node nodes) := by
  have start : node.loc.start.offset = c.position.offset := by rw [place]; rfl
  have stop : node.loc.stop.offset = d.position.offset := by rw [place]; rfl
  unfold Siblings.push
  split
  · next t prev rest =>
    have touch : prev.loc.stop.offset = t.loc.start.offset := (h.last _ rfl).trans start.symm
    rw [if_pos touch]
    refine ⟨apart_replace h.apart rfl, fun n hn => ?_⟩
    cases hn
    exact stop
  · next other =>
    refine ⟨apart_cons h.apart other, fun n hn => ?_⟩
    cases hn
    exact stop

end Siblings

namespace State

variable {o : Options} {source : List Char} {s t : State}

/-- The children of the innermost element, if it holds no markup, go on up to the cursor. -/
def RawFlush (s : State) : Prop :=
  ∀ e ∈ s.stack.head?, e.mode ≠ .data → Siblings.Flush s.cursor e.children

theorem RawFlush.of_data (data : ∀ e ∈ s.stack.head?, e.mode = .data) : RawFlush s :=
  fun e he other => absurd (data e he) other

/-- Receiving nodes where markup is read says nothing about other elements. -/
theorem RawFlush.of_receive {nodes : List Node} {stack : List OpenElement}
    (data : ∀ e ∈ stack.head?, e.mode = .data) (k : t.stack = receive nodes stack) :
    RawFlush t := by
  refine .of_data fun e he => ?_
  rw [k] at he
  cases stack with
  | nil => cases he
  | cons d stack =>
      cases he
      exact data d rfl

theorem head?_of_mode (data : s.mode = .data) : ∀ e ∈ s.stack.head?, e.mode = .data := by
  intro e he
  cases top : s.stack with
  | nil =>
      rw [top] at he
      cases he
  | cons d stack =>
      rw [top] at he
      cases he
      exact (mode_of_top top).symm.trans data

/-- A node that reaches from the old cursor to the new one. -/
theorem RawFlush.add {c : Cursor} {node : Node} (h : ∀ e ∈ s.stack.head?, e.mode ≠ .data →
    Siblings.Flush c e.children) (place : node.loc = c.locationTo s.cursor) :
    RawFlush (s.add node) := by
  intro e he other
  rw [stack_add] at he
  rw [cursor_add]
  cases top : s.stack with
  | nil =>
      rw [top] at he
      cases he
  | cons d stack =>
      rw [top] at he
      cases he
      exact (h d (by rw [top]; rfl) other).push place

theorem Opening.rawFlush (k : Opening o s t) (data : s.mode = .data) : RawFlush t := by
  have data := head?_of_mode data
  cases k with
  | empty => exact .of_receive data (stack_addElement o _ _ _)
  | tooDeep => exact .of_receive data (stack_addElement o _ _ _)
  | opened =>
      intro e he _
      cases he
      exact ⟨.nil, fun _ hn => nomatch hn⟩

theorem Step.rawFlush (k : Step o source s t) (disciplined : Disciplined s) (h : RawFlush s) :
    RawFlush t := by
  cases k with
  | @close e stack _ top =>
      refine .of_receive (fun d hd => ?_) (stack_closeElement o source s e stack)
      exact disciplined.modes d (by rw [top]; exact List.mem_of_mem_head? hd)
  | text => exact RawFlush.add h rfl
  | interpolation _ _ read =>
      exact RawFlush.add h (Interpolation.loc_of_read? read)
  | comment _ data => exact .of_receive (head?_of_mode data) (stack_add _ _)
  | cdata _ data => exact .of_receive (head?_of_mode data) (stack_addAll _ _)
  | namelessEndTag _ data => exact .of_data (head?_of_mode data)
  | strayEndTag _ data => exact .of_data (head?_of_mode data)
  | startTag _ data => exact (openElement_cases o s).rawFlush data

theorem Reachable.rawFlush (h : Reachable o source s) : RawFlush s := by
  induction h with
  | initial => exact fun e he => nomatch he
  | step reachable goes ih => exact (step_cases goes).rawFlush reachable.disciplined ih

theorem apart_finishedChildren {e : OpenElement} {stack : List OpenElement}
    (h : Reachable o source s) (top : s.stack = e :: stack) (inPre : Bool) :
    Node.Apart (finishedChildren o source inPre e) := by
  have raw : e.mode ≠ .data → Node.Apart e.children.reverse := fun other =>
    Siblings.apart_reverse.mpr (h.rawFlush e (by rw [top]; rfl) other).apart
  unfold finishedChildren
  split
  · next mode => exact raw (by rw [mode]; nofun)
  · next mode => exact raw (by rw [mode]; nofun)
  all_goals exact Siblings.apart_settle o source _ _ _

end State

/-- The children of a node are those of an element that was closed, or there are none. -/
theorem Node.Derived.forall_children {o : Options} {source : List Char} {flags : Flags}
    {node : Node} {P : Location → List Node → Prop} (h : node.Derived o source flags)
    (none : ∀ l, P l [])
    (closed : ∀ (s : State) (e : OpenElement) (stack : List OpenElement),
      State.Reachable o source s → s.stack = e :: stack →
        P (s.closed o source e stack).loc (State.finishedChildren o source s.flags.pre e)) :
    P node.loc node.children := by
  induction h with
  | @leaf _ node leaf =>
      cases node with
      | element e children => exact absurd rfl leaf
      | text | comment | interpolation => exact none _
  | element reachable opens finished _ _ =>
      cases finished with
      | empty => exact none _
      | tooDeep => exact none _
      | closed _ _ inside top _ _ _ =>
          exact closed _ _ _ ((reachable.step opens.not_isDone).staysInside inside) top
  | spliced _ _ ih => exact ih

theorem Node.Derived.apart {o : Options} {source : List Char} {flags : Flags} {node : Node}
    (h : node.Derived o source flags) : Node.Apart node.children :=
  h.forall_children (P := fun _ => Node.Apart) (fun _ => .nil) fun _ _ _ reachable top =>
    State.apart_finishedChildren reachable top _

/-- Every node that a path leads to goes back to states of the reading. -/
theorem exists_derived_of_at? {o : Options} {source : List Char} {path : List Nat} {node : Node}
    (found : Node.at? (parse o source).root.children path = some node) :
    ∃ flags, node.Derived o source flags := by
  refine Node.forall_at? (P := fun n => ∃ flags, n.Derived o source flags) ?_ ?_ found
  · intro e children ⟨_, derived⟩ n hn
    obtain ⟨flags, inner⟩ := derived.inner
    exact ⟨flags, inner n hn⟩
  · exact fun n hn => ⟨_, parse_derived o source n hn⟩

/-- No list of children in a finished tree has two texts next to each other, whatever the options
    drop, splice or leave unsettled. -/
theorem parse_apart (o : Options) (source : List Char) :
    Node.Apart (parse o source).root.children ∧
      ∀ path node, Node.at? (parse o source).root.children path = some node →
        Node.Apart node.children := by
  refine ⟨?_, fun path node found => ?_⟩
  · obtain ⟨s, _, _, result⟩ := State.exists_reachable_result o source
    rw [result]
    exact Siblings.apart_settle o source _ _ _
  · obtain ⟨flags, derived⟩ := exists_derived_of_at? found
    exact derived.apart

/-- A comment that is dropped and a stray end tag leave one text behind. -/
theorem parse_apart_paragraph :
    let children := (parse { Options.base with comments := false }
      "<p>a<!-- b -->c</i>d</p>".toList).root.children
    ∃ node, Node.at? children [0] = some node ∧ node.children.map Node.kind = [.text] ∧
      Node.Apart node.children := by
  intro children
  have paragraph : ((Node.at? children [0]).any fun node =>
      node.children.map Node.kind == [.text]) = true := by decide +kernel
  obtain ⟨node, found, kinds⟩ := (Option.any_eq_true _ _).mp paragraph
  exact ⟨node, found, beq_iff_eq.mp kinds, (parse_apart _ _).2 [0] node found⟩

end Stencil
