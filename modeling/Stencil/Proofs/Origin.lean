import Stencil.Proofs.Stack

/-! # Where nodes come from

Every element of a tree goes back to a state in which its start tag was read. It was finished there
and then, or the reading stayed inside of it until it was closed. Either way its children go back
to states in between, so whatever can be said about one start tag and the steps that follow it can
be said about every element of a finished tree.
-/

namespace Stencil

namespace Siblings

variable {P : Node → Prop} {node : Node} {nodes : List Node}

/-- Adding a node changes none but texts. -/
theorem forall_push (text : ∀ t, P (.text t)) (h : ∀ n ∈ nodes, P n)
    (k : P node) : ∀ n ∈ push node nodes, P n := by
  have added : ∀ n ∈ node :: nodes, P n := List.forall_mem_cons.mpr ⟨k, h⟩
  unfold push
  split
  · split
    · exact List.forall_mem_cons.mpr ⟨text _, (List.forall_mem_cons.mp h).2⟩
    · exact added
  · exact added

theorem forall_settleEach (text : ∀ t, P (.text t)) (o : Options)
    (inPre : Bool) (prev : Option NodeKind) (h : ∀ n ∈ nodes, P n) :
    ∀ x ∈ settleEach o inPre prev nodes, ∀ n ∈ x, P n := by
  induction nodes generalizing prev with
  | nil => exact fun _ hx => nomatch hx
  | cons node nodes ih =>
      obtain ⟨first, rest⟩ := List.forall_mem_cons.mp h
      refine List.forall_mem_cons.mpr ⟨fun n hn => ?_, ih _ rest⟩
      cases node with
      | element e children =>
          cases hn
          exact first
      | interpolation i =>
          cases hn
          exact first
      | text t =>
          obtain ⟨u, _, rfl⟩ := Option.map_eq_some_iff.mp hn
          exact text _
      | comment c =>
          rw [settleNode] at hn
          split at hn
          · cases hn
            exact first
          · cases hn

theorem forall_dropFirstLineBreak (text : ∀ t, P (.text t))
    {list : List (Option Node)} (h : ∀ x ∈ list, ∀ n ∈ x, P n) :
    ∀ x ∈ dropFirstLineBreak list, ∀ n ∈ x, P n := by
  unfold dropFirstLineBreak
  split
  · refine List.forall_mem_cons.mpr ⟨fun n hn => ?_, (List.forall_mem_cons.mp h).2⟩
    cases hn
    exact text _
  · exact h

theorem forall_consJoining (text : ∀ t, P (.text t)) (o : Options)
    (inPre : Bool) (source : List Char) (k : P node) (h : ∀ n ∈ nodes, P n) :
    ∀ n ∈ consJoining o inPre source node nodes, P n := by
  unfold consJoining
  split
  · exact List.forall_mem_cons.mpr ⟨text _, (List.forall_mem_cons.mp h).2⟩
  · exact List.forall_mem_cons.mpr ⟨k, h⟩

/-- Settling a list changes none but texts. -/
theorem forall_settle (text : ∀ t, P (.text t)) (o : Options)
    (source : List Char) (inPre preParent : Bool) (h : ∀ n ∈ nodes, P n) :
    ∀ n ∈ settle o source inPre preParent nodes, P n := by
  have kept : ∀ x ∈ (if inPre && preParent then
      dropFirstLineBreak (settleEach o inPre none nodes) else settleEach o inPre none nodes),
      ∀ n ∈ x, P n := by
    split
    · exact forall_dropFirstLineBreak text (forall_settleEach text o inPre none h)
    · exact forall_settleEach text o inPre none h
  unfold settle
  dsimp only
  generalize (if inPre && preParent then dropFirstLineBreak (settleEach o inPre none nodes)
    else settleEach o inPre none nodes) = list at kept ⊢
  induction list with
  | nil => exact fun _ hn => nomatch hn
  | cons x list ih =>
      obtain ⟨first, rest⟩ := List.forall_mem_cons.mp kept
      cases x with
      | none =>
          rw [List.filterMap_cons_none rfl]
          exact ih rest
      | some n =>
          rw [List.filterMap_cons_some (f := id) rfl]
          exact forall_consJoining text o inPre source (first n rfl) (ih rest)

end Siblings

namespace State

variable {o : Options} {source : List Char} {s t : State}

/-- A start tag is what is read next. -/
structure Opens (o : Options) (s : State) : Prop where
  goes : s.atEnd = false
  data : s.mode = .data
  markup : Markup.classify (s.cursor.rest.drop 1) = .startTag
  mark : s.cursor.rest.head? = some '<'
  plain : s.startsInterpolation o = false

theorem Opens.step_eq (h : s.Opens o) (source : List Char) : s.step o source = s.openElement o := by
  simp only [step, readNode, readMarkup, h.goes, h.data, h.plain, h.mark, h.markup, beq_self_eq_true,
    Bool.false_eq_true, if_true, if_false]

theorem Opens.not_isDone (h : s.Opens o) : s.isDone = false := by
  rw [isDone, h.goes, Bool.and_false]

/-- Reading goes from `s` to `t`, and each step on the way is taken with more than `depth` elements
    open. -/
inductive StaysInside (o : Options) (source : List Char) (depth : Nat) (s : State) :
    State → Prop where
  | refl : StaysInside o source depth s s
  | step {t : State} : StaysInside o source depth s t → depth < t.stack.length →
      StaysInside o source depth s (t.step o source)

theorem not_isDone_of_length {depth : Nat} (h : depth < s.stack.length) : s.isDone = false := by
  rw [isDone, List.isEmpty_eq_false_iff.mpr (List.ne_nil_of_length_pos (Nat.zero_lt_of_lt h))]
  rfl

theorem Reachable.staysInside {depth : Nat} (h : Reachable o source s)
    (k : StaysInside o source depth s t) : Reachable o source t := by
  induction k with
  | refl => exact h
  | step _ deep ih => exact ih.step (not_isDone_of_length deep)

/-- How the element whose start tag is read in `s` can be finished: at once, or in a later state
    where it is the innermost element again and ends. -/
inductive Finished (o : Options) (source : List Char) (s : State) : Element → List Node → Prop where
  | empty (empty : s.startsEmpty o = true) : Finished o source s (s.started o).1 []
  | tooDeep (content : s.startsEmpty o = false) (deep : o.maxDepth ≤ s.stack.length) :
      Finished o source s (s.started o).1 []
  | closed {t : State} {e : OpenElement} (content : s.startsEmpty o = false)
      (room : s.stack.length < o.maxDepth)
      (inside : StaysInside o source s.stack.length (s.step o source) t)
      (top : t.stack = e :: s.stack) (entry : e.bare = s.opened o)
      (flags : t.flags = s.flagsInside o) (ends : t.atEnd = true) :
      Finished o source s (t.closed o source e s.stack) (finishedChildren o source t.flags.pre e)

theorem Finished.tag_eq {e : Element} {children : List Node} (h : s.Finished o source e children) :
    e.tag = (s.started o).1.tag := by
  cases h with
  | empty | tooDeep => rfl
  | closed _ _ _ _ entry =>
      refine (filled_tag o _ _).trans ?_
      exact congrArg (·.element.tag) entry

theorem Finished.start_eq {e : Element} {children : List Node}
    (h : s.Finished o source e children) : e.loc.start = s.cursor.position := by
  cases h with
  | empty | tooDeep => rfl
  | closed _ _ _ _ entry => exact congrArg (·.start.position) entry

end State

/-- A node that reading `source` can produce where `flags` are switched on. An element goes back to
    the state in which its start tag was read; only the children of a `template` that is left out
    come to stand where other flags are. -/
inductive Node.Derived (o : Options) (source : List Char) : Flags → Node → Prop where
  | leaf {flags : Flags} {node : Node} (leaf : node.kind ≠ .element) : Derived o source flags node
  | element {s : State} {e : Element} {children : List Node}
      (reachable : State.Reachable o source s) (opens : s.Opens o)
      (finished : s.Finished o source e children)
      (inner : ∀ n ∈ children, Derived o source (s.flagsInside o) n) :
      Derived o source s.flags (.element e children)
  | spliced {flags outer : Flags} {node : Node}
      (honoured : Legacy.isEnabled o.legacy .nativeTemplate = true)
      (derived : Derived o source flags node) : Derived o source outer node

/-- An element goes back to a state, wherever it has come to stand since then. -/
theorem Node.Derived.exists_opens {o : Options} {source : List Char} {flags : Flags} {e : Element}
    {children : List Node} (h : (Node.element e children).Derived o source flags) :
    ∃ s, State.Reachable o source s ∧ s.Opens o ∧ s.Finished o source e children ∧
      ∀ n ∈ children, n.Derived o source (s.flagsInside o) := by
  generalize whole : Node.element e children = node at h
  induction h with
  | leaf leaf =>
      subst whole
      exact absurd rfl leaf
  | element reachable opens finished inner =>
      cases whole
      exact ⟨_, reachable, opens, finished, inner⟩
  | spliced _ _ ih => exact ih whole

namespace State

variable {o : Options} {source : List Char} {s t u : State} {flags : Flags} {node : Node}
  {nodes : List Node} {e : OpenElement} {stack : List OpenElement}

/-- The entry `e` on top of `below` was made in `s`, and up to `t` nothing but steps inside of it
    has been made. -/
structure OpenedBy (o : Options) (source : List Char) (t : State) (flags : Flags)
    (e : OpenElement) (below : List OpenElement) (s : State) : Prop where
  reachable : Reachable o source s
  opens : s.Opens o
  content : s.startsEmpty o = false
  room : s.stack.length < o.maxDepth
  stack : s.stack = below
  entry : e.bare = s.opened o
  flags : s.flagsInside o = flags
  inside : StaysInside o source below.length (s.step o source) t

/-- The open elements in `t` and their children so far go back to states of the reading; `flags` are
    switched on inside the innermost one. -/
def StackDerived (o : Options) (source : List Char) (t : State) :
    Flags → List OpenElement → Prop
  | flags, [] => flags = ⟨false, false⟩
  | flags, e :: below =>
    (∃ s, OpenedBy o source t flags e below s) ∧ (∀ n ∈ e.children, n.Derived o source flags) ∧
      StackDerived o source t e.outer below

/-- Everything in `s`, a stage of a step that leads to `t`, goes back to states of the reading. -/
structure Derives (o : Options) (source : List Char) (t s : State) : Prop where
  stack : StackDerived o source t s.flags s.stack
  roots : ∀ n ∈ s.roots, n.Derived o source ⟨false, false⟩

/-- A step leaves all elements open that it does not close. -/
theorem StackDerived.later (h : StackDerived o source t flags stack)
    (deep : stack.length ≤ t.stack.length) :
    StackDerived o source (t.step o source) flags stack := by
  induction stack generalizing flags with
  | nil => exact h
  | cons e below ih =>
      obtain ⟨⟨s, opened⟩, children, rest⟩ := h
      rw [List.length_cons] at deep
      refine ⟨⟨s, { opened with inside := opened.inside.step deep }⟩, children, ?_⟩
      exact ih rest (Nat.le_of_succ_le deep)

theorem Derives.later (h : Derives o source s s) : Derives o source (s.step o source) s :=
  ⟨h.stack.later (Nat.le_refl _), h.roots⟩

@[simp]
theorem flags_add (s : State) (node : Node) : (s.add node).flags = s.flags := by
  unfold add
  split <;> rfl

theorem Derives.add (h : Derives o source t s) (k : node.Derived o source s.flags) :
    Derives o source t (s.add node) := by
  have stack := h.stack
  unfold State.add
  split
  · next empty =>
    rw [empty] at stack
    refine ⟨by rw [empty]; exact stack, ?_⟩
    have outside : s.flags = ⟨false, false⟩ := stack
    rw [outside] at k
    exact Siblings.forall_push (fun _ => .leaf nofun) h.roots k
  · next e below top =>
    rw [top] at stack
    obtain ⟨⟨u, opened⟩, children, rest⟩ := stack
    refine ⟨⟨⟨u, { opened with entry := opened.entry }⟩, ?_, rest⟩, h.roots⟩
    exact Siblings.forall_push (fun _ => .leaf nofun) children k

theorem Derives.addAll (h : Derives o source t s) (k : ∀ n ∈ nodes, n.Derived o source s.flags) :
    Derives o source t (s.addAll nodes) := by
  induction nodes generalizing s with
  | nil => exact h
  | cons node nodes ih =>
      obtain ⟨first, rest⟩ := List.forall_mem_cons.mp k
      apply ih (h.add first)
      rw [flags_add]
      exact rest

/-- A finished element is kept, or else its children come to stand outside of it. -/
theorem Derives.addElement {e : Element} (h : Derives o source t s)
    (element : (Node.element e nodes).Derived o source s.flags)
    (inner : ∀ n ∈ nodes, n.Derived o source flags) :
    Derives o source t (s.addElement o e nodes) := by
  unfold State.addElement
  split
  · next left =>
    simp only [Bool.and_eq_true] at left
    refine Derives.addAll ⟨h.stack, h.roots⟩ fun n hn => ?_
    exact .spliced left.1.2 (inner n hn)
  · exact h.add element

/-- Closing an element changes none of its children but texts. -/
theorem forall_finishedChildren {P : Node → Prop} (text : ∀ t, P (.text t)) (o : Options)
    (source : List Char) (inPre : Bool) (h : ∀ n ∈ e.children, P n) :
    ∀ n ∈ finishedChildren o source inPre e, P n := by
  have listed : ∀ n ∈ e.children.reverse, P n := fun n hn => h n (List.mem_reverse.mp hn)
  unfold finishedChildren
  split
  · exact listed
  · exact listed
  all_goals exact Siblings.forall_settle text o source _ _ listed

theorem flags_readEndTag (o : Options) (s : State) (e : Element) (children : List Node) :
    (s.readEndTag o e children).flags = s.flags ∧
      (s.readEndTag o e children).roots = s.roots := by
  unfold readEndTag
  split
  · exact ⟨rfl, rfl⟩
  · dsimp only
    split <;> exact ⟨rfl, rfl⟩

theorem Derives.closeElement (h : Derives o source s s) (ends : s.atEnd = true)
    (top : s.stack = e :: stack) :
    Derives o source (s.step o source) (s.closeElement o source e stack) := by
  have now := h.stack
  have later := h.later.stack
  rw [top] at now later
  obtain ⟨⟨u, opened⟩, children, _⟩ := now
  have outer : e.outer = u.flags := congrArg OpenElement.outer opened.entry
  have inner := forall_finishedChildren (fun _ => .leaf nofun) o source s.flags.pre children
  have finished : u.Finished o source (s.closed o source e stack)
      (finishedChildren o source s.flags.pre e) := by
    have below := opened.stack
    subst below
    exact .closed opened.content opened.room opened.inside top opened.entry opened.flags.symm ends
  rw [closeElement_eq]
  refine Derives.addElement ⟨?_, ?_⟩ ?_ inner
  · simp only [afterEndTag, stack_readEndTag, stack_report]
    exact later.2.2
  · simp only [afterEndTag, (flags_readEndTag o _ _ _).2]
    exact h.roots
  · dsimp only
    rw [outer]
    refine .element opened.reachable opened.opens finished fun n hn => ?_
    rw [opened.flags]
    exact inner n hn

theorem Opening.derives (k : Opening o s t) (h : Derives o source u s)
    (reachable : Reachable o source s) (opens : s.Opens o) (now : s.step o source = u) :
    Derives o source u t := by
  have finished : ∀ {e : Element}, s.Finished o source e [] →
      (Node.element e []).Derived o source s.flags := fun finished =>
    .element reachable opens finished fun _ hn => nomatch hn
  have none : ∀ n ∈ ([] : List Node), n.Derived o source s.flags := fun _ hn => nomatch hn
  cases k with
  | empty empty => exact Derives.addElement ⟨h.stack, h.roots⟩ (finished (.empty empty)) none
  | tooDeep content deep =>
      exact Derives.addElement ⟨h.stack, h.roots⟩ (finished (.tooDeep content deep)) none
  | opened content room =>
      refine ⟨⟨⟨s, ?_⟩, fun _ hn => (nomatch hn), h.stack⟩, h.roots⟩
      exact ⟨reachable, opens, content, room, rfl, rfl, rfl, now ▸ .refl⟩

theorem Step.derives (k : Step o source s t) (same : s.step o source = t)
    (reachable : Reachable o source s) (h : Derives o source s s) : Derives o source t t := by
  have later := h.later
  rw [same] at later
  cases k with
  | close ends top => exact same ▸ h.closeElement ends top
  | text => exact Derives.add ⟨later.stack, later.roots⟩ (.leaf nofun)
  | interpolation => exact Derives.add ⟨later.stack, later.roots⟩ (.leaf nofun)
  | comment => exact Derives.add ⟨later.stack, later.roots⟩ (.leaf nofun)
  | cdata =>
      refine Derives.addAll ⟨later.stack, later.roots⟩ ?_
      refine Siblings.forall_settle (fun _ => .leaf nofun) o source _ _ fun n hn => ?_
      obtain ⟨t, _, rfl⟩ := List.mem_map.mp hn
      exact .leaf nofun
  | namelessEndTag => exact ⟨later.stack, later.roots⟩
  | strayEndTag => exact ⟨later.stack, later.roots⟩
  | startTag goes data markup mark plain =>
      exact (openElement_cases o s).derives later reachable ⟨goes, data, markup, mark, plain⟩ same

/-- In every state of a reading, the open elements and the finished nodes go back to states of
    it. -/
theorem Reachable.derives (h : Reachable o source s) : Derives o source s s := by
  induction h with
  | initial => exact ⟨rfl, fun _ hn => nomatch hn⟩
  | step reachable goes ih => exact (step_cases goes).derives rfl reachable ih

/-- Outside of all elements nothing is switched on. -/
theorem Reachable.flags_of_nil (h : Reachable o source s) (empty : s.stack = []) :
    s.flags = ⟨false, false⟩ := by
  have stack := h.derives.stack
  rw [empty] at stack
  exact stack

end State

/-- Every node of a finished tree goes back to states of the reading. -/
theorem parse_derived (o : Options) (source : List Char) :
    ∀ n ∈ (parse o source).root.children, n.Derived o source ⟨false, false⟩ := by
  obtain ⟨s, reachable, _, result⟩ := State.exists_reachable_result o source
  rw [result]
  refine Siblings.forall_settle (fun _ => .leaf nofun) o source _ _ fun n hn => ?_
  exact reachable.derives.roots n (List.mem_reverse.mp hn)

end Stencil
