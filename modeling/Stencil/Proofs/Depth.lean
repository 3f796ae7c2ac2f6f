import Stencil.Proofs.Apart
import Stencil.Proofs.Growth

/-! # The nesting limit

At most `maxDepth` elements are open at a time. A start tag that would open one more is reported,
and its element is finished on the spot, without children. So the trees that come out are at most
one level deeper than the limit, and the reports tell exactly the tags at which it was met.
-/

namespace Stencil

namespace Node

variable {node : Node} {nodes : List Node} {n : Nat}

/-- There are at most `n` levels below a node. -/
def FitsIn : Nat → Node → Prop
  | 0, node => node.children = []
  | n + 1, node => ∀ child ∈ node.children, FitsIn n child

theorem FitsIn.of_nil (h : node.children = []) : node.FitsIn n := by
  cases n with
  | zero => exact h
  | succ n =>
      rw [FitsIn, h]
      exact fun _ hc => nomatch hc

theorem FitsIn.of_leaf (leaf : node.kind ≠ .element) : node.FitsIn n := by
  cases node with
  | element e children => exact absurd rfl leaf
  | text | comment | interpolation => exact .of_nil rfl

theorem FitsIn.succ (h : node.FitsIn n) : node.FitsIn (n + 1) := by
  induction n generalizing node with
  | zero => exact .of_nil h
  | succ n ih => exact fun child hc => ih (h child hc)

/-- Below the children of a node there is not more than below the node. -/
theorem FitsIn.children (h : node.FitsIn n) : ∀ child ∈ node.children, child.FitsIn n := by
  intro child hc
  cases n with
  | zero =>
      rw [FitsIn] at h
      rw [h] at hc
      cases hc
  | succ n => exact (h child hc).succ

/-- How far a path can lead, and what is below its end. -/
theorem length_le_of_at? {path : List Nat} (fits : ∀ m ∈ nodes, m.FitsIn n)
    (found : at? nodes path = some node) :
    path.length ≤ n + 1 ∧ (path.length = n + 1 → node.children = []) := by
  fun_induction at? nodes path generalizing n with
  | case1 => cases found
  | case2 nodes i =>
      refine ⟨Nat.le_add_left 1 n, fun last => ?_⟩
      have here := fits node (List.mem_of_getElem? found)
      obtain rfl : n = 0 := Nat.succ.inj last.symm
      exact here
  | case3 nodes i j path top here ih =>
      have fits := fits top (List.mem_of_getElem? here)
      cases n with
      | zero =>
          rw [show top.children = [] from fits] at found
          cases path with
          | nil => cases found
          | cons k path =>
              rw [at?] at found
              cases found
      | succ n =>
          obtain ⟨bound, last⟩ := ih fits found
          exact ⟨Nat.succ_le_succ bound, fun whole => last (Nat.succ.inj whole)⟩
  | case4 => cases found

end Node

namespace State

variable {o : Options} {source : List Char} {s t : State} {node : Node} {nodes : List Node}
  {e : OpenElement} {stack : List OpenElement} {limit : Nat}

/-! ## Open elements and what is below them -/

/-- The open elements keep to the limit, and so does whatever is below one of them or outside. -/
def StackFits (limit : Nat) (roots : List Node) : List OpenElement → Prop
  | [] => ∀ n ∈ roots, n.FitsIn limit
  | e :: stack =>
    stack.length < limit ∧ (∀ n ∈ e.children, n.FitsIn (limit - (stack.length + 1))) ∧
      StackFits limit roots stack

/-- Everything in a state keeps to the limit. -/
def KeepsLimit (o : Options) (s : State) : Prop :=
  StackFits o.maxDepth s.roots s.stack

theorem KeepsLimit.length_le (h : KeepsLimit o s) : s.stack.length ≤ o.maxDepth := by
  unfold KeepsLimit at h
  cases top : s.stack with
  | nil => exact Nat.zero_le _
  | cons e stack =>
      rw [top] at h
      exact h.1

theorem KeepsLimit.add (h : KeepsLimit o s) (fits : node.FitsIn (o.maxDepth - s.stack.length)) :
    KeepsLimit o (s.add node) := by
  unfold KeepsLimit at h ⊢
  unfold State.add
  split
  · next empty =>
    rw [empty] at h fits
    dsimp only
    rw [empty]
    exact Siblings.forall_push (fun _ => .of_leaf nofun) h fits
  · next e stack top =>
    rw [top] at h fits
    exact ⟨h.1, Siblings.forall_push (fun _ => .of_leaf nofun) h.2.1 fits, h.2.2⟩

theorem KeepsLimit.addAll (h : KeepsLimit o s)
    (fits : ∀ n ∈ nodes, n.FitsIn (o.maxDepth - s.stack.length)) :
    KeepsLimit o (s.addAll nodes) := by
  induction nodes generalizing s with
  | nil => exact h
  | cons node nodes ih =>
      obtain ⟨first, rest⟩ := List.forall_mem_cons.mp fits
      refine ih (h.add first) ?_
      rw [length_stack_add]
      exact rest

/-- Whether a finished element is kept or left out in favour of its children, nothing gets
    deeper. -/
theorem KeepsLimit.addElement {e : Element} (h : KeepsLimit o s)
    (fits : (Node.element e nodes).FitsIn (o.maxDepth - s.stack.length)) :
    KeepsLimit o (s.addElement o e nodes) := by
  unfold State.addElement
  split
  · exact KeepsLimit.addAll (s := s.report _) h fits.children
  · exact h.add fits

theorem KeepsLimit.closeElement (h : KeepsLimit o s) (top : s.stack = e :: stack) :
    KeepsLimit o (s.closeElement o source e stack) := by
  unfold KeepsLimit at h
  rw [top] at h
  obtain ⟨room, children, below⟩ := h
  rw [closeElement_eq]
  refine KeepsLimit.addElement ?_ ?_
  · simp only [KeepsLimit, afterEndTag, stack_readEndTag, (flags_readEndTag o _ _ _).2]
    exact below
  · have level : o.maxDepth - stack.length = o.maxDepth - (stack.length + 1) + 1 := by omega
    simp only [afterEndTag, stack_readEndTag, stack_report]
    rw [level]
    exact forall_finishedChildren (fun _ => .of_leaf (by rintro ⟨⟩)) o source s.flags.pre children

theorem Opening.keepsLimit (k : Opening o s t) (h : KeepsLimit o s) : KeepsLimit o t := by
  cases k with
  | empty => exact KeepsLimit.addElement (s := s.afterStartTag o) h (.of_nil rfl)
  | tooDeep =>
      exact KeepsLimit.addElement (s := (s.afterStartTag o).reportAt _ _) h (.of_nil rfl)
  | opened content room => exact ⟨room, fun _ hn => (nomatch hn), h⟩

theorem Step.keepsLimit (k : Step o source s t) (h : KeepsLimit o s) : KeepsLimit o t := by
  cases k with
  | close _ top => exact h.closeElement top
  | text => exact KeepsLimit.add (s := (s.report _).after _) h (.of_leaf nofun)
  | interpolation => exact KeepsLimit.add (s := s.after _) h (.of_leaf nofun)
  | comment => exact KeepsLimit.add (s := (s.report _).after _) h (.of_leaf nofun)
  | cdata =>
      refine KeepsLimit.addAll (s := s.after _) h ?_
      refine Siblings.forall_settle (fun _ => .of_leaf nofun) o source _ _ fun n hn => ?_
      obtain ⟨t, _, rfl⟩ := List.mem_map.mp hn
      exact .of_leaf nofun
  | namelessEndTag => exact h
  | strayEndTag => exact h
  | startTag => exact (openElement_cases o s).keepsLimit h

theorem Reachable.keepsLimit (h : Reachable o source s) : KeepsLimit o s := by
  induction h with
  | initial => exact fun _ hn => nomatch hn
  | step _ goes ih => exact (step_cases goes).keepsLimit ih

/-! ## Reports -/

/-- A start tag is read that would open one element too many. -/
structure OpensTooDeep (o : Options) (s : State) : Prop where
  opens : s.Opens o
  content : s.startsEmpty o = false
  full : s.stack.length = o.maxDepth

/-- The report that a start tag at `p` is nested too deep. -/
def tooDeepAt (p : Position) : ParseError :=
  .at .nestingTooDeep p

/-- The reports so far that a start tag is nested too deep. -/
def depthReports (s : State) : List ParseError :=
  s.errors.filter fun x => x.code = .nestingTooDeep

theorem depthReports_of_append (es : List ParseError) (h : t.errors = es ++ s.errors)
    (others : ∀ x ∈ es, x.code ≠ .nestingTooDeep) : t.depthReports = s.depthReports := by
  have none : es.filter (fun x => x.code = .nestingTooDeep) = [] := by
    simpa [List.filter_eq_nil_iff] using others
  rw [depthReports, h, List.filter_append, none]
  rfl

theorem depthReports_report {log : Log} (s : State) (h : log.Local) :
    (s.report log).depthReports = s.depthReports :=
  depthReports_of_append log.errors.reverse rfl fun x hx =>
    h.ne rfl x (List.mem_reverse.mp hx)

theorem depthReports_after {α : Type} {r : Reading α} (s : State) (h : r.log.Local) :
    (s.after r).depthReports = s.depthReports :=
  depthReports_report { s with cursor := r.cursor } h

theorem depthReports_add (s : State) (node : Node) : (s.add node).depthReports = s.depthReports :=
  depthReports_of_append [] (errors_add s node) fun _ hx => nomatch hx

theorem depthReports_addAll (s : State) (nodes : List Node) :
    (s.addAll nodes).depthReports = s.depthReports :=
  depthReports_of_append [] (errors_addAll s nodes) fun _ hx => nomatch hx

theorem depthReports_addElement (s : State) (e : Element) (children : List Node) :
    (s.addElement o e children).depthReports = s.depthReports :=
  depthReports_of_append [] (errors_addElement o s e children) fun _ hx => nomatch hx

theorem depthReports_closeElement (s : State) (e : OpenElement) (stack : List OpenElement) :
    (s.closeElement o source e stack).depthReports = s.depthReports := by
  cases own : Tag.startsEndTag e.element.tag s.cursor.rest with
  | true =>
      refine depthReports_of_append _ (closeElement_matched o source e stack own).2 fun x hx => ?_
      exact (Tag.read_local o .closing s.flags.vPre s.cursor).ne rfl x (List.mem_reverse.mp hx)
  | false =>
      obtain ⟨_, more, codes, _, errors⟩ := closeElement_unmatched o source e stack own
      refine depthReports_of_append (more ++ [e.missing]) (by rw [errors]; simp) ?_
      intro x hx same
      rcases List.mem_append.mp hx with hx | hx
      · rw [codes x hx] at same
        cases same
      · cases List.mem_singleton.mp hx
        cases same

theorem depthReports_afterStartTag (s : State) :
    (s.afterStartTag o).depthReports = s.depthReports :=
  have warned : (Log.ofWarnings (s.started o).2).Local := fun _ hx => nomatch hx
  (depthReports_report _ warned).trans
    (depthReports_after s (Tag.read_local o .opening s.flags.vPre s.cursor))

/-- A start tag that is nested too deep is reported once, where it starts. -/
theorem OpensTooDeep.depthReports (h : s.OpensTooDeep o) :
    (s.step o source).depthReports = tooDeepAt s.cursor.position :: s.depthReports := by
  rw [h.opens.step_eq, openElement_eq, h.content, if_neg Bool.false_ne_true,
    if_pos (Nat.le_of_eq h.full.symm), depthReports_addElement]
  exact congrArg (tooDeepAt s.cursor.position :: ·) (depthReports_afterStartTag s)

theorem Opening.depthReports (k : Opening o s t) (opens : s.Opens o) (h : ¬ s.OpensTooDeep o)
    (limit : s.stack.length ≤ o.maxDepth) : t.depthReports = s.depthReports := by
  have read := depthReports_afterStartTag (o := o) s
  cases k with
  | empty => exact (depthReports_addElement _ _ _).trans read
  | tooDeep content deep => exact absurd ⟨opens, content, Nat.le_antisymm limit deep⟩ h
  | opened => exact read

/-- Nothing else is reported to be nested too deep. -/
theorem Step.depthReports (k : Step o source s t) (h : ¬ s.OpensTooDeep o)
    (limit : s.stack.length ≤ o.maxDepth) : t.depthReports = s.depthReports := by
  cases k with
  | close => exact depthReports_closeElement s _ _
  | text _ notice => exact (depthReports_add _ _).trans (depthReports_report s notice.isLocal)
  | interpolation _ _ read =>
      exact (depthReports_add _ _).trans (depthReports_after s (Interpolation.read?_local read))
  | comment _ _ notice read =>
      rw [addComment, depthReports_add, depthReports_after _ (Comment.at?_local read)]
      exact depthReports_report s notice.isLocal
  | cdata =>
      exact (depthReports_addAll _ _).trans
        (depthReports_after s (TextNode.readSection_local s.cursor))
  | namelessEndTag => exact depthReports_report s (.error rfl _)
  | strayEndTag =>
      rw [depthReports_after _ (Tag.read_local o .closing s.flags.vPre s.cursor)]
      refine depthReports_of_append [_] rfl fun x hx => ?_
      cases List.mem_singleton.mp hx
      rintro ⟨⟩
  | startTag goes data markup mark plain =>
      exact (openElement_cases o s).depthReports ⟨goes, data, markup, mark, plain⟩ h limit

/-- Reading a start tag takes something. -/
theorem Opens.offset_lt (h : s.Opens o) (source : List Char) :
    s.cursor.position.offset < (s.step o source).cursor.position.offset := by
  have opening := openElement_cases o s
  rw [← h.step_eq source] at opening
  have length := opening.length_stack_le
  have smaller := size_step_lt o source h.not_isDone
  rw [size, size] at smaller
  exact opening.reaches.offset_lt (by omega)

/-- Each report so far goes back to a start tag before the cursor. -/
theorem Reachable.depthReports (h : Reachable o source s) : ∀ x ∈ s.depthReports,
    ∃ u, Reachable o source u ∧ u.OpensTooDeep o ∧ x = tooDeepAt u.cursor.position ∧
      u.cursor.position.offset < s.cursor.position.offset := by
  induction h with
  | initial => exact fun _ hx => nomatch hx
  | @step s reached goes ih =>
      have step : Step o source s (s.step o source) := step_cases goes
      have earlier : ∀ x ∈ s.depthReports, ∃ u, Reachable o source u ∧ u.OpensTooDeep o ∧
          x = tooDeepAt u.cursor.position ∧
          u.cursor.position.offset < (s.step o source).cursor.position.offset := by
        intro x hx
        obtain ⟨u, before, deep, same, less⟩ := ih x hx
        exact ⟨u, before, deep, same, Nat.lt_of_lt_of_le less step.reaches.offset_le⟩
      by_cases deep : s.OpensTooDeep o
      · rw [deep.depthReports]
        have here := deep.opens.offset_lt source
        exact List.forall_mem_cons.mpr ⟨⟨s, reached, deep, rfl, here⟩, earlier⟩
      · rw [step.depthReports deep reached.keepsLimit.length_le]
        exact earlier

/-- What is reported from a state on is not before its cursor. -/
theorem Reachable.depthReports_run (h : Reachable o source s) :
    ∃ later, (s.run o source).depthReports = later ++ s.depthReports ∧
      ∀ x ∈ later, ∃ p, x = tooDeepAt p ∧ s.cursor.position.offset ≤ p.offset := by
  induction h using Reachable.backward with
  | last s h done =>
      rw [run_of_isDone done]
      exact ⟨[], rfl, fun _ hx => nomatch hx⟩
  | step s h goes ih =>
      have step : Step o source s (s.step o source) := step_cases goes
      obtain ⟨later, reports, ahead⟩ := ih
      have ahead : ∀ x ∈ later, ∃ p, x = tooDeepAt p ∧ s.cursor.position.offset ≤ p.offset := by
        intro x hx
        obtain ⟨p, same, less⟩ := ahead x hx
        exact ⟨p, same, Nat.le_trans step.reaches.offset_le less⟩
      rw [run_of_not_isDone goes, reports]
      by_cases deep : s.OpensTooDeep o
      · rw [deep.depthReports]
        refine ⟨later ++ [tooDeepAt s.cursor.position], by simp, ?_⟩
        intro x hx
        rcases List.mem_append.mp hx with hx | hx
        · exact ahead x hx
        · exact ⟨s.cursor.position, List.mem_singleton.mp hx, Nat.le_refl _⟩
      · rw [step.depthReports deep h.keepsLimit.length_le]
        exact ⟨later, rfl, ahead⟩

/-- In the end the start tag at the cursor is reported as often as the step that reads it reports
    it: what is reported before and after that is about other tags. -/
theorem Reachable.count_tooDeepAt (h : Reachable o source s) (opens : s.Opens o) :
    (s.OpensTooDeep o → (s.run o source).depthReports.count (tooDeepAt s.cursor.position) = 1) ∧
      (¬ s.OpensTooDeep o →
        (s.run o source).depthReports.count (tooDeepAt s.cursor.position) = 0) := by
  have forward := opens.offset_lt source
  obtain ⟨later, reports, ahead⟩ := (h.step opens.not_isDone).depthReports_run
  have notLater : tooDeepAt s.cursor.position ∉ later := by
    intro hx
    obtain ⟨p, same, less⟩ := ahead _ hx
    rw [← ParseError.at_inj same] at less
    exact Nat.lt_irrefl _ (Nat.lt_of_lt_of_le forward less)
  have notEarlier : tooDeepAt s.cursor.position ∉ s.depthReports := by
    intro hx
    obtain ⟨u, _, _, same, less⟩ := h.depthReports _ hx
    rw [← ParseError.at_inj same] at less
    exact Nat.lt_irrefl _ less
  rw [run_of_not_isDone opens.not_isDone, reports, List.count_append,
    List.count_eq_zero.mpr notLater, Nat.zero_add]
  constructor
  · intro deep
    rw [deep.depthReports, List.count_cons_self, List.count_eq_zero.mpr notEarlier]
  · intro other
    rw [(step_cases opens.not_isDone).depthReports other h.keepsLimit.length_le]
    exact List.count_eq_zero.mpr notEarlier

end State

open State in
/-- The nesting limit. At most `maxDepth` elements are open at a time; no path leads further than
    one level below that, and there is nothing below an element on that level. A start tag is
    reported as nested too deep once, at its start, if it has content and the limit is reached, and
    not otherwise; and every such report is about such a tag. -/
theorem parse_keeps_limit (o : Options) (source : List Char) :
    (∀ s, Reachable o source s → s.stack.length ≤ o.maxDepth) ∧
    (∀ path node, Node.at? (parse o source).root.children path = some node →
      path.length ≤ o.maxDepth + 1 ∧ (path.length = o.maxDepth + 1 → node.children = [])) ∧
    (∀ s, Reachable o source s → s.Opens o →
      (parse o source).errors.count (.at .nestingTooDeep s.cursor.position) =
        if s.startsEmpty o = false ∧ s.stack.length = o.maxDepth then 1 else 0) ∧
    ∀ x ∈ (parse o source).errors, x.code = .nestingTooDeep →
      ∃ s, Reachable o source s ∧ s.Opens o ∧ s.startsEmpty o = false ∧
        s.stack.length = o.maxDepth ∧ x = .at .nestingTooDeep s.cursor.position := by
  obtain ⟨last, reached, done, result⟩ := exists_reachable_result o source
  refine ⟨fun s reached => reached.keepsLimit.length_le, fun path node found => ?_,
    fun s reached opens => ?_, fun x hx code => ?_⟩
  · have fits := reached.keepsLimit
    unfold KeepsLimit at fits
    rw [(rest_of_isDone done).1] at fits
    rw [result] at found
    refine Node.length_le_of_at? (Siblings.forall_settle (fun _ => .of_leaf nofun) o source _ _ ?_) found
    exact fun n hn => fits n (List.mem_reverse.mp hn)
  · obtain ⟨once, never⟩ := reached.count_tooDeepAt opens
    rw [depthReports, List.count_filter (by rfl)] at once never
    rw [parse, reached.run_eq, State.result, List.count_reverse]
    split
    · next deep => exact once ⟨opens, deep.1, deep.2⟩
    · next other => exact never fun deep => other ⟨deep.content, deep.full⟩
  · rw [result, State.result, List.mem_reverse] at hx
    obtain ⟨s, before, deep, same, _⟩ :=
      reached.depthReports x (List.mem_filter.mpr ⟨hx, by simpa using code⟩)
    exact ⟨s, before, deep.opens, deep.content, deep.full, same⟩

open State in
/-- With one level allowed, an element inside of another one is reported and stays empty. -/
theorem parse_keeps_limit_reached :
    let o := { Options.base with maxDepth := 1 }
    let source := "<a><b>x".toList
    ∃ s node, Reachable o source s ∧ s.Opens o ∧ s.startsEmpty o = false ∧ s.stack.length = 1 ∧
      (parse o source).errors.count (.at .nestingTooDeep s.cursor.position) = 1 ∧
      Node.at? (parse o source).root.children [0, 0] = some node ∧ node.children = [] := by
  intro o source
  have reached : Reachable o source ((initial source).step o source) :=
    .step .initial (by decide +kernel)
  have opens : ((initial source).step o source).Opens o :=
    ⟨by decide +kernel, by decide +kernel, by decide +kernel, by decide +kernel,
      by decide +kernel⟩
  have deep : ((initial source).step o source).startsEmpty o = false ∧
      ((initial source).step o source).stack.length = 1 := by decide +kernel
  have inner : (Node.at? (parse o source).root.children [0, 0]).isSome = true := by decide +kernel
  obtain ⟨node, found⟩ := Option.isSome_iff_exists.mp inner
  obtain ⟨_, levels, reports, _⟩ := parse_keeps_limit o source
  exact ⟨_, node, reached, opens, deep.1, deep.2,
    (reports _ reached opens).trans (if_pos deep), found, (levels [0, 0] node found).2 rfl⟩

end Stencil
