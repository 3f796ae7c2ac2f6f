import Stencil.Proofs.Bytewise.Scanner
import Stencil.Proofs.Spans.Siblings

/-! # Settling siblings with checked cuts

Texts that have come to stand next to each other are joined from left to right. Only when no other
text follows is the whole of them cut out of the template and condensed. The cut can fail, unlike
the joining from right to left that takes one text at a time; but it does not, since siblings follow
one another in the template.
-/

namespace Stencil

namespace Siblings

section

variable (o : Options) (source : List Char) (inPre : Bool)

/-- A text with a later one added to it, while its source is still the old one. -/
def extend (prev t : TextNode) : TextNode :=
  ⟨prev.content ++ t.content, { prev.loc with stop := t.loc.stop }⟩

/-- Completes a text that others were added to. -/
def finishText (t : TextNode) : Checked TextNode := do
  let text ← Checked.ofFault (Text.cut source t.loc.start.offset t.loc.stop.offset)
  return ⟨if o.condenses && !inPre then Text.condense t.content else t.content,
    { t.loc with source := text }⟩

/-- Completes the newest node of a list if it is such a text. -/
def finishLast (merged : Bool) (nodes : List Node) : Checked (List Node) :=
  match merged, nodes with
  | true, .text t :: rest => return .text (← finishText o source inPre t) :: rest
  | _, nodes => return nodes

/-- Adds nodes to a list that is kept newest first; `merged` tells whether its newest node is a text
    that is not complete. -/
def joinOnto (nodes : List Node) (merged : Bool) : List Node → Checked (List Node)
  | [] => finishLast o source inPre merged nodes
  | node :: later =>
    match node, nodes with
    | .text t, .text prev :: rest => joinOnto (.text (extend prev t) :: rest) true later
    | node, nodes => do
      let complete ← finishLast o source inPre merged nodes
      joinOnto (node :: complete) false later

/-- Settles a complete list of siblings. -/
def settleChecked (preParent : Bool) (nodes : List Node) : Checked (List Node) := do
  let settled := settleEach o inPre none nodes
  let trimmed := if inPre && preParent then dropFirstLineBreak settled else settled
  return (← joinOnto o source inPre [] false (trimmed.filterMap id)).reverse

end

end Siblings

/-! ## Condensing a text in parts -/

namespace Text

/-- What is condensed already condenses to the same as before. -/
theorem condenseFrom_condenseFrom {inner outer : Bool} (h : inner = true → outer = true)
    (s : List Char) : condenseFrom outer (condenseFrom inner s) = condenseFrom outer s := by
  induction s generalizing inner outer with
  | nil => rfl
  | cons c s ih =>
      cases blank : isBlank c with
      | false =>
          have rest := @ih false false nofun
          simp [condenseFrom, blank, rest]
      | true =>
          have space : isBlank ' ' = true := rfl
          have rest := @ih true true id
          cases inner with
          | true => simp [condenseFrom, blank, h rfl, rest]
          | false => cases outer <;> simp [condenseFrom, blank, space, rest]

theorem condense_append_condense (s t : List Char) :
    condense (s ++ condense t) = condense (s ++ t) := by
  have from' : ∀ inRun, condenseFrom inRun (s ++ condense t) = condenseFrom inRun (s ++ t) := by
    induction s with
    | nil => exact fun inRun => @condenseFrom_condenseFrom false inRun nofun t
    | cons c s ih =>
        intro inRun
        simp only [List.cons_append, condenseFrom, ih]
  exact from' false

end Text

namespace Siblings

variable {o : Options} {source : List Char} {inPre : Bool}

/-- Joining texts one by one or all at once. -/
theorem joinTexts_extend (o : Options) (source : List Char) (inPre : Bool) (t u v : TextNode) :
    joinTexts o inPre source (extend t u) v =
      joinTexts o inPre source t (joinTexts o inPre source u v) := by
  simp only [joinTexts, extend]
  split
  · rw [Text.condense_append_condense, List.append_assoc]
  · rw [List.append_assoc]

/-- A text that ends in the template before `a`, after it has started. -/
def EndsBefore (source : List Char) (a : Cursor) (t : TextNode) : Prop :=
  ∃ c d : Cursor, c.Within source ∧ c.Reaches d ∧ d.Reaches a ∧ t.loc.start = c.position ∧
    t.loc.stop = d.position

variable {a b : Cursor} {t u : TextNode} {node : Node} {later : List Node}

theorem EndsBefore.of_spans (h : a.Within source) (k : t.loc.Spans a b) :
    EndsBefore source b t := by
  obtain ⟨c, d, first, middle, last, place, _⟩ := k
  exact ⟨c, d, h.of_reaches first, middle, last, by rw [place]; rfl, by rw [place]; rfl⟩

theorem EndsBefore.extend (h : EndsBefore source a t) (k : u.loc.Spans a b) :
    EndsBefore source b (extend t u) := by
  obtain ⟨c, d, within, left, middle, start, _⟩ := h
  obtain ⟨e, f, first, right, last, place, _⟩ := k
  refine ⟨c, f, within, ((left.trans middle).trans first).trans right, last, start, ?_⟩
  rw [Siblings.extend, place]
  rfl

/-- A text that another one was added to becomes what joining the two gives. -/
theorem finishText_extend (h : EndsBefore source a (extend t u)) :
    finishText o source inPre (extend t u) = pure (joinTexts o inPre source t u) := by
  obtain ⟨c, d, within, across, _, start, stop⟩ := h
  have slice := Cursor.sliceBytes_of_reaches within.reaches across
  change t.loc.start = c.position at start
  change u.loc.stop = d.position at stop
  simp only [finishText, extend, start, stop, within.cut across, Checked.ofFault, pure_bind,
    joinTexts, slice]

theorem exists_consJoining_text (o : Options) (source : List Char) (inPre : Bool) (t : TextNode)
    (nodes : List Node) :
    ∃ u rest, consJoining o inPre source (.text t) nodes = .text u :: rest := by
  unfold consJoining
  split
  · exact ⟨_, _, rfl⟩
  · exact ⟨t, _, rfl⟩

theorem consJoining_other (o : Options) (source : List Char) (inPre : Bool)
    (other : ∀ t, node ≠ .text t) (nodes : List Node) :
    consJoining o inPre source node nodes = node :: nodes := by
  unfold consJoining
  split
  · next t u rest => exact absurd rfl (other t)
  · rfl

theorem consJoining_cons_other (o : Options) (source : List Char) (inPre : Bool) (before : Node)
    (other : ∀ t, node ≠ .text t) (nodes : List Node) :
    consJoining o inPre source before (node :: nodes) = before :: node :: nodes := by
  unfold consJoining
  split
  · next t u rest same => exact absurd (List.cons.inj same).1 (other u)
  · rfl

theorem finishLast_other (o : Options) (source : List Char) (inPre merged : Bool)
    {done : List Node} (other : ∀ t rest, done ≠ .text t :: rest) :
    finishLast o source inPre merged done = pure done := by
  unfold finishLast
  split
  · next t rest => exact absurd rfl (other t rest)
  · rfl

/-- What adding nodes to a list amounts to, depending on its newest node: a text may be joined with
    the first of them, and one that is not complete surely is. -/
structure Joins (o : Options) (source : List Char) (inPre : Bool) (a : Cursor)
    (later : List Node) : Prop where
  other : ∀ done merged, (∀ t rest, done ≠ .text t :: rest) →
    joinOnto o source inPre done merged later =
      pure ((later.foldr (consJoining o inPre source) []).reverse ++ done)
  text : ∀ t done, EndsBefore source a t →
    joinOnto o source inPre (.text t :: done) false later =
      pure ((consJoining o inPre source (.text t)
        (later.foldr (consJoining o inPre source) [])).reverse ++ done)
  merged : ∀ t u done, EndsBefore source a (extend t u) →
    joinOnto o source inPre (.text (extend t u) :: done) true later =
      pure ((consJoining o inPre source (.text t) (consJoining o inPre source (.text u)
        (later.foldr (consJoining o inPre source) []))).reverse ++ done)

theorem joins_nil (o : Options) (source : List Char) (inPre : Bool) (a : Cursor) :
    Joins o source inPre a [] where
  other done merged h := by
    rw [joinOnto, finishLast_other o source inPre merged h]
    rfl
  text t done _ := rfl
  merged t u done h := by
    rw [joinOnto, finishLast, finishText_extend h]
    rfl

theorem joins_text (h : a.Within source) (k : t.loc.Spans a b)
    (next : Joins o source inPre b later) : Joins o source inPre a (.text t :: later) where
  other done merged other := by
    rw [joinOnto, finishLast_other o source inPre merged other, pure_bind,
      next.text t done (.of_spans h k)]
    · rfl
    · intro u prev rest _ same
      exact other prev rest same
  text u done ends := by
    rw [joinOnto, next.merged u t done (ends.extend k)]
    rfl
  merged u v done ends := by
    rw [joinOnto, next.merged (extend u v) t done (ends.extend k), List.foldr_cons]
    obtain ⟨w, rest, starts⟩ := exists_consJoining_text o source inPre t
      (later.foldr (consJoining o inPre source) [])
    rw [starts]
    simp only [consJoining, joinTexts_extend]

theorem joins_other (other : ∀ t, node ≠ .text t)
    (next : Joins o source inPre b later) : Joins o source inPre a (node :: later) := by
  have step : ∀ done merged, joinOnto o source inPre done merged (node :: later) =
      finishLast o source inPre merged done >>= fun complete =>
        joinOnto o source inPre (node :: complete) false later := by
    intro done merged
    rw [joinOnto]
    intro t prev rest same _
    exact other t same
  have rest := fun done => next.other (node :: done) false
    fun t rest same => other t (List.cons.inj same).1
  refine ⟨fun done merged h => ?_, fun t done _ => ?_, fun t u done ends => ?_⟩
  · rw [step, finishLast_other o source inPre merged h, pure_bind, rest, List.foldr_cons,
      consJoining_other o source inPre other, List.reverse_cons, List.append_assoc,
      List.singleton_append]
  · rw [step, finishLast, pure_bind, rest, List.foldr_cons, consJoining_other o source inPre other,
      consJoining_cons_other o source inPre _ other]
    simp
    intro t rest
    exact nofun
  · have complete : finishLast o source inPre true (.text (extend t u) :: done) =
        pure (.text (joinTexts o inPre source t u) :: done) := by
      rw [finishLast, finishText_extend ends]
      rfl
    rw [step, complete, pure_bind, rest, List.foldr_cons, consJoining_other o source inPre other,
      consJoining_cons_other o source inPre _ other]
    simp [consJoining]

theorem joins (o : Options) (inPre : Bool) (h : a.Within source)
    (k : Node.ListSpans a b later) : Joins o source inPre a later := by
  induction later generalizing a with
  | nil => exact joins_nil o source inPre a
  | cons node later ih =>
      rw [Node.ListSpans] at k
      obtain ⟨m, first, rest⟩ := k
      have next := ih (h.of_reaches first.reaches) rest
      cases node with
      | text t =>
          rw [Node.Spans] at first
          exact joins_text h first next
      | element | comment | interpolation => exact joins_other nofun next

/-- The cuts do not fail, and joining from either end gives the same. -/
theorem settleChecked_eq (o : Options) (inPre preParent : Bool) (h : a.Within source)
    {nodes : List Node} (k : Node.ListSpans a b nodes) :
    settleChecked o source inPre preParent nodes =
      pure (settle o source inPre preParent nodes) := by
  have trimmed := settled_spans o inPre preParent k
  have joined := (joins o inPre h trimmed).other [] false nofun
  simp only [settleChecked, joined, pure_bind, settle, List.append_nil, List.reverse_reverse]

end Siblings

end Stencil
