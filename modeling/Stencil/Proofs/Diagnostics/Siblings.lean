import Stencil.Proofs.Bytewise.Siblings
import Stencil.Proofs.RoundTrip

/-! # How lists of siblings start

Whether an element that is cut off is a script that starts like a comment is decided by its first
child, after the siblings are settled. What comes first then depends on the texts that the list
starts with and on the node after them, and of the texts only on where they stand and whether they
are blank. Lists that agree so far still do when nodes are added to both, and when both are settled
with comments kept, whatever happens to white space.
-/

namespace Stencil

namespace Text

theorem isBlankOnly_append_congr {s s' t t' : List Char} (left : isBlankOnly s = isBlankOnly s')
    (right : isBlankOnly t = isBlankOnly t') : isBlankOnly (s ++ t) = isBlankOnly (s' ++ t') := by
  rw [isBlankOnly, isBlankOnly, List.all_append, List.all_append]
  exact congr (congrArg and left) right

theorem isBlankOnly_condenseFrom (inRun : Bool) (s : List Char) :
    isBlankOnly (condenseFrom inRun s) = isBlankOnly s := by
  fun_induction condenseFrom inRun s with
  | case1 => rfl
  | case2 c cs blank ih =>
      rw [ih, isBlankOnly, isBlankOnly, List.all_cons, blank, Bool.true_and]
  | case3 inRun c cs blank other ih =>
      rw [isBlankOnly] at ih ⊢
      rw [List.all_cons, ih, isBlankOnly, isBlankOnly, List.all_cons, blank]
      rfl
  | case4 inRun c cs other ih =>
      rw [isBlankOnly] at ih ⊢
      rw [List.all_cons, ih]
      rfl

theorem isBlankOnly_unifyLineBreaks (s : List Char) :
    isBlankOnly (unifyLineBreaks s) = isBlankOnly s := by
  fun_induction unifyLineBreaks s with
  | case1 => rfl
  | case2 cs ih => exact ih
  | case3 c cs other ih => exact congrArg (isBlank c && ·) ih

theorem isBlankOnly_dropLineBreak (s : List Char) :
    isBlankOnly (dropLineBreak s) = isBlankOnly s := by
  unfold dropLineBreak
  split <;> rfl

end Text

theorem Node.ne_text {node : Node} (other : node.kind ≠ .text) (t : TextNode) :
    node ≠ .text t := by
  rintro rfl
  exact other rfl

/-- Two lists of siblings start alike: the texts before their first other nodes stand in the same
    places and are blank in the same places, and so stand those first other nodes. -/
inductive Node.StartAlike : List Node → List Node → Prop where
  | nil : StartAlike [] []
  | other {m n : Node} (left : m.kind ≠ .text) (right : n.kind ≠ .text) (place : m.loc = n.loc)
      (ms ns : List Node) : StartAlike (m :: ms) (n :: ns)
  | text {t u : TextNode} {ms ns : List Node} (place : t.loc = u.loc)
      (blank : Text.isBlankOnly t.content = Text.isBlankOnly u.content) :
      StartAlike ms ns → StartAlike (.text t :: ms) (.text u :: ns)

namespace Node.StartAlike

variable {ms ns : List Node} {m n : Node}

theorem refl (nodes : List Node) : StartAlike nodes nodes := by
  induction nodes with
  | nil => exact .nil
  | cons node nodes ih =>
      by_cases text : node.kind = .text
      · cases node with
        | text t => exact .text rfl rfl ih
        | element | comment | interpolation => cases text
      · exact .other text text rfl nodes nodes

theorem eq_nil_iff (h : StartAlike ms ns) : ms = [] ↔ ns = [] := by
  cases h <;> simp

/-- The first nodes stand in the same place. -/
theorem any_head? (h : StartAlike ms ns) (p : Location → Bool) :
    (ms.head?.any fun n => p n.loc) = ns.head?.any fun n => p n.loc := by
  cases h with
  | nil => rfl
  | other _ _ place => exact congrArg p place
  | text place => exact congrArg p place

/-- What follows the first other node does not matter. -/
theorem append (h : StartAlike ms ns) (left : m.kind ≠ .text) (right : n.kind ≠ .text)
    (place : m.loc = n.loc) (xs ys : List Node) : StartAlike (ms ++ m :: xs) (ns ++ n :: ys) := by
  induction h with
  | nil => exact .other left right place xs ys
  | other left' right' place' => exact .other left' right' place' _ _
  | text place blank _ ih => exact .text place blank ih

end Node.StartAlike

namespace Siblings

open Node (StartAlike)

variable {o o' : Options} {source : List Char} {ms ns xs ys : List Node} {m n : Node}

/-! ## Adding nodes -/

/-- A node that is added changes at most the last sibling, and that one only if it is a text. -/
theorem push_append (node : Node) {last below : List Node}
    (h : last ≠ [] ∨ below.head?.map Node.kind ≠ some .text) :
    push node (last ++ below) = push node last ++ below := by
  match last, h with
  | [], .inl h => exact absurd rfl h
  | [], .inr h =>
      rw [List.nil_append, State.push_of_head h]
      cases node <;> rfl
  | .text prev :: rest, _ =>
      cases node with
      | text t =>
          simp only [push, List.cons_append]
          split <;> rfl
      | element | comment | interpolation => rfl
  | .element .. :: _, _ | .comment _ :: _, _ | .interpolation _ :: _, _ => cases node <;> rfl

theorem push_startAlike (h : StartAlike ms ns) (k : StartAlike [m] [n]) :
    StartAlike (push m ms.reverse).reverse (push n ns.reverse).reverse := by
  have behind : ∀ (x node : Node) (rest : List Node), rest ≠ [] ∨ x.kind ≠ .text →
      (push node (x :: rest).reverse).reverse = x :: (push node rest.reverse).reverse := by
    intro x node rest h
    rw [List.reverse_cons, push_append node, List.reverse_append]
    · rfl
    · exact h.imp (mt List.reverse_eq_nil_iff.mp) (mt Option.some.inj)
  induction h with
  | nil =>
      have alone : ∀ node, push node [] = [node] := fun node => by cases node <;> rfl
      rw [List.reverse_nil, alone, alone]
      exact k
  | other left right place ms ns =>
      rw [behind _ _ _ (.inr left), behind _ _ _ (.inr right)]
      exact .other left right place _ _
  | @text t u ms ns place blank rest ih =>
      -- A lone text may be extended; one that others follow stays as it is.
      by_cases empty : ms = []
      · have empty' := rest.eq_nil_iff.mp empty
        subst empty empty'
        cases k with
        | other left right place' =>
            rw [State.push_of_ne left, State.push_of_ne right]
            exact .text place blank (.other left right place' [] [])
        | text place' blank' =>
            simp only [List.reverse_singleton, push, place, place']
            split
            · exact .text rfl (Text.isBlankOnly_append_congr blank blank') .nil
            · exact .text place blank (.text place' blank' .nil)
      · rw [behind _ _ _ (.inl empty), behind _ _ _ (.inl (mt rest.eq_nil_iff.mpr empty))]
        exact .text place blank ih

/-- Nodes that are added leave everything up to a node that is not a text alone. -/
theorem foldl_push_append (nodes last below : List Node) (other : m.kind ≠ .text) :
    nodes.foldl (fun list node => push node list) (last ++ m :: below) =
      nodes.foldl (fun list node => push node list) last ++ m :: below := by
  induction nodes generalizing last with
  | nil => rfl
  | cons node nodes ih =>
      have apart : (m :: below).head?.map Node.kind ≠ some .text := mt Option.some.inj other
      rw [List.foldl_cons, List.foldl_cons, push_append node (.inr apart), ih]

theorem foldl_push_startAlike (h : StartAlike ms.reverse ns.reverse) (k : StartAlike xs ys) :
    StartAlike (xs.foldl (fun list node => push node list) ms).reverse
      (ys.foldl (fun list node => push node list) ns).reverse := by
  induction k generalizing ms ns with
  | nil => exact h
  | other left right place xs ys =>
      have behind : ∀ {m : Node} (xs below : List Node), m.kind ≠ .text →
          ((m :: xs).foldl (fun list node => push node list) below).reverse =
            below.reverse ++ m :: (xs.foldl (fun list node => push node list) []).reverse := by
        intro m xs below other
        have apart := foldl_push_append xs [] below other
        rw [List.nil_append] at apart
        rw [List.foldl_cons, State.push_of_ne other, apart, List.reverse_append,
          List.reverse_cons, List.append_assoc]
        rfl
      rw [behind xs ms left, behind ys ns right]
      exact h.append left right place _ _
  | text place blank _ ih =>
      have pushed := push_startAlike h (.text place blank .nil)
      rw [List.reverse_reverse, List.reverse_reverse] at pushed
      exact ih pushed

/-! ## Settling -/

/-- What becomes of a text that only texts stand before: where white space is not kept, it is
    dropped if it is blank and stands at one of the two ends, and otherwise it stays where it was
    and as blank as it was. -/
theorem settleText_cases (o : Options) (inPre : Bool) {prev : Option NodeKind}
    (first : prev = none ∨ prev = some .text) (next : Option NodeKind) (t : TextNode) :
    if !inPre && Text.isBlankOnly t.content && (prev.isNone || next.isNone) then
      settleText o inPre prev next t = none
    else ∃ u, settleText o inPre prev next t = some u ∧ u.loc = t.loc ∧
      Text.isBlankOnly u.content = Text.isBlankOnly t.content := by
  -- Next to a text, blanks are not removable, so it does not matter whether they are condensed.
  have kept : ∀ next, isRemovable .text next t.content = false := fun next => by cases next <;> rfl
  unfold settleText
  cases inPre with
  | true => exact ⟨_, rfl, rfl, Text.isBlankOnly_unifyLineBreaks t.content⟩
  | false =>
      cases blank : Text.isBlankOnly t.content with
      | true =>
          rcases first with rfl | rfl
          · rfl
          · cases next with
            | none => rfl
            | some next =>
                simp only [kept, Bool.and_false]
                exact ⟨_, rfl, rfl, rfl⟩
      | false =>
          cases o.condenses with
          | true => exact ⟨_, rfl, rfl, (Text.isBlankOnly_condenseFrom false t.content).trans blank⟩
          | false => exact ⟨t, rfl, rfl, blank⟩

theorem settleNode_of_ne (kept : o.comments = true) (other : m.kind ≠ .text) (inPre : Bool)
    (prev next : Option NodeKind) : settleNode o inPre prev next m = some m := by
  cases m with
  | text t => exact absurd rfl other
  | comment c => exact if_pos kept
  | element | interpolation => rfl

theorem foldr_consJoining_startAlike (h : StartAlike ms ns) (inPre : Bool) :
    StartAlike (ms.foldr (consJoining o inPre source) [])
      (ns.foldr (consJoining o' inPre source) []) := by
  have whole : ∀ (o : Options) s, Text.isBlankOnly
      (if o.condenses && !inPre then Text.condense s else s) = Text.isBlankOnly s := by
    intro o s
    split
    · exact Text.isBlankOnly_condenseFrom false s
    · rfl
  induction h with
  | nil => exact .nil
  | other left right place ms ns =>
      rw [List.foldr_cons, List.foldr_cons,
        consJoining_other o source inPre (Node.ne_text left),
        consJoining_other o' source inPre (Node.ne_text right)]
      exact .other left right place _ _
  | text place blank _ ih =>
      rw [List.foldr_cons, List.foldr_cons]
      generalize List.foldr (consJoining o inPre source) [] _ = joined at ih ⊢
      generalize List.foldr (consJoining o' inPre source) [] _ = joined' at ih ⊢
      cases ih with
      | nil => exact .text place blank .nil
      | other left right place' xs ys =>
          rw [consJoining_cons_other o source inPre _ (Node.ne_text left),
            consJoining_cons_other o' source inPre _ (Node.ne_text right)]
          exact .text place blank (.other left right place' xs ys)
      | text place' blank' rest =>
          refine .text ?_ ?_ rest
          · simp only [joinTexts, place, place']
          · simp only [joinTexts, whole]
            exact Text.isBlankOnly_append_congr blank blank'

section

variable (kept : o.comments = true) (kept' : o'.comments = true)

include kept kept'

theorem settleEach_startAlike (h : StartAlike ms ns) (inPre : Bool) {prev : Option NodeKind}
    (first : prev = none ∨ prev = some .text) :
    StartAlike ((settleEach o inPre prev ms).filterMap id)
      ((settleEach o' inPre prev ns).filterMap id) := by
  induction h generalizing prev with
  | nil => exact .nil
  | other left right place ms ns =>
      rw [settleEach, settleEach, settleNode_of_ne kept left, settleNode_of_ne kept' right]
      exact .other left right place _ _
  | @text t u ms ns place blank rest ih =>
      have ends : (ms.head?.map Node.kind).isNone = (ns.head?.map Node.kind).isNone := by
        rw [Bool.eq_iff_iff]
        simpa using rest.eq_nil_iff
      have left := settleText_cases o inPre first (ms.head?.map Node.kind) t
      have right := settleText_cases o' inPre first (ns.head?.map Node.kind) u
      rw [blank, ends] at left
      rw [settleEach, settleEach]
      unfold settleNode
      dsimp only
      split at left
      · next drops =>
        rw [if_pos drops] at right
        rw [left, right]
        exact ih (.inr rfl)
      · next stays =>
        rw [if_neg stays] at right
        obtain ⟨t', settled, at', blank'⟩ := left
        obtain ⟨u', settled', at'', blank''⟩ := right
        rw [settled, settled']
        exact .text (at'.trans (place.trans at''.symm)) (blank'.trans blank''.symm)
          (ih (.inr rfl))

/-- Lists that start alike do so when they are settled with comments kept. -/
theorem settle_startAlike (h : StartAlike ms ns) (inPre preParent : Bool) :
    StartAlike (settle o source inPre preParent ms) (settle o' source inPre preParent ns) := by
  apply foldr_consJoining_startAlike
  split
  · next drops =>
    obtain ⟨rfl, rfl⟩ := Bool.and_eq_true_iff.mp drops
    cases h with
    | nil => exact .nil
    | other left right place ms ns =>
        have stays : ∀ {m : Node} (nodes : List (Option Node)), m.kind ≠ .text →
            dropFirstLineBreak (some m :: nodes) = some m :: nodes := by
          intro m nodes other
          cases m with
          | text t => exact absurd rfl other
          | element | comment | interpolation => rfl
        rw [settleEach, settleEach, settleNode_of_ne kept left, settleNode_of_ne kept' right,
          stays _ left, stays _ right]
        exact .other left right place _ _
    | text place blank rest =>
        refine .text place ?_ (settleEach_startAlike kept kept' rest true (.inr rfl))
        rw [Text.isBlankOnly_dropLineBreak, Text.isBlankOnly_dropLineBreak]
        exact (Text.isBlankOnly_unifyLineBreaks _).trans
          (blank.trans (Text.isBlankOnly_unifyLineBreaks _).symm)
  · exact settleEach_startAlike kept kept' h inPre (.inl rfl)

end

end Siblings

end Stencil
