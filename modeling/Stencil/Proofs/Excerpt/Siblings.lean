import Stencil.Proofs.Excerpt
import Stencil.Proofs.RoundTrip
import Stencil.Proofs.Spans.Siblings

/-! # Siblings of an excerpt

Sibling lists are put together and settled in the whole template as in the excerpt. A list with two
elements next to each other falls into two lists that are settled on their own.
-/

namespace Stencil

/-- The whole template has the excerpt at the place of its cursors. -/
theorem Cursor.reaches_ofText_within {text : List Char} {c : Cursor}
    (h : (Cursor.ofText text).Reaches c) (u t : List Char) :
    (Cursor.ofText (u ++ text ++ t)).Reaches (c.within u t) := by
  have start : (Cursor.ofText (u ++ text ++ t)).Reaches ((Cursor.ofText text).within u t) := by
    refine ⟨u, List.append_assoc u text t, ?_⟩
    exact (Position.start_behind u).trans (Position.past_start u).symm
  exact start.trans (h.within (Nat.le_refl 1) u t)

namespace Siblings

variable {o : Options} {text : List Char} {a b : Cursor} {node : Node} {nodes base : List Node}
  {inPre : Bool}

theorem push_behind (u : List Char) (node : Node)
    (edge : nodes = [] → base.head?.map Node.kind ≠ some .text) :
    push (node.behind u) (nodes.map (Node.behind u) ++ base) =
      (push node nodes).map (Node.behind u) ++ base := by
  match node, nodes with
  | .element e children, nodes => rfl
  | .comment c, nodes => rfl
  | .interpolation i, nodes => rfl
  | .text x, [] => exact State.push_of_head (edge rfl)
  | .text x, .element e children :: nodes => rfl
  | .text x, .comment c :: nodes => rfl
  | .text x, .interpolation i :: nodes => rfl
  | .text x, .text prev :: nodes =>
      have touch : (prev.behind u).loc.stop.offset = (x.behind u).loc.start.offset ↔
          prev.loc.stop.offset = x.loc.start.offset := Nat.add_left_cancel_iff
      simp only [List.map_cons, Node.behind, List.cons_append, push, touch]
      split <;> rfl

/-! ## Settling -/

theorem settleText_behind (o : Options) (inPre : Bool) (prev next : Option NodeKind)
    (u : List Char) (x : TextNode) :
    settleText o inPre prev next (x.behind u) =
      (settleText o inPre prev next x).map (TextNode.behind u) := by
  unfold settleText
  cases prev <;> cases next
  all_goals
    simp only [apply_ite (Option.map (TextNode.behind u))]
    rfl

theorem settleNode_behind (o : Options) (inPre : Bool) (prev next : Option NodeKind)
    (u : List Char) (node : Node) :
    settleNode o inPre prev next (node.behind u) =
      (settleNode o inPre prev next node).map (Node.behind u) := by
  cases node with
  | element e children => rfl
  | interpolation i => rfl
  | comment c =>
      simp only [Node.behind, settleNode]
      split <;> rfl
  | text x =>
      simp only [Node.behind, settleNode, settleText_behind, Option.map_map]
      rfl

theorem settleEach_behind (o : Options) (inPre : Bool) (prev : Option NodeKind) (u : List Char)
    (nodes : List Node) :
    settleEach o inPre prev (nodes.map (Node.behind u)) =
      (settleEach o inPre prev nodes).map (Option.map (Node.behind u)) := by
  induction nodes generalizing prev with
  | nil => rfl
  | cons node nodes ih =>
      have next : ((nodes.map (Node.behind u)).head?).map Node.kind =
          nodes.head?.map Node.kind := by
        cases nodes <;> simp
      rw [List.map_cons, settleEach, settleEach, List.map_cons, next, settleNode_behind,
        Node.kind_behind, ih]

theorem dropFirstLineBreak_behind (u : List Char) (list : List (Option Node)) :
    dropFirstLineBreak (list.map (Option.map (Node.behind u))) =
      (dropFirstLineBreak list).map (Option.map (Node.behind u)) := by
  match list with
  | [] => rfl
  | none :: list => rfl
  | some (.element e children) :: list => rfl
  | some (.text x) :: list => rfl
  | some (.comment c) :: list => rfl
  | some (.interpolation i) :: list => rfl

/-- The texts of the excerpt are joined as in the whole template: both have the same text there. -/
theorem joinTexts_behind {m : Cursor} {x y : TextNode} (inside : (Cursor.ofText text).Reaches a)
    (h : x.loc.Spans a m) (k : y.loc.Spans m b) (u t : List Char) :
    joinTexts o inPre (u ++ text ++ t) (x.behind u) (y.behind u) =
      (joinTexts o inPre text x y).behind u := by
  obtain ⟨c, d, first, left, middle, place, _⟩ := h
  obtain ⟨e, f, middle', right, last, place', _⟩ := k
  have across := ((left.trans middle).trans middle').trans right
  have here := inside.trans first
  have short := Cursor.sliceBytes_of_reaches here across
  have long := Cursor.sliceBytes_of_reaches (Cursor.reaches_ofText_within here u t)
    (across.within (here.first (Nat.le_refl 1)) u t)
  rw [Cursor.textTo_within across] at long
  change Text.sliceBytes _ (c.position.behind u).offset (f.position.behind u).offset = _ at long
  simp only [joinTexts, TextNode.behind, Location.behind, place, place', Cursor.locationTo, short,
    long]

theorem consJoining_behind {m : Cursor} (inside : (Cursor.ofText text).Reaches a)
    (h : node.Spans a m) (k : Node.ListSpans m b nodes) (u t : List Char) :
    consJoining o inPre (u ++ text ++ t) (node.behind u) (nodes.map (Node.behind u)) =
      (consJoining o inPre text node nodes).map (Node.behind u) := by
  match node, nodes with
  | .element e children, nodes => rfl
  | .comment c, nodes => rfl
  | .interpolation i, nodes => rfl
  | .text x, [] => rfl
  | .text x, .element e children :: nodes => rfl
  | .text x, .comment c :: nodes => rfl
  | .text x, .interpolation i :: nodes => rfl
  | .text x, .text y :: nodes =>
      rw [Node.ListSpans] at k
      obtain ⟨n, second, _⟩ := k
      rw [Node.Spans] at h second
      simp only [List.map_cons, Node.behind, consJoining, joinTexts_behind inside h second]

theorem foldr_consJoining_behind (inside : (Cursor.ofText text).Reaches a)
    (h : Node.ListSpans a b nodes) (u t : List Char) :
    (nodes.map (Node.behind u)).foldr (consJoining o inPre (u ++ text ++ t)) [] =
      (nodes.foldr (consJoining o inPre text) []).map (Node.behind u) := by
  induction nodes generalizing a with
  | nil => rfl
  | cons node nodes ih =>
      rw [Node.ListSpans] at h
      obtain ⟨m, first, rest⟩ := h
      have later := inside.trans first.reaches
      rw [List.map_cons, List.foldr_cons, List.foldr_cons, ih later rest]
      exact consJoining_behind inside first (foldr_consJoining_spans o inPre later rest) u t

/-- Siblings of the excerpt are settled as in the whole template. -/
theorem settle_behind (o : Options) (inPre preParent : Bool)
    (inside : (Cursor.ofText text).Reaches a) (h : Node.ListSpans a b nodes) (u t : List Char) :
    settle o (u ++ text ++ t) inPre preParent (nodes.map (Node.behind u)) =
      (settle o text inPre preParent nodes).map (Node.behind u) := by
  have kept : ∀ list : List (Option Node),
      (list.map (Option.map (Node.behind u))).filterMap id =
        (list.filterMap id).map (Node.behind u) := by
    intro list
    simp [List.filterMap_map, List.map_filterMap]
  have spans := settled_spans o inPre preParent h
  unfold settle
  dsimp only
  rw [settleEach_behind, dropFirstLineBreak_behind, ← apply_ite (List.map _), kept]
  exact foldr_consJoining_behind inside spans u t

/-- Of the options, settling asks about white space and comments only. -/
theorem settle_congr (o o' : Options) (blanks : o'.whitespace = o.whitespace)
    (comments : o'.comments = o.comments) : settle o' = settle o := by
  have condenses : o'.condenses = o.condenses := congrArg (· == .condense) blanks
  have node : settleNode o' = settleNode o := by
    funext inPre prev next node
    cases node <;> simp only [settleNode, settleText, condenses, comments]
  have each : ∀ inPre prev nodes,
      settleEach o' inPre prev nodes = settleEach o inPre prev nodes := by
    intro inPre prev nodes
    induction nodes generalizing prev with
    | nil => rfl
    | cons first nodes ih => rw [settleEach, settleEach, node, ih]
  have join : consJoining o' = consJoining o := by
    have join : joinTexts o' = joinTexts o := by
      funext inPre source a b
      rw [joinTexts, joinTexts, condenses]
    unfold consJoining
    rw [join]
  funext source inPre preParent nodes
  rw [settle, settle, each, join]

theorem settle_options (o : Options) (u source : List Char) (inPre preParent : Bool)
    (nodes : List Node) :
    settle (o.behind u) source inPre preParent nodes = settle o source inPre preParent nodes := by
  rw [settle_congr o (o.behind u) rfl rfl]

/-! ## Two lists in one -/

variable {xs ys : List Node}

/-- An element stands between its neighbours whatever they are. -/
theorem settleEach_append (prev : Option NodeKind)
    (first : xs.getLast?.map Node.kind = some .element)
    (second : ys.head?.map Node.kind = some .element) :
    settleEach o inPre prev (xs ++ ys) =
      settleEach o inPre prev xs ++ settleEach o inPre none ys := by
  induction xs generalizing prev with
  | nil => cases first
  | cons x xs ih =>
      rw [List.cons_append, settleEach, settleEach, List.cons_append]
      cases xs with
      | cons x' xs =>
          rw [ih _ (by simpa using first)]
          rfl
      | nil =>
          -- an element on either side of the seam: neither depends on its neighbours
          cases x with
          | text | comment | interpolation => cases first
          | element e children =>
              cases ys with
              | nil => cases second
              | cons y ys =>
                  cases y with
                  | text | comment | interpolation => cases second
                  | element e' children' => rfl

theorem foldr_consJoining_append (source : List Char)
    (second : ys.head?.map Node.kind ≠ some .text) :
    xs.foldr (consJoining o inPre source) ys =
      xs.foldr (consJoining o inPre source) [] ++ ys := by
  induction xs with
  | nil => rfl
  | cons x xs ih =>
      rw [List.foldr_cons, List.foldr_cons, ih]
      generalize xs.foldr (consJoining o inPre source) [] = zs
      match x, zs with
      | .element e children, zs => rfl
      | .comment c, zs => rfl
      | .interpolation i, zs => rfl
      | .text x, .element e children :: zs => rfl
      | .text x, .comment c :: zs => rfl
      | .text x, .interpolation i :: zs => rfl
      | .text x, .text y :: zs => rfl
      | .text x, [] =>
          match ys, second with
          | [], _ => rfl
          | .element e children :: ys, _ => rfl
          | .comment c :: ys, _ => rfl
          | .interpolation i :: ys, _ => rfl
          | .text y :: ys, second => exact absurd rfl second

/-- Where two elements stand next to each other, a list can be settled in two parts. -/
theorem settle_append (source : List Char) (first : xs.getLast?.map Node.kind = some .element)
    (second : ys.head?.map Node.kind = some .element) :
    settle o source inPre false (xs ++ ys) =
      settle o source inPre false xs ++ settle o source inPre false ys := by
  unfold settle
  simp only [Bool.and_false, Bool.false_eq_true, if_false]
  rw [settleEach_append none first second, List.filterMap_append, List.foldr_append]
  apply foldr_consJoining_append
  match ys, second with
  | .element e children :: ys, _ => exact nofun

end Siblings

end Stencil
