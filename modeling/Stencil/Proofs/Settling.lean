import Stencil.Proofs.Spacing

/-! # What settling keeps

Settling a list of siblings drops blank text and unwanted comments, and it changes blanks inside of
texts. Everything else stays: read from one end to the other, the list shows the same nodes and the
same characters as before, in the same order. Where no two texts stood next to each other, settling
a second time changes nothing, since every text that was kept has the neighbours that it had when it
was kept.
-/

namespace Stencil

namespace Text

/-- The characters of a text that are not blank. -/
def visible (s : List Char) : List Char :=
  s.filter fun c => !isBlank c

@[simp]
theorem visible_append (s t : List Char) : visible (s ++ t) = visible s ++ visible t := by
  simp [visible]

theorem visible_of_isBlankOnly {s : List Char} (blank : isBlankOnly s = true) : visible s = [] := by
  simpa [visible, isBlankOnly] using blank

@[simp]
theorem visible_condenseFrom (inRun : Bool) (s : List Char) :
    visible (condenseFrom inRun s) = visible s := by
  fun_induction condenseFrom inRun s with
  | case1 => rfl
  | case2 c cs blank ih => simpa [visible, blank] using ih
  | case3 inRun c cs blank _ ih =>
      have space : isBlank ' ' = true := rfl
      simpa [visible, blank, space] using ih
  | case4 inRun c cs other ih => simpa [visible, other] using ih

@[simp]
theorem visible_condense (s : List Char) : visible (condense s) = visible s :=
  visible_condenseFrom false s

@[simp]
theorem visible_unifyLineBreaks (s : List Char) : visible (unifyLineBreaks s) = visible s := by
  fun_induction unifyLineBreaks s with
  | case1 => rfl
  | case2 cs ih =>
      have feed : isBlank '\n' = true := rfl
      have carriage : isBlank '\r' = true := rfl
      simpa [visible, feed, carriage] using ih
  | case3 c cs _ ih => simp only [visible, List.filter_cons] at ih ⊢; rw [ih]

@[simp]
theorem visible_dropLineBreak (s : List Char) : visible (dropLineBreak s) = visible s := by
  have feed : isBlank '\n' = true := rfl
  have carriage : isBlank '\r' = true := rfl
  unfold dropLineBreak
  split <;> simp [visible, feed, carriage]

end Text

namespace Node

/-- What a node has to show for itself: a text has its characters, and any other node is one
    thing. -/
def content : Node → List (Char ⊕ Node)
  | .text t => t.content.map .inl
  | node => [.inr node]

end Node

namespace Siblings

/-- All that siblings hold, one behind the other: the characters of their texts and their other
    nodes. -/
def content (nodes : List Node) : List (Char ⊕ Node) :=
  nodes.flatMap Node.content

/-- Characters show unless they are blank, and of the nodes those that count. -/
def isShown (counts : Node → Bool) : Char ⊕ Node → Bool
  | .inl c => !Text.isBlank c
  | .inr node => counts node

/-- What siblings show, one behind the other. -/
def shown (counts : Node → Bool) (nodes : List Node) : List (Char ⊕ Node) :=
  (content nodes).filter (isShown counts)

/-- A node that is not a comment, unless comments are wanted. -/
def isWanted (o : Options) (node : Node) : Bool :=
  o.comments || node.kind != .comment

variable {o : Options} {source : List Char} {inPre : Bool} {prev next : Option NodeKind}
  {counts : Node → Bool} {node : Node} {nodes : List Node}

@[simp]
theorem shown_nil (counts : Node → Bool) : shown counts [] = [] := rfl

@[simp]
theorem shown_cons (counts : Node → Bool) (node : Node) (nodes : List Node) :
    shown counts (node :: nodes) = node.content.filter (isShown counts) ++ shown counts nodes := by
  simp [shown, content]

@[simp]
theorem filter_content_text (counts : Node → Bool) (t : TextNode) :
    (Node.text t).content.filter (isShown counts) = (Text.visible t.content).map .inl := by
  rw [Node.content, List.filter_map]
  rfl

theorem filter_content_other (counts : Node → Bool) (other : node.kind ≠ .text) :
    node.content.filter (isShown counts) = if counts node then [.inr node] else [] := by
  cases node with
  | text t => exact absurd rfl other
  | element | comment | interpolation =>
      rw [Node.content]
      · cases counted : counts _ <;> simp [isShown, counted]
      · nofun

/-- The nodes other than texts can be read off what is shown. -/
theorem filterMap_shown (counts : Node → Bool) (nodes : List Node) :
    (shown counts nodes).filterMap Sum.getRight? =
      nodes.filter fun n => n.kind != .text && counts n := by
  induction nodes with
  | nil => rfl
  | cons node nodes ih =>
      rw [shown_cons, List.filterMap_append, ih, List.filter_cons]
      by_cases text : node.kind = .text
      · obtain ⟨t, rfl⟩ := Node.eq_text_of_kind text
        simp [Node.kind, Function.comp_def]
      · rw [filter_content_other counts text]
        cases counts node <;> simp [text]

/-! ## Nothing that shows is lost -/

/-- A text shows the same as before, and one that is dropped showed nothing. -/
theorem visible_settleText (t : TextNode) :
    (settleText o inPre prev next t).elim [] (Text.visible ·.content) = Text.visible t.content := by
  have space : Text.visible [' '] = [] := rfl
  unfold settleText
  split
  · simp
  · split
    · next blank =>
      have none := Text.visible_of_isBlankOnly blank
      split
      · split <;> simp [none, space]
      · simp [none]
    · split <;> simp

/-- A node other than a text is kept as it is if it is wanted. -/
theorem settleNode_other (other : node.kind ≠ .text) :
    settleNode o inPre prev next node = if isWanted o node then some node else none := by
  cases node with
  | text t => exact absurd rfl other
  | comment c => cases wanted : o.comments <;> simp [settleNode, isWanted, wanted, Node.kind]
  | element | interpolation => simp [settleNode, isWanted, Node.kind]

theorem shown_settleNode (o : Options) (inPre : Bool) (prev next : Option NodeKind) (node : Node) :
    (settleNode o inPre prev next node).elim [] (shown (fun _ => true) [·]) =
      shown (isWanted o) [node] := by
  by_cases text : node.kind = .text
  · obtain ⟨t, rfl⟩ := Node.eq_text_of_kind text
    have same : (settleText o inPre prev next t).elim [] (Text.visible ·.content) = _ :=
      visible_settleText t
    rw [shown_cons, filter_content_text, ← same, settleNode]
    cases settleText o inPre prev next t <;> simp
  · rw [settleNode_other text, shown_cons, filter_content_other _ text]
    split <;> simp [filter_content_other _ text]

theorem shown_filterMap_cons (x : Option Node) (list : List (Option Node)) :
    shown counts ((x :: list).filterMap id) =
      x.elim [] (shown counts [·]) ++ shown counts (list.filterMap id) := by
  cases x with
  | none => rfl
  | some node =>
      rw [List.filterMap_cons_some (f := id) rfl]
      simp

theorem shown_settleEach (o : Options) (inPre : Bool) (prev : Option NodeKind) (nodes : List Node) :
    shown (fun _ => true) ((settleEach o inPre prev nodes).filterMap id) =
      shown (isWanted o) nodes := by
  induction nodes generalizing prev with
  | nil => rfl
  | cons node nodes ih =>
      rw [settleEach, shown_filterMap_cons, shown_settleNode, ih]
      simp

theorem shown_dropFirstLineBreak (list : List (Option Node)) :
    shown counts ((dropFirstLineBreak list).filterMap id) = shown counts (list.filterMap id) := by
  unfold dropFirstLineBreak
  split
  · simp
  · rfl

theorem shown_consJoining (o : Options) (inPre : Bool) (source : List Char) (node : Node)
    (nodes : List Node) :
    shown counts (consJoining o inPre source node nodes) = shown counts (node :: nodes) := by
  unfold consJoining
  split
  · next a b rest =>
    have joined : Text.visible (joinTexts o inPre source a b).content =
        Text.visible a.content ++ Text.visible b.content := by
      simp only [joinTexts]
      split <;> simp
    simp [joined]
  · rfl

theorem shown_foldr_consJoining (o : Options) (inPre : Bool) (source : List Char)
    (nodes : List Node) :
    shown counts (nodes.foldr (consJoining o inPre source) []) = shown counts nodes := by
  induction nodes with
  | nil => rfl
  | cons node nodes ih => rw [List.foldr_cons, shown_consJoining, shown_cons, ih, shown_cons]

theorem shown_settle (o : Options) (source : List Char) (inPre preParent : Bool)
    (nodes : List Node) :
    shown (fun _ => true) (settle o source inPre preParent nodes) = shown (isWanted o) nodes := by
  unfold settle
  dsimp only
  rw [shown_foldr_consJoining]
  split
  · rw [shown_dropFirstLineBreak, shown_settleEach]
  · exact shown_settleEach o inPre none nodes

/-! ## Settling twice -/

/-- A text that was kept is kept as it is where it has the same neighbours. -/
theorem settleText_again {t u : TextNode} (h : settleText o false prev next t = some u) :
    settleText o false prev next u = some u := by
  cases blank : Text.isBlankOnly t.content with
  | true =>
      simp only [settleText, blank, Bool.false_eq_true, if_false, if_true] at h
      split at h
      · next p n =>
        split at h
        · cases h
        · next kept =>
          cases h
          have space : Text.isBlankOnly [' '] = true := rfl
          have still : isRemovable p n [' '] = true → isRemovable p n t.content = true := by
            cases p <;> cases n <;> simp [isRemovable]
          have stays : ¬(o.condenses && isRemovable p n [' ']) = true := by
            simp only [Bool.and_eq_true, not_and] at kept ⊢
            exact fun condenses removable => kept condenses (still removable)
          simp [settleText, space, stays]
      · cases h
  | false =>
      cases condenses : o.condenses with
      | true =>
          simp only [settleText, blank, condenses, Bool.false_eq_true, if_false, if_true] at h
          cases h
          have seen : Text.isBlankOnly (Text.condense t.content) = false :=
            (Text.isBlankOnly_condenseFrom false t.content).trans blank
          simp [settleText, seen, condenses, Text.condense_condense]
      | false =>
          simp only [settleText, blank, condenses, Bool.false_eq_true, if_false] at h
          cases h
          simp [settleText, blank, condenses]

/-- What comes before does not matter to a list that does not start with a text. -/
theorem settled_after (comments : o.comments = true)
    (other : nodes.head?.map Node.kind ≠ some .text) (prev previous : Option NodeKind) :
    settled o prev nodes = settled o previous nodes := by
  cases nodes with
  | nil => rfl
  | cons node nodes =>
      have kind : node.kind ≠ .text := fun text => other (congrArg some text)
      rw [settled_cons_of_ne comments kind, settled_cons_of_ne comments kind]

/-- In a list without texts next to each other the neighbours of a text are kept, so that a second
    round finds every text between the same neighbours. -/
theorem settled_settled (comments : o.comments = true) (apart : Node.Apart nodes)
    (prev : Option NodeKind) :
    settled o prev (settled o prev nodes) = settled o prev nodes ∧
      Node.Apart (settled o prev nodes) := by
  induction nodes generalizing prev with
  | nil => exact ⟨rfl, .nil⟩
  | cons node nodes ih =>
      obtain ⟨neighbour, apart⟩ := List.isChain_cons.mp apart
      obtain ⟨again, later⟩ := ih apart (some node.kind)
      by_cases text : node.kind = .text
      · obtain ⟨t, rfl⟩ := Node.eq_text_of_kind text
        have other : nodes.head?.map Node.kind ≠ some .text := by
          intro next
          obtain ⟨n, hn, kind⟩ := Option.map_eq_some_iff.mp next
          exact neighbour n hn ⟨rfl, kind⟩
        have next : (settled o (some .text) nodes).head?.map Node.kind =
            nodes.head?.map Node.kind := head?_settled comments other
        cases kept : settleText o false prev (nodes.head?.map Node.kind) t with
        | none =>
            rw [settled_text, kept]
            dsimp only
            refine ⟨?_, later⟩
            rw [settled_after comments (next ▸ other) prev (some .text)]
            exact again
        | some u =>
            rw [settled_text, kept]
            dsimp only
            refine ⟨?_, List.isChain_cons.mpr ⟨fun n hn both => ?_, later⟩⟩
            · rw [settled_text, next, settleText_again kept]
              exact congrArg _ again
            · rw [← next] at other
              exact other (Option.map_eq_some_iff.mpr ⟨n, hn, both.2⟩)
      · rw [settled_cons_of_ne comments text, settled_cons_of_ne comments text]
        exact ⟨congrArg _ again, List.isChain_cons.mpr ⟨fun n _ both => text both.1, later⟩⟩

/-- Nothing is joined where no texts stand next to each other. -/
theorem settle_of_apart (comments : o.comments = true) (source : List Char) (preParent : Bool)
    (apart : Node.Apart nodes) : settle o source false preParent nodes = settled o none nodes := by
  have stays := (settled_settled comments apart none).2
  simp only [settle, Bool.false_and, Bool.false_eq_true, if_false]
  exact foldr_consJoining_of_apart stays

end Siblings

open Siblings in
/-- Settling loses nothing that shows, whatever the options and wherever white space is kept. All
    elements and interpolations and, where they are wanted, all comments are kept as they are and in
    their order, and nothing else is left but texts; and before, between and behind them the same
    characters show that are not blank, in the same order. -/
theorem settle_keeps_content (o : Options) (source : List Char) (inPre preParent : Bool)
    (nodes : List Node) :
    (settle o source inPre preParent nodes).filter (fun n => n.kind != .text) =
        nodes.filter (fun n => n.kind != .text && isWanted o n) ∧
      shown (fun _ => true) (settle o source inPre preParent nodes) = shown (isWanted o) nodes := by
  have same := shown_settle o source inPre preParent nodes
  refine ⟨?_, same⟩
  calc (settle o source inPre preParent nodes).filter (fun n => n.kind != .text)
      = (shown (fun _ => true) (settle o source inPre preParent nodes)).filterMap
          Sum.getRight? := by simp [filterMap_shown]
    _ = (shown (isWanted o) nodes).filterMap Sum.getRight? := by rw [same]
    _ = nodes.filter (fun n => n.kind != .text && isWanted o n) := filterMap_shown _ nodes

open Siblings in
/-- Settling a list a second time, with the same parent or with another one, changes nothing as long
    as no two texts stood next to each other and comments are kept, and no two texts stand next to
    each other then. -/
theorem settle_settle (o : Options) (comments : o.comments = true) (source : List Char)
    (preParent again : Bool) (nodes : List Node) (apart : Node.Apart nodes) :
    settle o source false again (settle o source false preParent nodes) =
        settle o source false preParent nodes ∧
      Node.Apart (settle o source false preParent nodes) := by
  obtain ⟨same, stays⟩ := settled_settled comments apart none
  rw [settle_of_apart comments source preParent apart]
  refine ⟨?_, stays⟩
  rw [settle_of_apart comments source again stays]
  exact same

open Siblings in
/-- Blank text at the start, between comments and next to an interpolation, and a text that is
    condensed. -/
theorem settle_settle_comments :
    let place := Location.point .start
    let comment := Node.comment ⟨"c".toList, place⟩
    let interpolation := Node.interpolation ⟨⟨"i".toList, false, place⟩, place⟩
    let nodes := [.text ⟨"\n".toList, place⟩, comment, .text ⟨" ".toList, place⟩, comment,
      .text ⟨"\t\n".toList, place⟩, interpolation, .text ⟨"a \n b".toList, place⟩]
    let settled := [comment, comment, .text ⟨" ".toList, place⟩, interpolation,
      .text ⟨"a b".toList, place⟩]
    Node.Apart nodes ∧ settle Options.base [] false false nodes = settled ∧
      settle Options.base [] false false settled = settled := by
  intro place comment interpolation nodes settled
  have apart : Node.Apart nodes := by
    unfold Node.Apart
    decide
  have once : settle Options.base [] false false nodes = settled := rfl
  refine ⟨apart, once, ?_⟩
  rw [← once]
  exact (settle_settle Options.base rfl [] false false nodes apart).1

end Stencil
