import Stencil.Read.State

/-! # Progress of reading

Every step from a state that is not done makes the state smaller. So reading ends, whatever the
template and the options are.
-/

namespace Stencil

namespace Cursor

/-- Whoever moves over at least one character has less to read. -/
theorem length_lt_of_skip_reaches {c d : Cursor} {n : Nat} (hc : c.rest ≠ []) (hn : 0 < n)
    (h : (c.skip n).Reaches d) : d.rest.length < c.rest.length := by
  have hle := h.length_le
  rw [length_skip] at hle
  have : 0 < c.rest.length := List.length_pos_iff.2 hc
  omega

end Cursor

namespace TextNode

theorem lengthAt_pos (o : Options) (mode : TextMode) {s : List Char} (h : s ≠ []) :
    0 < lengthAt o mode s := by
  cases s with
  | nil => exact absurd rfl h
  | cons c s =>
    rw [lengthAt]
    omega

theorem length_read_lt (o : Options) (mode : TextMode) {c : Cursor} (h : c.rest ≠ []) :
    (read o mode c).cursor.rest.length < c.rest.length :=
  Cursor.length_lt_of_skip_reaches h (lengthAt_pos o mode h) (.refl _)

theorem length_readSection_lt {c : Cursor} (h : c.rest ≠ []) :
    (readSection c).cursor.rest.length < c.rest.length :=
  Cursor.length_lt_of_skip_reaches h (by decide)
    ((Cursor.reaches_skip _ _).trans (Cursor.reaches_skip _ _))

end TextNode

namespace Interpolation

theorem length_read?_lt {o : Options} {mode : TextMode} {c : Cursor} {r : Reading Interpolation}
    (hc : c.rest ≠ []) (ho : o.openDelimiter ≠ []) (h : read? o mode c = some r) :
    r.cursor.rest.length < c.rest.length := by
  unfold read? at h
  dsimp only at h
  split at h
  · exact absurd h (by simp)
  · cases h
    exact Cursor.length_lt_of_skip_reaches hc (List.length_pos_iff.2 ho)
      (Cursor.reaches_skip _ _)

end Interpolation

namespace Comment

theorem length_read_lt {c : Cursor} (h : c.rest ≠ []) :
    (read c).cursor.rest.length < c.rest.length := by
  unfold read
  dsimp only
  split
  · exact Cursor.length_lt_of_skip_reaches h (List.length_pos_iff.2 h) (.refl _)
  · next i hi =>
    refine Cursor.length_lt_of_skip_reaches h ?_ (.refl _)
    have hsome := Text.seek_holds hi
    obtain ⟨mark, hmark⟩ := Option.isSome_iff_exists.1 hsome
    have hmem := List.mem_of_find?_eq_some hmark
    have hlen : 0 < mark.length := by
      simp only [closers, List.mem_cons, List.not_mem_nil, or_false] at hmem
      rcases hmem with rfl | rfl <;> decide
    rw [hmark, Option.getD_some]
    omega

theorem length_readBogus_lt {c : Cursor} (h : c.rest ≠ []) :
    (readBogus c).cursor.rest.length < c.rest.length :=
  Cursor.length_lt_of_skip_reaches h (Nat.succ_pos _) (.refl _)

end Comment

namespace Tag

theorem not_isBreak_of_isNameStart {c : Char} (h : isNameStart c = true) : isBreak c = false := by
  rw [Bool.eq_false_iff]
  intro hb
  simp only [isBreak, Text.isBlank, Bool.or_eq_true, beq_iff_eq] at hb
  rcases hb with (rfl | rfl) | (((rfl | rfl) | rfl) | rfl) | rfl <;> exact absurd h (by decide)

theorem length_read_lt (o : Options) (kind : TagKind) (vPre : Bool) {c : Cursor}
    (h : c.rest ≠ []) : (read o kind vPre c).cursor.rest.length < c.rest.length :=
  Cursor.length_lt_of_skip_reaches h (by cases kind <;> simp only [markLength] <;> omega)
    (reaches_read o kind vPre c)

/-- A start tag has at least two characters. -/
theorem length_read_opening_lt (o : Options) (vPre : Bool) {c : Cursor} {d e : Char}
    {s : List Char} (h : c.rest = d :: e :: s) (he : isNameStart e = true) :
    (read o .opening vPre c).cursor.rest.length + 1 < c.rest.length := by
  have hle := (reaches_read o .opening vPre c).length_le
  have hname : 0 < (nameAt .opening c.rest).length := by
    simp [nameAt, markLength, h, not_isBreak_of_isNameStart he]
  rw [Cursor.length_skip] at hle
  have hlen : c.rest.length = s.length + 2 := by simp [h]
  simp only [markLength] at hle
  omega

end Tag

namespace State

@[simp]
theorem cursor_report (s : State) (log : Log) : (s.report log).cursor = s.cursor := rfl

@[simp]
theorem stack_report (s : State) (log : Log) : (s.report log).stack = s.stack := rfl

@[simp]
theorem cursor_reportAt (s : State) (code : ErrorCode) (p : Position) :
    (s.reportAt code p).cursor = s.cursor := rfl

@[simp]
theorem stack_reportAt (s : State) (code : ErrorCode) (p : Position) :
    (s.reportAt code p).stack = s.stack := rfl

@[simp]
theorem cursor_after {α : Type} (s : State) (r : Reading α) : (s.after r).cursor = r.cursor := rfl

@[simp]
theorem stack_after {α : Type} (s : State) (r : Reading α) : (s.after r).stack = s.stack := rfl

@[simp]
theorem cursor_add (s : State) (node : Node) : (s.add node).cursor = s.cursor := by
  unfold add
  split <;> rfl

@[simp]
theorem length_stack_add (s : State) (node : Node) :
    (s.add node).stack.length = s.stack.length := by
  unfold add
  split <;> simp_all

@[simp]
theorem cursor_addAll (s : State) (nodes : List Node) : (s.addAll nodes).cursor = s.cursor := by
  induction nodes generalizing s with
  | nil => rfl
  | cons node nodes ih =>
    rw [addAll, List.foldl_cons, ← addAll, ih, cursor_add]

@[simp]
theorem length_stack_addAll (s : State) (nodes : List Node) :
    (s.addAll nodes).stack.length = s.stack.length := by
  induction nodes generalizing s with
  | nil => rfl
  | cons node nodes ih =>
    rw [addAll, List.foldl_cons, ← addAll, ih, length_stack_add]

@[simp]
theorem cursor_addElement (o : Options) (s : State) (e : Element) (children : List Node) :
    (s.addElement o e children).cursor = s.cursor := by
  unfold addElement
  split <;> simp

@[simp]
theorem length_stack_addElement (o : Options) (s : State) (e : Element) (children : List Node) :
    (s.addElement o e children).stack.length = s.stack.length := by
  unfold addElement
  split <;> simp

theorem size_readText_lt (o : Options) {s : State} (h : s.cursor.rest ≠ []) :
    (s.readText o).size < s.size := by
  have := TextNode.length_read_lt o s.mode h
  simp only [size, readText, cursor_add, cursor_after, length_stack_add, stack_after]
  omega

theorem size_addComment_lt {s : State} {r : Reading Comment}
    (h : r.cursor.rest.length < s.cursor.rest.length) : (s.addComment r).size < s.size := by
  simp only [size, addComment, cursor_add, cursor_after, length_stack_add, stack_after]
  omega

theorem size_readSection_lt (o : Options) (source : List Char) {s : State}
    (h : s.cursor.rest ≠ []) : (s.readSection o source).size < s.size := by
  have := TextNode.length_readSection_lt h
  simp only [size, readSection, cursor_addAll, cursor_after, length_stack_addAll, stack_after]
  omega

theorem size_openElement_lt (o : Options) {s : State} {d e : Char} {rest : List Char}
    (h : s.cursor.rest = d :: e :: rest) (he : Tag.isNameStart e = true) :
    (s.openElement o).size < s.size := by
  have := Tag.length_read_opening_lt o s.flags.vPre h he
  unfold openElement
  dsimp only
  split
  · simp only [size, cursor_addElement, cursor_report, cursor_after, length_stack_addElement,
      stack_report, stack_after]
    omega
  · split
    · simp only [size, cursor_addElement, cursor_reportAt, cursor_report, cursor_after,
        length_stack_addElement, stack_reportAt, stack_report, stack_after]
      omega
    · simp only [size, cursor_report, cursor_after, List.length_cons]
      omega

theorem size_readInterpolation_lt {o : Options} {s : State} (h : s.cursor.rest ≠ [])
    (ho : o.openDelimiter ≠ []) : (s.readInterpolation o).size < s.size := by
  unfold readInterpolation
  split
  · next r hr =>
    have := Interpolation.length_read?_lt h ho hr
    simp only [size, cursor_add, cursor_after, length_stack_add, stack_after]
    omega
  · exact size_readText_lt o (s := s.reportAt _ _) h

/-- Text that classifies as a start tag has a letter after its first character. -/
theorem exists_of_classify_startTag {s : List Char}
    (h : Markup.classify s = .startTag) : ∃ e t, s = e :: t ∧ Tag.isNameStart e = true := by
  unfold Markup.classify at h
  split at h
  · simp at h
  · split at h
    · simp at h
    · split at h
      · simp at h
      · split at h <;> simp at h
  · simp at h
  · split at h
    · simp at h
    · split at h <;> simp at h
  · next c t _ _ _ =>
    split at h
    · next hc => exact ⟨c, t, rfl, hc⟩
    · split at h <;> simp at h

theorem size_readMarkup_lt (o : Options) (source : List Char) {s : State}
    (h : s.cursor.rest ≠ []) : (s.readMarkup o source).size < s.size := by
  unfold readMarkup
  dsimp only
  split
  · exact size_readText_lt o (s := s.reportAt _ _) h
  · exact size_addComment_lt (Comment.length_read_lt h)
  · exact size_addComment_lt (Comment.length_readBogus_lt h)
  · split
    · exact size_readSection_lt o source h
    · exact size_addComment_lt (s := s.reportAt _ _) (Comment.length_readBogus_lt h)
  · exact size_addComment_lt (s := s.reportAt _ _) (Comment.length_readBogus_lt h)
  · exact size_readText_lt o (s := s.reportAt _ _) h
  · have := Cursor.length_lt_of_skip_reaches (n := 3) h (by decide) (.refl _)
    simp only [size, stack_reportAt]
    omega
  · have := Tag.length_read_lt o .closing s.flags.vPre h
    simp only [size, cursor_after, stack_after, stack_reportAt]
    omega
  · exact size_addComment_lt (s := s.reportAt _ _) (Comment.length_readBogus_lt h)
  · next hclass =>
    obtain ⟨e, t, ht, he⟩ := exists_of_classify_startTag hclass
    obtain ⟨d, u, hu⟩ := List.exists_cons_of_ne_nil h
    rw [hu, List.drop_one, List.tail_cons] at ht
    subst ht
    exact size_openElement_lt o hu he
  · exact size_addComment_lt (s := s.reportAt _ _) (Comment.length_readBogus_lt h)
  · exact size_readText_lt o (s := s.reportAt _ _) h

theorem openDelimiter_ne_nil {o : Options} {s : State} (h : s.startsInterpolation o = true) :
    o.openDelimiter ≠ [] := by
  simp only [startsInterpolation, Bool.and_eq_true, Bool.not_eq_true', List.isEmpty_eq_false_iff]
    at h
  exact h.1.2

theorem size_readNode_lt (o : Options) (source : List Char) {s : State}
    (h : s.cursor.rest ≠ []) : (s.readNode o source).size < s.size := by
  unfold readNode
  split
  · split
    · next hi => exact size_readInterpolation_lt h (openDelimiter_ne_nil hi)
    · split
      · exact size_readMarkup_lt o source h
      · exact size_readText_lt o h
  · split
    · next hi => exact size_readInterpolation_lt h (openDelimiter_ne_nil hi)
    · exact size_readText_lt o h
  all_goals exact size_readText_lt o h

theorem reaches_readEndTag (o : Options) (s : State) (e : Element) (children : List Node) :
    s.cursor.Reaches (s.readEndTag o e children).cursor := by
  unfold readEndTag
  split
  · exact (s.cursor.reaches_skip _).trans (Tag.reaches_read _ _ _ _)
  · dsimp only
    split <;> exact .refl _

@[simp]
theorem stack_readEndTag (o : Options) (s : State) (e : Element) (children : List Node) :
    (s.readEndTag o e children).stack = s.stack := by
  unfold readEndTag
  split
  · rfl
  · dsimp only
    split <;> rfl

theorem size_closeElement_le (o : Options) (source : List Char) (s : State) (e : OpenElement)
    (stack : List OpenElement) :
    (s.closeElement o source e stack).size ≤ s.cursor.rest.length + stack.length := by
  unfold closeElement
  dsimp only
  simp only [size, cursor_addElement, length_stack_addElement, stack_readEndTag, stack_report]
  exact Nat.add_le_add_right (reaches_readEndTag o _ _ _).length_le _

/-- Every step of a reading that is not done makes the state smaller. -/
theorem size_step_lt (o : Options) (source : List Char) {s : State} (h : s.isDone = false) :
    (s.step o source).size < s.size := by
  unfold step
  split
  · next hend =>
    cases hs : s.stack with
    | nil => simp [isDone, hs, hend] at h
    | cons e stack =>
      have := size_closeElement_le o source s e stack
      simp only [size, hs, List.length_cons] at this ⊢
      omega
  · next hend =>
    refine size_readNode_lt o source ?_
    intro hnil
    simp [atEnd, Cursor.atEnd, hnil] at hend

end State

end Stencil
