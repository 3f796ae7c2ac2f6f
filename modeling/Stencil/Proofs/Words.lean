import Stencil.Proofs.AttributeList
import Stencil.Proofs.DirectiveName
import Stencil.Proofs.Origin

/-! # Words

The words of an element are the names in its start tag: its own, those of its attributes, and what
its directives make of theirs. The reader skips blanks before a name and ends a name at the next
one, so whatever a template holds, no word has a line break in it. Legacy readings change words only
for fixed ones.
-/

namespace Stencil

/-- The name of an attribute, or the parts of that of a directive. -/
def Property.words : Property → List (List Char)
  | .attribute a => [a.name]
  | .directive d => d.name :: (d.arg.toList ++ d.modifiers).map Expression.content

/-- The tag of an element and the words of its properties. -/
def Element.words (e : Element) : List (List Char) :=
  e.tag :: e.props.flatMap Property.words

/-- No word has a line break in it. -/
def Property.IsUnbroken (p : Property) : Prop :=
  ∀ w ∈ p.words, '\n' ∉ w

/-- No word has a line break in it. -/
def Element.IsUnbroken (e : Element) : Prop :=
  ∀ w ∈ e.words, '\n' ∉ w

/-- The pieces of a text hold nothing else. -/
theorem Text.mem_of_mem_pieces {p : Char → Bool} {s m : List Char} (h : m ∈ pieces p s) {c : Char}
    (member : c ∈ m) : c ∈ s := by
  induction s generalizing m with
  | nil => simp_all [pieces]
  | cons d s ih =>
      rw [pieces] at h
      split at h
      · rcases List.mem_cons.mp h with rfl | later
        · cases member
        · exact List.mem_cons_of_mem d (ih later member)
      · split at h
        · cases List.mem_singleton.mp h
          exact List.mem_singleton.mp member ▸ List.mem_cons_self
        · next w ws found =>
          rw [found] at ih
          rcases List.mem_cons.mp h with rfl | later
          · rcases List.mem_cons.mp member with rfl | member
            · exact List.mem_cons_self
            · exact List.mem_cons_of_mem d (ih List.mem_cons_self member)
          · exact List.mem_cons_of_mem d (ih (List.mem_cons_of_mem w later) member)

namespace Directive

/-- The name of a directive is part of what was written, or one that a shorthand stands for. -/
theorem lineBreak_not_mem_split_name {raw : List Char} (h : '\n' ∉ raw) :
    '\n' ∉ (DirectiveName.split raw).name := by
  have explicit : '\n' ∉ DirectiveName.explicit raw := by
    unfold DirectiveName.explicit
    split
    · exact fun member => h (by simp [(List.takeWhile_sublist _).subset member])
    · exact List.not_mem_nil
  have shorthand : '\n' ∉ DirectiveName.shorthand raw := by
    unfold DirectiveName.shorthand
    split <;> decide
  have name : '\n' ∉ (if (DirectiveName.explicit raw).isEmpty then DirectiveName.shorthand raw
      else DirectiveName.explicit raw) := by
    split
    · exact shorthand
    · exact explicit
  unfold DirectiveName.split
  dsimp only
  split
  · split
    · split <;> exact name
    · exact name
  · exact name

theorem lineBreak_not_mem_argOf {raw : List Char} (h : '\n' ∉ raw) (start : Cursor) :
    ∀ e ∈ argOf start raw (DirectiveName.split raw), '\n' ∉ e.content := by
  intro e member
  obtain ⟨arg, written, rfl⟩ := Option.map_eq_some_iff.mp member
  have part : '\n' ∉ arg := by
    intro member
    rw [← DirectiveName.split_append raw, written] at h
    exact h (by simp [member])
  have whole : '\n' ∉ raw.drop (DirectiveName.split raw).head.length :=
    fun member => h (List.mem_of_mem_drop member)
  dsimp only
  unfold argContent
  split
  · next inner _ =>
    split
    · exact fun member => part (List.mem_cons_of_mem _ (List.dropLast_subset _ member))
    · exact fun member => part (List.mem_cons_of_mem _ member)
  · split
    · exact whole
    · exact part

theorem exists_of_mem_placeModifiers {start : Cursor} {i : Nat} {pieces : List (List Char)}
    {e : Expression} (h : e ∈ placeModifiers start i pieces) : e.content ∈ pieces := by
  induction pieces generalizing i with
  | nil => cases h
  | cons m ms ih =>
      rcases List.mem_cons.mp h with rfl | later
      · exact List.mem_cons_self
      · exact List.mem_cons_of_mem m (ih later)

theorem lineBreak_not_mem_modifiersOf {raw : List Char} (h : '\n' ∉ raw) (start : Cursor) :
    ∀ e ∈ modifiersOf start raw (DirectiveName.split raw), '\n' ∉ e.content := by
  intro e member
  rcases List.mem_append.mp member with spelled | mark
  · unfold spelledModifiers at spelled
    split at spelled
    · cases spelled
    · intro member
      have inside := Text.mem_of_mem_pieces (exists_of_mem_placeModifiers spelled) member
      rw [← DirectiveName.split_append raw] at h
      exact h (by simp [List.mem_of_mem_drop inside])
  · cases List.mem_singleton.mp (List.mem_ite_nil_right.mp mark).2
    exact show '\n' ∉ "prop".toList by decide

/-- Legacy readings bring no other words into a directive than `model`. -/
theorem isUnbroken_modernize {d : Directive} (config : Option Legacy.Config)
    (h : (Property.directive d).IsUnbroken) :
    (Property.directive (modernize config d).1).IsUnbroken := by
  unfold modernize
  split
  · next arg given =>
    split
    · dsimp only
      split
      · simp only [Property.IsUnbroken, Property.words, List.forall_mem_cons, List.map_append,
          List.forall_mem_append] at h ⊢
        obtain ⟨_, argument, modifiers⟩ := h
        refine ⟨by decide, argument, fun w member => modifiers w ?_⟩
        exact ((List.eraseP_sublist).map _).subset member
      · exact h
    · exact h
  · exact h

theorem isUnbroken_build {raw : List Char} (h : '\n' ∉ raw) (o : Options)
    (start after : Cursor) (value : Option AttributeValue) :
    (Property.directive (build o start after raw value).1).IsUnbroken := by
  apply isUnbroken_modernize
  simp only [Property.IsUnbroken, Property.words, List.forall_mem_cons, List.forall_mem_map,
    List.forall_mem_append, Option.mem_toList]
  exact ⟨lineBreak_not_mem_split_name h, lineBreak_not_mem_argOf h start,
    lineBreak_not_mem_modifiersOf h start⟩

end Directive

theorem Property.isUnbroken_read (o : Options) (vPre : Bool) (seen : List (List Char))
    {c : Cursor} (h : '\n' ∉ nameAt c.rest) : (read o vPre seen c).value.IsUnbroken := by
  unfold read
  dsimp only
  split
  · exact Directive.isUnbroken_build h o _ _ _
  · exact List.forall_mem_singleton.mpr h

/-- The names of an attribute list stay on their lines: blanks before a name are skipped, and a name
    goes on up to the next one. -/
theorem Property.isUnbroken_readAll (o : Options) (kind : TagKind) (vPre : Bool)
    (seen : List (List Char)) (c : Cursor)
    (start : c.rest.head?.all (fun x => !Text.isBlank x) = true) :
    ∀ p ∈ (readAll o kind vPre seen c).value, p.IsUnbroken := by
  fun_induction readAll o kind vPre seen c with
  | case1 | case2 | case3 => exact List.forall_mem_nil _
  | case4 seen c _ _ _ r ih => exact ih (Cursor.head?_skipBlanks _)
  | case5 seen c x s _ _ _ text a r _ ih =>
      have solid : x ≠ '\n' := by
        rintro rfl
        rw [text] at start
        exact absurd start (show ¬(!Text.isBlank '\n') = true by decide)
      have name : '\n' ∉ nameAt c.rest := by
        rw [text, nameAt, List.mem_cons, not_or]
        refine ⟨solid.symm, fun member => ?_⟩
        exact absurd (List.all_eq_true.mp List.all_takeWhile '\n' member) (by decide)
      have first := isUnbroken_read o vPre seen name
      have rest := ih (Cursor.head?_skipBlanks _)
      dsimp only
      split
      · exact List.forall_mem_cons.mpr ⟨first, rest⟩
      · exact rest

/-- So also where the tag switches directives off and is read a second time. -/
theorem Tag.isUnbroken_read (o : Options) (vPre : Bool) (c : Cursor) :
    ∀ p ∈ (read o .opening vPre c).value.props, p.IsUnbroken := by
  have pass : ∀ vPre, ∀ p ∈ (Property.readAll o .opening vPre [] (attributesAt .opening c)).value,
      p.IsUnbroken := fun vPre =>
    Property.isUnbroken_readAll o .opening vPre [] _ (Cursor.head?_skipBlanks _)
  intro p member
  unfold read at member
  dsimp only at member
  split at member
  · exact pass true p (List.mem_filter.mp member).1
  · exact pass vPre p member

namespace State

variable {o : Options} {source : List Char} {s : State}

theorem isUnbroken_started (o : Options) (s : State) : (s.started o).1.IsUnbroken := by
  refine List.forall_mem_cons.mpr ⟨fun member => ?_, ?_⟩
  · exact absurd (List.all_eq_true.mp List.all_takeWhile '\n' member) (by decide)
  · simp only [List.mem_flatMap, forall_exists_index, and_imp]
    exact fun w p member => Tag.isUnbroken_read o s.flags.vPre s.cursor p member w

theorem words_fillInlineTemplate (value : TextNode) (props : List Property) :
    (fillInlineTemplate value props).map Property.words = props.map Property.words := by
  induction props with
  | nil => rfl
  | cons p props ih =>
      rcases p with a | d
      · rw [fillInlineTemplate]
        split
        · rfl
        · rw [List.map_cons, ih, List.map_cons]
      · rw [fillInlineTemplate, List.map_cons, ih, List.map_cons]
        intro a same
        cases same

theorem words_withInlineTemplate (o : Options) (e : Element) (content : Location) :
    (withInlineTemplate o e content).1.words = e.words := by
  unfold withInlineTemplate
  split
  · split
    · simp only [Element.words, List.flatMap_def, words_fillInlineTemplate]
    · rfl
  · rfl

/-- An element keeps the words of its start tag. -/
theorem Finished.words {e : Element} {children : List Node} (h : s.Finished o source e children) :
    e.words = (s.started o).1.words := by
  cases h with
  | empty => rfl
  | tooDeep => rfl
  | @closed t entry _ _ _ _ same =>
      have started : entry.element = (s.started o).1 := congrArg OpenElement.element same
      rw [← started]
      exact words_withInlineTemplate o entry.element _

end State

theorem Node.Derived.isUnbroken {o : Options} {source : List Char} {flags : Flags} {e : Element}
    {children : List Node} (h : (Node.element e children).Derived o source flags) :
    e.IsUnbroken := by
  obtain ⟨s, _, _, finished, _⟩ := h.exists_opens
  rw [Element.IsUnbroken, finished.words]
  exact State.isUnbroken_started o s

end Stencil
