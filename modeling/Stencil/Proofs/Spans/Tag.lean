import Stencil.Proofs.DirectiveName
import Stencil.Proofs.Spans.Leaf

/-! # Spans of tags

The parts of an attribute lie inside the attribute, and the attributes of a tag follow one another
inside the tag.
-/

namespace Stencil

namespace AttributeValue

/-- A value lies between `a` and `b`, with and without its quotes. -/
def Spans (a b : Cursor) (v : AttributeValue) : Prop :=
  v.loc.Spans a b ∧ v.inner.Spans a b

theorem Spans.widen {a a' b b' : Cursor} {v : AttributeValue} (h : v.Spans a b)
    (left : a'.Reaches a) (right : b.Reaches b') : v.Spans a' b' :=
  ⟨h.1.widen left right, h.2.widen left right⟩

theorem readQuoted_sound (o : Options) (quote : Char) (c : Cursor) :
    (readQuoted o quote c).Sound (fun a b value => ∀ v ∈ value, v.Spans a b) c := by
  have inner := c.reaches_skip 1
  have close := (c.skip 1).reaches_skip ((c.skip 1).rest.takeWhile (· != quote)).length
  have after := Cursor.reaches_skip
    ((c.skip 1).skip ((c.skip 1).rest.takeWhile (· != quote)).length) 1
  refine ⟨(inner.trans close).trans after, ?_, .empty c⟩
  intro v hv
  cases hv
  exact ⟨.of_reaches (.refl _) ((inner.trans close).trans after) (.refl _),
    .of_reaches inner close after⟩

theorem readUnquoted_sound (o : Options) (c : Cursor) :
    (readUnquoted o c).Sound (fun a b value => ∀ v ∈ value, v.Spans a b) c := by
  unfold readUnquoted
  dsimp only
  split
  · exact ⟨.refl c, fun _ hv => (nomatch hv), .empty c⟩
  · have after := c.reaches_skip (c.rest.takeWhile isUnquoted).length
    refine ⟨after, ?_, .map_ahead _ c _⟩
    intro v hv
    cases hv
    exact ⟨.of_reaches (.refl _) after (.refl _), .of_reaches (.refl _) after (.refl _)⟩

theorem read_sound (o : Options) (c : Cursor) :
    (read o c).Sound (fun a b value => ∀ v ∈ value, v.Spans a b) c := by
  unfold read
  split
  · exact readQuoted_sound o _ c
  · exact readQuoted_sound o _ c
  · exact readUnquoted_sound o c

end AttributeValue

/-! ## Warnings -/

namespace Legacy

theorem loc_of_mem_warn {config : Option Config} {f : Feature} {loc : Location}
    {subject : Option (List Char)} {w : Warning} (h : w ∈ warn config f loc subject) :
    w.loc = some loc := by
  unfold warn at h
  split at h
  · cases h
  · cases List.mem_singleton.mp h
    rfl

theorem loc_of_mem_check {config : Option Config} {f : Feature} {loc : Location}
    {subject : Option (List Char)} {w : Warning} (h : w ∈ check config f loc subject) :
    w.loc = some loc := by
  unfold check at h
  split at h
  · exact loc_of_mem_warn h
  · cases h

end Legacy

/-- Warnings that are all about one location on the way. -/
theorem Log.From.ofWarnings_loc {a b : Cursor} {loc : Location} {ws : List Legacy.Warning}
    (h : loc.Spans a b) (about : ∀ w ∈ ws, w.loc = some loc) : (Log.ofWarnings ws).From a := by
  refine .ofWarnings fun w hw l hl => ⟨b, ?_⟩
  rw [about w hw] at hl
  cases hl
  exact h

/-! ## Directives -/

namespace Directive

variable {start : Cursor} {raw : List Char}

/-- The part of a name from character `i` to character `j` lies inside the name. -/
theorem spans_part {i j : Nat} (order : i ≤ j) (bound : j ≤ raw.length) :
    ((start.skip i).locationTo (start.skip j)).Spans start (start.skip raw.length) :=
  .of_reaches (start.reaches_skip i) (start.skip_reaches_skip order) (start.skip_reaches_skip bound)

theorem placeModifiers_spans {i : Nat} {pieces : List (List Char)}
    (bound : i + pieces.flatten.length + pieces.length ≤ raw.length + 1) :
    ∀ e ∈ placeModifiers start i pieces, e.loc.Spans start (start.skip raw.length) := by
  induction pieces generalizing i with
  | nil => intro e he; cases he
  | cons m ms ih =>
      intro e he
      simp only [List.flatten_cons, List.length_append, List.length_cons] at bound
      rw [placeModifiers, List.mem_cons] at he
      rcases he with rfl | he
      · exact spans_part (Nat.le_add_right _ _) (by omega)
      · exact ih (by omega) e he

theorem spelledModifiers_spans :
    ∀ e ∈ spelledModifiers start (DirectiveName.split raw),
      e.loc.Spans start (start.skip raw.length) := by
  intro e he
  unfold spelledModifiers at he
  split at he
  · cases he
  · next some =>
    refine placeModifiers_spans ?_ e he
    have whole := DirectiveName.length_split raw
    have pieces := Text.length_pieces (· == '.') ((DirectiveName.split raw).remainder.drop 1)
    have lead : 0 < (DirectiveName.split raw).remainder.length := by
      rw [List.length_pos_iff]
      simpa using some
    rw [List.length_drop] at pieces
    omega

theorem modifiersOf_spans :
    ∀ e ∈ modifiersOf start raw (DirectiveName.split raw),
      e.loc.Spans start (start.skip raw.length) := by
  intro e he
  rcases List.mem_append.mp he with he | he
  · exact spelledModifiers_spans e he
  · split at he
    · next dot =>
      cases List.mem_singleton.mp he
      cases raw with
      | nil => cases dot
      | cons c s => exact spans_part (i := 0) (Nat.zero_le 1) (by simp)
    · cases he

theorem argOf_spans :
    ∀ e ∈ argOf start raw (DirectiveName.split raw), e.loc.Spans start (start.skip raw.length) := by
  intro e he
  obtain ⟨arg, found, rfl⟩ := Option.map_eq_some_iff.mp he
  have whole := DirectiveName.length_split raw
  rw [found, Option.elim_some] at whole
  apply spans_part
  · split <;> omega
  · split <;> omega

/-- Legacy readings of a directive move nothing. -/
theorem modernize_parts {config : Option Legacy.Config} {d : Directive} {e : Expression}
    (h : e ∈ (modernize config d).1.arg.toList ++ (modernize config d).1.exp.toList ++
      (modernize config d).1.modifiers) : e ∈ d.arg.toList ++ d.exp.toList ++ d.modifiers := by
  unfold modernize at h
  split at h
  · split at h
    · dsimp only at h
      split at h
      · simp only [List.mem_append] at h ⊢
        exact h.imp_right List.mem_of_mem_eraseP
      · exact h
    · exact h
  · exact h

theorem modernize_loc (config : Option Legacy.Config) (d : Directive) :
    (modernize config d).1.loc = d.loc := by
  unfold modernize
  split
  · split
    · dsimp only
      split <;> rfl
    · rfl
  · rfl

theorem loc_of_mem_modernize {config : Option Legacy.Config} {d : Directive} {w : Legacy.Warning}
    (h : w ∈ (modernize config d).2) : w.loc = some d.loc := by
  unfold modernize at h
  split at h
  · split at h
    · rcases List.mem_append.mp h with h | h
      · exact Legacy.loc_of_mem_warn (List.mem_ite_nil_right.mp h).2
      · exact Legacy.loc_of_mem_check (List.mem_ite_nil_right.mp h).2
    · cases h
  · cases h

theorem build_sound (o : Options) (lo hi : Cursor) {after : Cursor} {value : Option AttributeValue}
    (name : (start.skip raw.length).Reaches after)
    (inside : ∀ v ∈ value, v.Spans (start.skip raw.length) after) :
    (Property.directive (build o start after raw value).1).Spans lo hi start after ∧
      (build o start after raw value).2.From start := by
  have before := start.reaches_skip raw.length
  have reached := before.trans name
  constructor
  · refine ⟨start, after, .refl _, reached, .refl _, modernize_loc _ _, ?_⟩
    intro e he
    have he := modernize_parts he
    rcases List.mem_append.mp he with he | he
    · rcases List.mem_append.mp he with he | he
      · exact (argOf_spans e (Option.mem_toList.mp he)).widen (.refl _) name
      · obtain ⟨v, hv, rfl⟩ := Option.map_eq_some_iff.mp (Option.mem_toList.mp he)
        exact (inside v hv).2.widen before (.refl _)
    · exact (modifiersOf_spans e he).widen (.refl _) name
  · have errors : (Log.ofErrors (build o start after raw value).2.errors).From start :=
      .ofErrors_ite reached
    have warnings : (Log.ofWarnings (build o start after raw value).2.warnings).From start :=
      .ofWarnings_loc (.of_reaches (.refl _) reached (.refl _)) fun _ => loc_of_mem_modernize
    exact ⟨errors.errors, warnings.warnings⟩

end Directive

/-! ## Attributes -/

namespace Property

theorem nameErrors_from (seen : List (List Char)) (name : List Char) (c : Cursor) :
    (Log.ofErrors (nameErrors seen name c)).From c :=
  .ofErrors_append (.ofErrors_append (.ofErrors_ite (.refl c)) (.ofErrors_ite (.refl c)))
    (.map_ahead _ c _)

theorem readValue_sound (o : Options) (c : Cursor) :
    (readValue o c).Sound (fun a b value => ∀ v ∈ value, v.Spans a b) c := by
  unfold readValue
  dsimp only
  split
  · have before := (c.reaches_skipBlanks.trans (Cursor.reaches_skip _ 1)).trans
      (Cursor.reaches_skipBlanks _)
    have read := AttributeValue.read_sound o (c.skipBlanks.skip 1).skipBlanks
    refine ⟨before.trans read.reaches, ?_, ?_⟩
    · exact fun v hv => (read.value v hv).widen before (.refl _)
    · exact (read.log.widen before).append (.ofErrors_ite (before.trans read.reaches))
  · exact ⟨.refl c, fun _ hv => (nomatch hv), .empty c⟩

theorem read_sound (o : Options) (vPre : Bool) (seen : List (List Char)) (lo hi c : Cursor) :
    (read o vPre seen c).Sound (fun a b p => p.Spans lo hi a b) c := by
  have value := readValue_sound o (c.skip (nameAt c.rest).length)
  have name := c.reaches_skip (nameAt c.rest).length
  have reached := name.trans value.reaches
  have before := (nameErrors_from seen (nameAt c.rest) c).append (value.log.widen name)
  unfold read
  dsimp only
  split
  · have built := Directive.build_sound o lo hi value.reaches value.value
    exact ⟨reached, built.1, before.append built.2⟩
  · refine ⟨reached, ?_, before.append (.ite (.error _ reached))⟩
    refine .of_reaches reached ⟨.of_reaches (.refl _) name value.reaches, ?_⟩
    intro v hv
    obtain ⟨w, hw, rfl⟩ := Option.map_eq_some_iff.mp hv
    exact .inl ((value.value w hw).1.widen name (.refl _))

theorem spacingErrors_from (c : Cursor) : (Log.ofErrors (spacingErrors c)).From c := by
  unfold spacingErrors
  split
  · exact .empty c
  · exact .error _ (.refl c)

/-- The attributes of a list follow one another. -/
theorem readAll_sound (o : Options) (kind : TagKind) (vPre : Bool) (seen : List (List Char))
    (lo hi c : Cursor) :
    (readAll o kind vPre seen c).Sound (Chain (Property.Spans lo hi)) c := by
  fun_induction readAll o kind vPre seen c with
  | case1 | case2 | case3 => exact ⟨.refl _, .refl _, .empty _⟩
  | case4 seen c _ _ _ r ih =>
      have step := (c.reaches_skip 1).trans (Cursor.reaches_skipBlanks _)
      refine ⟨step.trans ih.reaches, ?_, Log.From.append (.error _ (.refl c)) (ih.log.widen step)⟩
      exact ih.value.widen_left step fun left h => h.widen left (.refl _)
  | case5 seen c _ _ _ _ _ _ a r atEndTag ih =>
      have read := read_sound o vPre seen lo hi c
      have blanks := a.cursor.reaches_skipBlanks
      have step := read.reaches.trans blanks
      refine ⟨step.trans ih.reaches, ?_, ?_⟩
      · dsimp only
        split
        · exact ⟨_, read.value.widen (.refl _) blanks, ih.value⟩
        · exact ih.value.widen_left step fun left h => h.widen left (.refl _)
      · exact Log.From.append (.ofErrors_ite (.refl c)) (read.log.append
          (Log.From.append ((spacingErrors_from _).widen read.reaches) (ih.log.widen step)))

end Property

/-! ## Tags -/

namespace Tag

theorem readEnd_log (kind : TagKind) (c : Cursor) : (readEnd kind c).log.From c := by
  unfold readEnd
  split
  · exact .error _ (.refl c)
  · exact .ite (.error _ (.refl c))
  · exact .empty c

theorem read_sound (o : Options) (kind : TagKind) (vPre : Bool) (lo hi c : Cursor) :
    (read o kind vPre c).Sound (fun a b tag => Chain (Property.Spans lo hi) a b tag.props) c := by
  have start : c.Reaches (attributesAt kind c) :=
    (c.reaches_skip _).trans (Cursor.reaches_skipBlanks _)
  -- both passes over the attributes start at the same place, and only one of them counts
  have list : ∀ vPre, (Property.readAll o kind vPre [] (attributesAt kind c)).Sound
      (Chain (Property.Spans lo hi)) (attributesAt kind c) := fun vPre =>
    Property.readAll_sound o kind vPre [] lo hi _
  have close : ∀ d : Cursor, d.Reaches (readEnd kind d).cursor := reaches_readEnd kind
  unfold read
  dsimp only
  split
  · have pass := list true
    refine ⟨(start.trans pass.reaches).trans (close _), ?_, ?_⟩
    · exact ((pass.value.filter _ Property.Spans.reaches fun left h => h.widen left (.refl _)
        ).widen_left start fun left h => h.widen left (.refl _)).widen_right (close _)
    · exact (pass.log.widen start).append
        ((readEnd_log kind _).widen (start.trans pass.reaches))
  · have pass := list vPre
    refine ⟨(start.trans pass.reaches).trans (close _), ?_, ?_⟩
    · exact (pass.value.widen_left start fun left h => h.widen left (.refl _)).widen_right (close _)
    · exact (pass.log.widen start).append
        ((readEnd_log kind _).widen (start.trans pass.reaches))

end Tag

end Stencil
