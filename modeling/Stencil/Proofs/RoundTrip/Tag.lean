import Stencil.Proofs.RoundTrip.Readers

/-! # Reading back tags

The start tag of a draft is read with its attributes in their order, and its end tag without a word.
-/

namespace Stencil

namespace Draft

theorem ne_of_isLower {c d : Char} (h : c.isLower = true) (other : d.isLower = false) : c ≠ d := by
  rintro rfl
  rw [h] at other
  cases other

theorem isNameStart_of_isLower {c : Char} (h : c.isLower = true) : Tag.isNameStart c = true := by
  change (c.isUpper || c.isLower) = true
  rw [h, Bool.or_true]

theorem not_isBreak_of_isLower {c : Char} (h : c.isLower = true) : Tag.isBreak c = false :=
  Tag.not_isBreak_of_isNameStart (isNameStart_of_isLower h)

theorem exists_of_isName {s : List Char} (h : isName s = true) :
    ∃ c t, s = c :: t ∧ ∀ d ∈ c :: t, d.isLower = true := by
  cases s with
  | nil => cases h
  | cons c t => exact ⟨c, t, rfl, by simpa [isName] using h⟩

theorem isPlainAttribute_iff {a : List Char × List Char} : isPlainAttribute a = true ↔
    isName a.1 = true ∧ a.1 ≠ "class".toList ∧ '\x22' ∉ a.2 ∧ '&' ∉ a.2 := by
  have values : (∀ c ∈ a.2, ¬c = '\x22' ∧ ¬c = '&') ↔ '\x22' ∉ a.2 ∧ '&' ∉ a.2 := by
    constructor
    · exact fun h => ⟨fun member => (h _ member).1 rfl, fun member => (h _ member).2 rfl⟩
    · rintro ⟨quote, reference⟩ c member
      exact ⟨fun same => quote (same ▸ member), fun same => reference (same ▸ member)⟩
  simp only [isPlainAttribute, Bool.and_eq_true, bne_iff_ne, List.all_eq_true, Bool.not_eq_true',
    Bool.or_eq_false_iff, beq_eq_false_iff_ne, ne_eq, values, and_assoc]

end Draft

namespace Cursor

theorem skip_zero (c : Cursor) : c.skip 0 = c := rfl

theorem skipBlanks_of_head {c : Cursor} (h : c.rest.head?.all (fun d => !Text.isBlank d) = true) :
    c.skipBlanks = c := by
  have none : c.rest.takeWhile Text.isBlank = [] :=
    Text.takeWhile_append (s := []) (fun _ hd => nomatch hd) h
  rw [skipBlanks, none]
  rfl

end Cursor

/-! ## Attributes -/

namespace AttributeValue

theorem read_plain (o : Options) {v tail : List Char} {c : Cursor}
    (text : c.rest = '\x22' :: (v ++ '\x22' :: tail)) (quote : '\x22' ∉ v)
    (reference : '&' ∉ v) :
    ∃ w, (read o c).value = some w ∧ w.content = v ∧ (read o c).cursor.rest = tail ∧
      (read o c).log = .empty := by
  have raw : (c.skip 1).rest.takeWhile (· != '\x22') = v := by
    rw [Cursor.rest_skip, text]
    refine Text.takeWhile_append (fun d member => ?_) rfl
    exact bne_iff_ne.mpr fun same => quote (same ▸ member)
  have quoted : read o c = readQuoted o '\x22' c := by
    unfold read
    split
    · rfl
    · next other =>
      rw [text] at other
      cases other
    · next none _ => exact absurd text (none _)
  rw [quoted, readQuoted]
  dsimp only
  rw [raw]
  refine ⟨_, rfl, ?_, ?_, rfl⟩
  · exact Options.decode_of_not_mem o .attributeValue reference
  · simp [text]

end AttributeValue

namespace Property

theorem readValue_plain (o : Options) {v tail : List Char} {c : Cursor}
    (text : c.rest = '=' :: '\x22' :: (v ++ '\x22' :: tail)) (quote : '\x22' ∉ v)
    (reference : '&' ∉ v) :
    ∃ w, (readValue o c).value = some w ∧ w.content = v ∧ (readValue o c).cursor.rest = tail ∧
      (readValue o c).log = .empty := by
  have mark : c.skipBlanks = c := Cursor.skipBlanks_of_head (by rw [text]; rfl)
  have behind : (c.skip 1).rest = '\x22' :: (v ++ '\x22' :: tail) := by
    rw [Cursor.rest_skip, text]
    rfl
  have value : (c.skip 1).skipBlanks = c.skip 1 :=
    Cursor.skipBlanks_of_head (by rw [behind]; rfl)
  obtain ⟨w, read, content, rest, log⟩ := AttributeValue.read_plain o behind quote reference
  have equals : c.rest.head? = some '=' := by
    rw [text]
    rfl
  unfold readValue
  dsimp only
  rw [mark, value, if_pos (beq_iff_eq.mpr equals)]
  dsimp only
  rw [read, log]
  exact ⟨w, rfl, content, rest, rfl⟩

theorem indexes_eq_nil {p : Char → Bool} {s : List Char} (h : ∀ c ∈ s, p c = false) :
    Text.indexes p s = [] := by
  have none : ∀ i, Text.indexesFrom i p s = [] := by
    induction s with
    | nil => exact fun _ => rfl
    | cons c s ih =>
        intro i
        rw [Text.indexesFrom, h c List.mem_cons_self, if_neg Bool.false_ne_true]
        exact ih (fun d member => h d (List.mem_cons_of_mem c member)) (i + 1)
  exact none 0

theorem nameAt_plain {name tail : List Char} (h : Draft.isName name = true) :
    nameAt (name ++ '=' :: tail) = name := by
  obtain ⟨c, t, rfl, lower⟩ := Draft.exists_of_isName h
  rw [List.cons_append, nameAt]
  congr 1
  refine Text.takeWhile_append (fun d member => ?_) rfl
  have lower := lower d (List.mem_cons_of_mem c member)
  simp [Draft.not_isBreak_of_isLower lower, Draft.ne_of_isLower lower (d := '=') rfl]

theorem nameErrors_plain {seen : List (List Char)} {name : List Char} (c : Cursor)
    (h : Draft.isName name = true) (fresh : name ∉ seen) : nameErrors seen name c = [] := by
  obtain ⟨d, t, rfl, lower⟩ := Draft.exists_of_isName h
  have expected : ∀ e ∈ d :: t, isUnexpected e = false := by
    intro e member
    have lower := lower e member
    simp [isUnexpected, Draft.ne_of_isLower lower (d := '\x22') rfl,
      Draft.ne_of_isLower lower (d := '\x27') rfl, Draft.ne_of_isLower lower (d := '<') rfl]
  have first := Draft.ne_of_isLower (lower d List.mem_cons_self) (d := '=') rfl
  simp [nameErrors, fresh, first, indexes_eq_nil expected]

/-- A name of letters is that of a plain attribute. -/
theorem not_isDirectiveName_plain {name : List Char} (h : Draft.isName name = true) :
    DirectiveName.isDirectiveName name = false ∧ ['v', '-'].isPrefixOf name = false := by
  obtain ⟨c, t, rfl, lower⟩ := Draft.exists_of_isName h
  have first := lower c List.mem_cons_self
  have marks : (c == ':' || c == '.' || c == '@' || c == '#') = false := by
    simp [Draft.ne_of_isLower first (d := ':') rfl, Draft.ne_of_isLower first (d := '.') rfl,
      Draft.ne_of_isLower first (d := '@') rfl, Draft.ne_of_isLower first (d := '#') rfl]
  have hyphen : ∀ d u, t = d :: u → d ≠ '-' := fun d u split =>
    Draft.ne_of_isLower (lower d (by simp [split])) rfl
  constructor
  · unfold DirectiveName.isDirectiveName
    split
    · next same => exact absurd rfl (hyphen _ _ (List.cons.inj same).2)
    · next same =>
      cases same
      exact marks
    · rfl
  · cases t with
    | nil => simp [List.isPrefixOf]
    | cons d u => simp [List.isPrefixOf, Ne.symm (hyphen d u rfl)]

/-- An attribute is read back with its name and its value. -/
theorem read_plain (o : Options) {a : List Char × List Char} {tail : List Char}
    {seen : List (List Char)} {c : Cursor}
    (text : c.rest = a.1 ++ '=' :: '\x22' :: (a.2 ++ '\x22' :: tail))
    (plain : Draft.isPlainAttribute a = true) (fresh : a.1 ∉ seen) :
    (read o false seen c).cursor.rest = tail ∧ (read o false seen c).log = .empty ∧
      (read o false seen c).value.draft? = some a ∧
      (read o false seen c).value.rawName = a.1 := by
  obtain ⟨named, other, quote, reference⟩ := Draft.isPlainAttribute_iff.mp plain
  have name : nameAt c.rest = a.1 := by
    rw [text]
    exact nameAt_plain named
  have behind : (c.skip a.1.length).rest = '=' :: '\x22' :: (a.2 ++ '\x22' :: tail) := by
    rw [Cursor.rest_skip, text, List.drop_left]
  obtain ⟨w, value, content, rest, log⟩ := readValue_plain o behind quote reference
  obtain ⟨directive, nameless⟩ := not_isDirectiveName_plain named
  have errors := nameErrors_plain c named fresh
  rw [read, name]
  dsimp only
  rw [directive, nameless, errors, log, value]
  refine ⟨rest, rfl, ?_, rfl⟩
  have kept : (a.1 == "class".toList) = false := beq_eq_false_iff_ne.mpr other
  simp only [Property.plain, Option.map_some, kept, Bool.false_eq_true, if_false, content]
  rfl

/-- Where the text starts with neither of the marks that end a tag, an attribute is read. -/
theorem readAll_of_name (o : Options) (kind : TagKind) (vPre : Bool) (seen : List (List Char))
    {c : Cursor} {d : Char} {s : List Char} (text : c.rest = d :: s) (bracket : d ≠ '>')
    (solidus : d ≠ '/') :
    let a := read o vPre seen c
    let r := readAll o kind vPre (a.value.rawName :: seen) a.cursor.skipBlanks
    readAll o kind vPre seen c =
      { value := if kind = .opening then a.value :: r.value else r.value
        cursor := r.cursor
        log := Log.ofErrors (if kind = .closing then [.at .endTagWithAttributes c.position] else [])
          ++ (a.log ++ (.ofErrors (spacingErrors a.cursor) ++ r.log)) } := by
  intro a r
  rw [readAll]
  split
  · next none =>
    rw [text] at none
    cases none
  · next ends =>
    rw [text] at ends
    cases ends
    exact absurd rfl bracket
  · next ends =>
    rw [text] at ends
    cases ends
    exact absurd rfl solidus
  · next ends =>
    rw [text] at ends
    cases ends
    exact absurd rfl solidus
  · rfl

theorem readAll_of_end (o : Options) (kind : TagKind) (vPre : Bool) (seen : List (List Char))
    {c : Cursor} {s : List Char} (text : c.rest = '>' :: s) :
    readAll o kind vPre seen c = ⟨[], c, .empty⟩ := by
  rw [readAll]
  split
  · rfl
  · rfl
  · rfl
  · next ends =>
    rw [text] at ends
    cases ends
  · next bracket _ _ ends =>
    rw [text] at ends
    exact absurd (List.cons.inj ends).1.symm bracket

/-- The attributes of a tag are read back in their order. -/
theorem readAll_plain (o : Options) {attributes : List (List Char × List Char)} {tail : List Char}
    {seen : List (List Char)} {c : Cursor}
    (text : c.rest = attributes.flatMap Draft.printAttribute ++ '>' :: tail)
    (plain : ∀ a ∈ attributes, Draft.isPlainAttribute a = true)
    (distinct : (attributes.map Prod.fst).Nodup) (fresh : ∀ a ∈ attributes, a.1 ∉ seen) :
    (readAll o .opening false seen c.skipBlanks).cursor.rest = '>' :: tail ∧
      (readAll o .opening false seen c.skipBlanks).log = .empty ∧
      (readAll o .opening false seen c.skipBlanks).value.mapM draft? = some attributes := by
  induction attributes generalizing seen c with
  | nil =>
      rw [Cursor.skipBlanks_of_head (by rw [text]; rfl), readAll_of_end o _ _ _ text]
      exact ⟨text, rfl, rfl⟩
  | cons a attributes ih =>
      obtain ⟨first, others⟩ := List.forall_mem_cons.mp plain
      obtain ⟨new, news⟩ := List.forall_mem_cons.mp fresh
      obtain ⟨unlike, distinct⟩ := List.nodup_cons.mp distinct
      obtain ⟨d, name, split, lower⟩ := Draft.exists_of_isName (Draft.isPlainAttribute_iff.mp first).1
      have lower := lower d List.mem_cons_self
      have here : (c.skip 1).rest = a.1 ++ '=' :: '\x22' :: (a.2 ++ '\x22' ::
          (attributes.flatMap Draft.printAttribute ++ '>' :: tail)) := by
        rw [Cursor.rest_skip, text]
        simp [Draft.printAttribute]
      have letter : (c.skip 1).rest = d :: (name ++ '=' :: '\x22' :: (a.2 ++ '\x22' ::
          (attributes.flatMap Draft.printAttribute ++ '>' :: tail))) := by
        rw [here, split, List.cons_append]
      have space : c.skipBlanks = c.skip 1 := by
        have blank : c.rest = [' '] ++ (c.skip 1).rest := by
          rw [Cursor.rest_skip, text]
          rfl
        have run : c.rest.takeWhile Text.isBlank = [' '] := by
          rw [blank]
          refine Text.takeWhile_append (by simp [Text.isBlank]) ?_
          have ink := Draft.not_isBreak_of_isLower lower
          rw [Tag.isBreak, Bool.or_eq_false_iff] at ink
          simp only [letter, List.head?_cons, Option.all_some, ink.2, Bool.not_false]
        rw [Cursor.skipBlanks, run]
        rfl
      obtain ⟨rest, log, value, raw⟩ := read_plain o here first new
      have still : ∀ b ∈ attributes, b.1 ∉ a.1 :: seen := by
        intro b member
        rw [List.mem_cons, not_or]
        refine ⟨fun same => unlike ?_, news b member⟩
        exact same ▸ List.mem_map_of_mem member
      obtain ⟨rest', log', value'⟩ := ih rest others distinct still
      have quiet : spacingErrors (read o false seen (c.skip 1)).cursor = [] := by
        unfold spacingErrors
        rw [rest]
        cases attributes <;> rfl
      rw [space, readAll_of_name o _ _ _ letter (Draft.ne_of_isLower lower rfl)
        (Draft.ne_of_isLower lower rfl), raw, quiet, log]
      refine ⟨rest', ?_, ?_⟩
      · dsimp only
        rw [log']
        rfl
      · dsimp only
        rw [if_pos rfl, List.mapM_cons, value, value']
        rfl

/-- Where every property has a draft, there is no directive. -/
theorem any_isDirective_of_draft {props : List Property}
    {attributes : List (List Char × List Char)} (h : props.mapM draft? = some attributes)
    (name : List Char) : props.any (·.isDirective name) = false := by
  induction props generalizing attributes with
  | nil => rfl
  | cons p props ih =>
      rw [List.mapM_cons] at h
      obtain ⟨a, first, rest⟩ := Option.bind_eq_some_iff.mp h
      obtain ⟨others, rest, _⟩ := Option.bind_eq_some_iff.mp rest
      have plain : p.isDirective name = false := by
        match p, first with
        | .attribute _, _ => rfl
      rw [List.any_cons, plain, ih rest]
      rfl

end Property

/-! ## Tags -/

namespace Tag

theorem takeWhile_name {name tail : List Char} (h : Draft.isName name = true)
    (stop : tail.head?.all isBreak = true) :
    (name ++ tail).takeWhile (fun c => !isBreak c) = name := by
  obtain ⟨c, t, rfl, lower⟩ := Draft.exists_of_isName h
  refine Text.takeWhile_append (fun d member => ?_) (by simpa using stop)
  rw [Draft.not_isBreak_of_isLower (lower d member)]
  rfl

theorem readEnd_plain (kind : TagKind) {c : Cursor} {tail : List Char} (text : c.rest = '>' :: tail) :
    readEnd kind c = ⟨false, c.skip 1, .empty⟩ := by
  unfold readEnd
  split
  · next none =>
    rw [text] at none
    cases none
  · next solidus =>
    rw [text] at solidus
    cases solidus
  · rfl

/-- The start tag of a draft is read back with its name and its attributes. -/
theorem read_opening_plain (o : Options) {tag tail : List Char}
    {attributes : List (List Char × List Char)} {c : Cursor}
    (text : c.rest = '<' :: (tag ++ (attributes.flatMap Draft.printAttribute ++ '>' :: tail)))
    (named : Draft.isName tag = true) (plain : ∀ a ∈ attributes, Draft.isPlainAttribute a = true)
    (distinct : (attributes.map Prod.fst).Nodup) :
    (read o .opening false c).cursor.rest = tail ∧ (read o .opening false c).log = .empty ∧
      (read o .opening false c).value.name = tag ∧
      (read o .opening false c).value.props.mapM Property.draft? = some attributes ∧
      (read o .opening false c).value.isSelfClosing = false ∧
      (read o .opening false c).value.startsVPre = false := by
  have name : nameAt .opening c.rest = tag := by
    rw [text]
    refine takeWhile_name named ?_
    cases attributes <;> rfl
  have behind : (c.skip (markLength .opening + tag.length)).rest =
      attributes.flatMap Draft.printAttribute ++ '>' :: tail := by
    rw [Cursor.rest_skip, text, markLength, Nat.add_comm, List.drop_succ_cons, List.drop_left]
  have fresh : ∀ a ∈ attributes, a.1 ∉ ([] : List (List Char)) := fun _ _ => List.not_mem_nil
  obtain ⟨rest, log, value⟩ := Property.readAll_plain o behind plain distinct fresh
  have markup : startsVPreWith .opening false
      (Property.readAll o .opening false []
        (c.skip (markLength .opening + tag.length)).skipBlanks).value = false := by
    rw [startsVPreWith, Property.any_isDirective_of_draft value]
    rfl
  unfold read attributesAt
  dsimp only
  rw [name, markup, if_neg Bool.false_ne_true, if_neg Bool.false_ne_true, readEnd_plain _ rest, log]
  refine ⟨?_, rfl, rfl, value, rfl, rfl⟩
  dsimp only
  rw [Cursor.rest_skip, rest]
  rfl

/-- The end tag of a draft is read without a word. -/
theorem read_closing_plain (o : Options) (vPre : Bool) {tag tail : List Char} {c : Cursor}
    (text : c.rest = '<' :: '/' :: (tag ++ '>' :: tail)) (named : Draft.isName tag = true) :
    (read o .closing vPre c).cursor.rest = tail ∧ (read o .closing vPre c).log = .empty := by
  have name : nameAt .closing c.rest = tag := by
    rw [text]
    exact takeWhile_name named rfl
  have behind : (c.skip (markLength .closing + tag.length)).rest = '>' :: tail := by
    rw [Cursor.rest_skip, text, markLength, Nat.add_comm, List.drop_succ_cons,
      List.drop_succ_cons, List.drop_left]
  have blanks := Cursor.skipBlanks_of_head (c := c.skip (markLength .closing + tag.length))
    (by rw [behind]; rfl)
  unfold read attributesAt
  dsimp only
  rw [name, blanks, Property.readAll_of_end o _ _ _ behind]
  have markup : startsVPreWith .closing vPre [] = false := rfl
  dsimp only
  rw [markup, if_neg Bool.false_ne_true, readEnd_plain _ behind]
  refine ⟨?_, rfl⟩
  dsimp only
  rw [Cursor.rest_skip, behind]
  rfl

end Tag

end Stencil
