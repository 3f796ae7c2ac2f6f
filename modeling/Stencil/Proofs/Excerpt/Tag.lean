import Stencil.Proofs.Bytewise.Tag
import Stencil.Proofs.EndTag
import Stencil.Proofs.Excerpt
import Stencil.Proofs.RoundTrip.Tag

/-! # Tags of an excerpt

An excerpt that ends with a tag stops everything inside of a tag but a value between quotes. So a
tag of the excerpt is the same in the whole template, or it is cut off in the excerpt, which is
worth an error there.
-/

namespace Stencil

variable {o : Options} {u t : List Char} {c : Cursor}

namespace Text

variable {x y : List Char}

/-- The end of a tag comes after a text that does not have it. -/
theorem Fits.append_right (h : Fits t (x ++ y)) (other : '>' ∉ x) : Fits t y := by
  cases y with
  | cons d y => exact h.suffix (List.cons_ne_nil d y)
  | nil =>
      refine h.imp_right fun last => ?_
      rw [List.append_nil] at last
      exact absurd (List.mem_of_getLast? last) other

theorem Fits.head?_append (h : Fits t y) : (y ++ t).head? = y.head? := by
  rcases h with rfl | last
  · rw [List.append_nil]
  · cases y with
    | nil => cases last
    | cons d y => rfl

theorem Fits.eq_nil (h : Fits t []) : t = [] :=
  h.resolve_right nofun

theorem lt_of_mem_indexesFrom {p : Char → Bool} {i j : Nat} (h : j ∈ indexesFrom i p y) :
    j < i + y.length := by
  induction y generalizing i with
  | nil => cases h
  | cons d y ih =>
      rw [List.length_cons]
      rw [indexesFrom] at h
      split at h
      · rcases List.mem_cons.mp h with rfl | h
        · omega
        · have := ih h
          omega
      · have := ih h
        omega

/-- A run of characters stops at a character that is not of its kind. -/
theorem exists_of_takeWhile_lt {q : Char → Bool} (h : (y.takeWhile q).length < y.length) :
    ∃ d z, y.drop (y.takeWhile q).length = d :: z ∧ q d = false := by
  have stops := head?_dropWhile_all (p := q) y
  cases rest : y.drop (y.takeWhile q).length with
  | nil =>
      rw [List.drop_eq_nil_iff] at rest
      omega
  | cons d z =>
      rw [rest] at stops
      exact ⟨d, z, rfl, by simpa using stops⟩

end Text

namespace Log

variable {a b c d : Log}

/-- The same errors in both templates, in their places. -/
def Moved (u : List Char) (long short : Log) : Prop :=
  long.errors = short.errors.map (ParseError.behind u)

theorem Moved.append (h : a.Moved u c) (k : b.Moved u d) : (a ++ b).Moved u (c ++ d) := by
  change a.errors ++ b.errors = List.map _ (c.errors ++ d.errors)
  rw [h, k, List.map_append]

theorem Moved.ofErrors_ite {p : Prop} [Decidable p] (code : ErrorCode) (q : Position) :
    (Log.ofErrors (if p then [.at code (q.behind u)] else [])).Moved u
      (.ofErrors (if p then [.at code q] else [])) := by
  split <;> rfl

theorem Moved.ite {p : Prop} [Decidable p] (code : ErrorCode) (q : Position) :
    (if p then Log.error code (q.behind u) else .empty).Moved u
      (if p then .error code q else .empty) := by
  split <;> rfl

end Log

namespace Reading

variable {α β : Type} {long short : Reading α}

/-- What is read inside of a tag is the same in both templates, with the end of the tag still to
    come, or it goes on behind the excerpt. -/
def Tracks (u t : List Char) (move : α → α) (long short : Reading α) : Prop :=
  long.Matches u t move short ∧ short.cursor.Fits t ∨ long.RunsOver t short

/-- What goes on behind the excerpt does not come back. -/
theorem RunsOver.of_reaches {long' short' : Reading β} (h : long.RunsOver t short)
    (far : long.cursor.Reaches long'.cursor) (near : short.cursor.Reaches short'.cursor) :
    long'.RunsOver t short' where
  short := by
    have shorter := near.length_le
    rw [h.short] at shorter
    exact List.length_eq_zero_iff.mp (Nat.le_zero.mp shorter)
  long := Nat.lt_of_le_of_lt far.length_le h.long

end Reading

/-- Errors at places of the excerpt. -/
theorem map_at_ahead_within (code : ErrorCode) (first : 0 < c.position.line) {indexes : List Nat}
    (inside : ∀ i ∈ indexes, i ≤ c.rest.length) (u t : List Char) :
    (indexes.map fun i => ParseError.at code ((c.within u t).ahead i)) =
      (indexes.map fun i => ParseError.at code (c.ahead i)).map (ParseError.behind u) := by
  rw [List.map_map]
  refine List.map_congr_left fun i member => ?_
  rw [Cursor.ahead_within first (.inl (inside i member)) u]
  rfl

/-! ## Values -/

namespace AttributeValue

def behind (u : List Char) (v : AttributeValue) : AttributeValue :=
  { v with
    loc := v.loc.behind u
    inner := v.inner.behind u }

theorem readQuoted_within (o : Options) {quote : Char} {y : List Char} (h : c.Fits t)
    (text : c.rest = quote :: y) (other : quote ≠ '>') (u : List Char) :
    (readQuoted o quote (c.within u t)).Tracks u t (Option.map (behind u))
      (readQuoted o quote c) := by
  have inner : (c.within u t).skip 1 = (c.skip 1).within u t :=
    Cursor.skip_within h.first (.inl (by simp [text])) u
  have fits := h.skip_one text other
  have reached := c.reaches_skip 1
  unfold readQuoted
  dsimp only
  rw [inner]
  generalize c.skip 1 = d at fits reached
  rw [Cursor.rest_within, List.takeWhile_append]
  generalize raw_ : d.rest.takeWhile (· != quote) = raw
  have bound : raw.length ≤ d.rest.length := raw_ ▸ (List.takeWhile_prefix _).length_le
  have close := Cursor.skip_within (t := t) fits.first (.inl bound) u
  have first := (d.reaches_skip raw.length).first fits.first
  rcases Nat.lt_or_ge raw.length d.rest.length with closed | all
  · left
    have after : ((d.skip raw.length).within u t).skip 1 =
        ((d.skip raw.length).skip 1).within u t :=
      Cursor.skip_within first (.inl (by rw [Cursor.length_skip]; omega)) u
    rw [if_neg (Nat.ne_of_lt closed), close, after]
    refine ⟨⟨?_, rfl, rfl⟩, ?_⟩
    · have whole : c.Reaches ((d.skip raw.length).skip 1) :=
        (reached.trans (d.reaches_skip _)).trans (Cursor.reaches_skip _ _)
      rw [Cursor.locationTo_within (d.reaches_skip _), Cursor.locationTo_within whole]
      rfl
    · subst raw_
      obtain ⟨e, z, rest, stop⟩ := Text.exists_of_takeWhile_lt closed
      have same : e = quote := by simpa using stop
      exact (fits.skip closed).skip_one rest (same ▸ other)
  · rw [if_pos (Nat.le_antisymm bound all)]
    cases t with
    | nil =>
        left
        have after : ((d.skip raw.length).within u []).skip 1 =
            ((d.skip raw.length).skip 1).within u [] := Cursor.skip_within first (.inr rfl) u
        have whole : d.rest ++ List.takeWhile (· != quote) [] = raw := by
          rw [← raw_, List.takeWhile_nil, List.append_nil]
          refine ((List.takeWhile_prefix _).eq_of_length ?_).symm
          rw [raw_]
          omega
        rw [whole, close, after]
        refine ⟨⟨?_, rfl, rfl⟩, (Cursor.reaches_skip _ 1).first first, .nil _⟩
        rw [Cursor.locationTo_within (d.reaches_skip _), Cursor.locationTo_within
          ((reached.trans (d.reaches_skip _)).trans (Cursor.reaches_skip _ _))]
        rfl
    | cons e t =>
        refine .inr ⟨?_, ?_⟩
        · simp [List.drop_eq_nil_of_le all]
        · simp only [Cursor.rest_skip, Cursor.rest_within, List.length_drop, List.length_append,
            List.length_cons]
          omega

theorem readUnquoted_within (o : Options) (h : c.Fits t) (u : List Char) :
    (readUnquoted o (c.within u t)).Matches u t (Option.map (behind u)) (readUnquoted o c) ∧
      (readUnquoted o c).cursor.Fits t := by
  have cursor := Cursor.skip_takeWhile_within (q := isUnquoted) h rfl u
  have raw : (c.rest ++ t).takeWhile isUnquoted = c.rest.takeWhile isUnquoted :=
    Text.takeWhile_fits h.text rfl
  unfold readUnquoted
  dsimp only
  rw [Cursor.rest_within, raw] at cursor ⊢
  rw [cursor]
  split
  · exact ⟨⟨rfl, rfl, rfl⟩, h⟩
  · refine ⟨⟨?_, rfl, ?_⟩, h.skip_takeWhile rfl⟩
    · rw [Cursor.locationTo_within (c.reaches_skip _)]
      rfl
    · refine map_at_ahead_within _ h.first (fun i member => ?_) u t
      have inside := Text.lt_of_mem_indexesFrom member
      have bound := (List.takeWhile_prefix (l := c.rest) isUnquoted).length_le
      omega

/-- The next character alone decides which kind of value is read. -/
theorem read_eq (o : Options) (c : Cursor) :
    read o c =
      if c.rest.head? = some '\x22' then readQuoted o '\x22' c
      else if c.rest.head? = some '\x27' then readQuoted o '\x27' c
      else readUnquoted o c := by
  unfold read
  split
  · next text => rw [text, List.head?_cons, if_pos rfl]
  · next text => rw [text, List.head?_cons, if_neg (by decide), if_pos rfl]
  · next double single =>
    have other : ∀ d : Char, (∀ y, c.rest = d :: y → False) → c.rest.head? ≠ some d := by
      intro d none head
      obtain ⟨y, text⟩ := List.head?_eq_some_iff.mp head
      exact none y text
    rw [if_neg (other _ double), if_neg (other _ single)]

theorem read_within (o : Options) (h : c.Fits t) (u : List Char) :
    (read o (c.within u t)).Tracks u t (Option.map (behind u)) (read o c) := by
  have quoted : ∀ quote : Char, quote ≠ '>' → c.rest.head? = some quote →
      (readQuoted o quote (c.within u t)).Tracks u t (Option.map (behind u))
        (readQuoted o quote c) := by
    intro quote other head
    obtain ⟨y, text⟩ := List.head?_eq_some_iff.mp head
    exact readQuoted_within o h text other u
  rw [read_eq, read_eq, Cursor.rest_within, h.text.head?_append]
  split
  · next double => exact quoted _ (by decide) double
  · split
    · next single => exact quoted _ (by decide) single
    · exact .inl (readUnquoted_within o h u)

end AttributeValue

namespace Property

theorem readValue_within (o : Options) (h : c.Fits t) (u : List Char) :
    (readValue o (c.within u t)).Tracks u t (Option.map (AttributeValue.behind u))
      (readValue o c) := by
  have fits := h.skipBlanks
  have head := fits.text.head?_append
  unfold readValue
  dsimp only
  rw [Cursor.skipBlanks_within h u, Cursor.rest_within, head]
  split
  · next equals =>
    obtain ⟨y, text⟩ : ∃ y, c.skipBlanks.rest = '=' :: y :=
      List.head?_eq_some_iff.mp (beq_iff_eq.mp equals)
    have after := fits.skip_one text (by decide)
    have cursor : (c.skipBlanks.within u t).skip 1 = (c.skipBlanks.skip 1).within u t :=
      Cursor.skip_within fits.first (.inl (by simp [text])) u
    rw [cursor, Cursor.skipBlanks_within after u]
    rcases AttributeValue.read_within o after.skipBlanks u with ⟨same, fits⟩ | beyond
    · refine .inl ⟨⟨same.value, same.cursor, Log.Moved.append same.errors ?_⟩, fits⟩
      rw [same.value, same.cursor, Option.isNone_map]
      exact .ofErrors_ite _ _
    · exact .inr ⟨beyond.short, beyond.long⟩
  · exact .inl ⟨⟨rfl, rfl, rfl⟩, h⟩

end Property

/-! ## Directives -/

namespace Directive

variable {raw : List Char}

/-- A part of what is read next stands in its place. -/
theorem part_within (first : 0 < c.position.line) {i j : Nat} (order : i ≤ j)
    (inside : j ≤ c.rest.length) (u t : List Char) :
    ((c.within u t).skip i).locationTo ((c.within u t).skip j) =
      ((c.skip i).locationTo (c.skip j)).behind u := by
  rw [Cursor.skip_within first (.inl inside) u,
    Cursor.skip_within first (.inl (Nat.le_trans order inside)) u,
    Cursor.locationTo_within (c.skip_reaches_skip order)]

theorem placeModifiers_within (first : 0 < c.position.line) {i : Nat} {pieces : List (List Char)}
    (inside : i + pieces.flatten.length + pieces.length ≤ c.rest.length + 1) (u t : List Char) :
    placeModifiers (c.within u t) i pieces =
      (placeModifiers c i pieces).map (Expression.behind u) := by
  induction pieces generalizing i with
  | nil => rfl
  | cons m ms ih =>
      simp only [List.flatten_cons, List.length_append, List.length_cons] at inside
      rw [placeModifiers, part_within first (Nat.le_add_right _ _) (by omega), ih (by omega)]
      rfl

theorem modifiersOf_within (first : 0 < c.position.line) (inside : raw.length ≤ c.rest.length)
    (u t : List Char) :
    modifiersOf (c.within u t) raw (DirectiveName.split raw) =
      (modifiersOf c raw (DirectiveName.split raw)).map (Expression.behind u) := by
  have whole := DirectiveName.length_split raw
  have pieces := Text.length_pieces (· == '.') ((DirectiveName.split raw).remainder.drop 1)
  have spelled : spelledModifiers (c.within u t) (DirectiveName.split raw) =
      (spelledModifiers c (DirectiveName.split raw)).map (Expression.behind u) := by
    unfold spelledModifiers
    split
    · rfl
    · next some =>
      have lead : 0 < (DirectiveName.split raw).remainder.length := by
        rw [List.length_pos_iff]
        simpa using some
      rw [List.length_drop] at pieces
      exact placeModifiers_within first (by omega) u t
  unfold modifiersOf
  rw [spelled, List.map_append]
  congr 1
  split
  · next dot =>
    have lead : 1 ≤ raw.length := by
      cases raw with
      | nil => cases dot
      | cons d s => simp
    have place := part_within first (Nat.zero_le 1) (Nat.le_trans lead inside) u t
    rw [Cursor.skip_zero, Cursor.skip_zero] at place
    rw [place]
    rfl
  · rfl

theorem argOf_within (first : 0 < c.position.line) (inside : raw.length ≤ c.rest.length)
    (u t : List Char) :
    argOf (c.within u t) raw (DirectiveName.split raw) =
      (argOf c raw (DirectiveName.split raw)).map (Expression.behind u) := by
  have whole := DirectiveName.length_split raw
  unfold argOf
  cases arg : (DirectiveName.split raw).rawArg with
  | none => rfl
  | some arg_ =>
      rw [arg, Option.elim_some] at whole
      simp only [Option.map_some]
      rw [part_within first (by split <;> omega) (by split <;> omega)]
      rfl

/-- Where nothing is honoured any more, directives stay as they are. -/
theorem modernize_none (d : Directive) : (modernize none d).1 = d := by
  unfold modernize
  split
  · split
    · simp [Legacy.isEnabled]
    · rfl
  · rfl

theorem build_within (modern : o.legacy = none) (first : 0 < c.position.line) {after : Cursor}
    (inside : raw.length ≤ c.rest.length) (reached : c.Reaches after)
    (value : Option AttributeValue) (u t : List Char) :
    (build o (c.within u t) (after.within u t) raw (value.map (AttributeValue.behind u))).1 =
        (build o c after raw value).1.behind u ∧
      (build o (c.within u t) (after.within u t) raw
        (value.map (AttributeValue.behind u))).2.errors =
        (build o c after raw value).2.errors.map (ParseError.behind u) := by
  constructor
  · simp only [build, modern, modernize_none, behind, argOf_within first inside,
      modifiersOf_within first inside, Cursor.locationTo_within reached, Option.map_map]
    rfl
  · simp only [build]
    split <;> rfl

end Directive

/-! ## Attributes -/

namespace Property

@[simp]
theorem rawName_behind (u : List Char) (p : Property) : (p.behind u).rawName = p.rawName := by
  cases p <;> rfl

@[simp]
theorem name_behind (u : List Char) (p : Property) : (p.behind u).name = p.name := by
  cases p <;> rfl

@[simp]
theorem isDirective_behind (u name : List Char) (p : Property) :
    (p.behind u).isDirective name = p.isDirective name := by
  cases p <;> rfl

theorem nameErrors_within (seen : List (List Char)) {name : List Char}
    (first : 0 < c.position.line) (inside : name.length ≤ c.rest.length) (u t : List Char) :
    nameErrors seen name (c.within u t) = (nameErrors seen name c).map (ParseError.behind u) := by
  have within : ∀ i ∈ Text.indexes isUnexpected name, i ≤ c.rest.length := by
    intro i member
    have := Text.lt_of_mem_indexesFrom member
    omega
  have unexpected := map_at_ahead_within .unexpectedCharacterInAttributeName first within u t
  unfold nameErrors
  rw [unexpected, List.map_append, List.map_append]
  congr 2
  · split <;> rfl
  · split <;> rfl

/-- The name of an attribute, and what follows it. -/
theorem nameAt_within {d : Char} {y : List Char} (h : c.Fits t) (text : c.rest = d :: y)
    (other : d ≠ '>') :
    nameAt (c.rest ++ t) = nameAt c.rest ∧ (nameAt c.rest).length ≤ c.rest.length ∧
      (c.skip (nameAt c.rest).length).Fits t := by
  have fits := h.text
  rw [text] at fits
  have tail := fits.tail other
  have stop : (!(Tag.isBreak '>' || '>' == '=')) = false := rfl
  have name : nameAt c.rest = d :: y.takeWhile fun e => !(Tag.isBreak e || e == '=') := by
    rw [text]
    rfl
  refine ⟨?_, ?_, (c.reaches_skip _).first h.first, ?_⟩
  · rw [name, text, List.cons_append, nameAt, Text.takeWhile_fits tail stop]
  · rw [name, text]
    exact Nat.succ_le_succ (List.takeWhile_prefix _).length_le
  · rw [Cursor.rest_skip, name, text]
    exact tail.drop_takeWhile stop

theorem plain_behind (name : List Char) (nameLoc loc : Location) (value : Option AttributeValue)
    (u : List Char) :
    plain name (nameLoc.behind u) (loc.behind u) (value.map (AttributeValue.behind u)) =
      (plain name nameLoc loc value).behind u := by
  cases value <;> rfl

theorem read_within (modern : o.legacy = none) (vPre : Bool) (seen : List (List Char)) {d : Char}
    {y : List Char} (h : c.Fits t) (text : c.rest = d :: y) (other : d ≠ '>') (u : List Char) :
    (read o vPre seen (c.within u t)).Tracks u t (Property.behind u) (read o vPre seen c) := by
  obtain ⟨name, inside, fits⟩ := nameAt_within h text other
  have after : (c.within u t).skip (nameAt c.rest).length =
      (c.skip (nameAt c.rest).length).within u t := Cursor.skip_within h.first (.inl inside) u
  have named := c.reaches_skip (nameAt c.rest).length
  rcases readValue_within o fits u with ⟨value, fits⟩ | beyond
  · have reached := named.trans (reaches_readValue o (c.skip (nameAt c.rest).length))
    have before : (Log.ofErrors (nameErrors seen (nameAt c.rest) (c.within u t)) ++
          (readValue o ((c.skip (nameAt c.rest).length).within u t)).log).Moved u
        (Log.ofErrors (nameErrors seen (nameAt c.rest) c) ++
          (readValue o (c.skip (nameAt c.rest).length)).log) :=
      Log.Moved.append (nameErrors_within seen h.first inside u t) value.errors
    left
    unfold read
    dsimp only
    rw [Cursor.rest_within, name, after]
    split
    · obtain ⟨directive, errors⟩ := Directive.build_within modern h.first inside reached
        (readValue o (c.skip (nameAt c.rest).length)).value u t
      refine ⟨⟨?_, value.cursor, ?_⟩, fits⟩
      · dsimp only
        rw [value.value, value.cursor, directive]
        rfl
      · refine before.append ?_
        rw [value.value, value.cursor]
        exact errors
    · refine ⟨⟨?_, value.cursor, ?_⟩, fits⟩
      · dsimp only
        rw [value.value, value.cursor, Cursor.locationTo_within named,
          Cursor.locationTo_within reached, plain_behind]
        rfl
      · refine before.append ?_
        rw [value.cursor]
        exact .ite _ _
  · right
    constructor
    · rw [cursor_read]
      exact beyond.short
    · rw [cursor_read, Cursor.rest_within, name, after]
      exact beyond.long

theorem spacingErrors_within (h : c.Fits t) (u : List Char) :
    spacingErrors (c.within u t) = (spacingErrors c).map (ParseError.behind u) := by
  unfold spacingErrors
  rw [Cursor.rest_within, h.text.head?_append]
  split <;> rfl

section

variable (o : Options) (kind : TagKind) (vPre : Bool) (seen : List (List Char)) {s : List Char}

theorem readAll_of_nil (text : c.rest = []) : readAll o kind vPre seen c = ⟨[], c, .empty⟩ := by
  rw [readAll]
  split <;> simp_all

theorem readAll_of_selfEnd (text : c.rest = '/' :: '>' :: s) :
    readAll o kind vPre seen c = ⟨[], c, .empty⟩ := by
  rw [readAll]
  split <;> simp_all

theorem readAll_of_solidus (text : c.rest = '/' :: s) (other : ∀ z, s = '>' :: z → False) :
    let r := readAll o kind vPre seen (c.skip 1).skipBlanks
    readAll o kind vPre seen c =
      { r with log := .error .unexpectedSolidusInTag c.position ++ r.log } := by
  intro r
  rw [readAll]
  split
  · next ends =>
    rw [text] at ends
    cases ends
  · next ends =>
    rw [text] at ends
    cases ends
  · next ends =>
    rw [text] at ends
    cases ends
    exact absurd rfl (other _)
  · rfl
  · next _ _ solidus ends =>
    rw [text] at ends
    exact absurd (List.cons.inj ends).1.symm solidus

/-- Where an attribute list ends depends neither on how its attributes are read nor on what was read
    before. -/
theorem cursor_readAll (vPre' : Bool) (seen' : List (List Char)) (c : Cursor) :
    (readAll o kind vPre' seen' c).cursor = (readAll o kind vPre seen c).cursor := by
  fun_induction readAll o kind vPre seen c generalizing seen' with
  | case1 seen c text => rw [readAll_of_nil o kind vPre' seen' text]
  | case2 seen c y text => rw [readAll_of_end o kind vPre' seen' text]
  | case3 seen c y text => rw [readAll_of_selfEnd o kind vPre' seen' text]
  | case4 seen c y other text r ih =>
      rw [readAll_of_solidus o kind vPre' seen' text other]
      exact ih seen'
  | case5 seen c x y first _ second text a r atEndTag ih =>
      rw [readAll_of_name o kind vPre' seen' text first second]
      dsimp only
      rw [cursor_read o vPre' seen' c, ← cursor_read o vPre seen c]
      exact ih _

end

theorem readAll_within (modern : o.legacy = none) (kind : TagKind) (vPre : Bool)
    (seen : List (List Char)) (h : c.Fits t) (u : List Char) :
    (readAll o kind vPre seen (c.within u t)).Tracks u t (List.map (Property.behind u))
      (readAll o kind vPre seen c) := by
  have whole : ∀ {c : Cursor} {y : List Char}, c.rest = y → (c.within u t).rest = y ++ t :=
    fun text => by rw [Cursor.rest_within, text]
  fun_induction readAll o kind vPre seen c with
  | case1 seen c text =>
      have fits := h.text
      rw [text] at fits
      have empty := fits.eq_nil
      subst empty
      rw [readAll_of_nil o kind vPre seen (whole text)]
      exact .inl ⟨⟨rfl, rfl, rfl⟩, h⟩
  | case2 seen c y text =>
      rw [readAll_of_end o kind vPre seen (whole text)]
      exact .inl ⟨⟨rfl, rfl, rfl⟩, h⟩
  | case3 seen c y text =>
      rw [readAll_of_selfEnd o kind vPre seen (whole text)]
      exact .inl ⟨⟨rfl, rfl, rfl⟩, h⟩
  | case4 seen c y other text r ih =>
      have after := h.skip_one text (by decide)
      have next : ∀ z, y ++ t = '>' :: z → False := by
        intro z long
        have tail : Text.Fits t y := by simpa [text] using after.text
        have head := tail.head?_append
        rw [long] at head
        obtain ⟨w, rfl⟩ := List.head?_eq_some_iff.mp head.symm
        exact other w rfl
      have cursor : (c.within u t).skip 1 = (c.skip 1).within u t :=
        Cursor.skip_within h.first (.inl (by simp [text])) u
      rw [readAll_of_solidus o kind vPre seen (whole text) next, cursor,
        Cursor.skipBlanks_within after u]
      rcases ih after.skipBlanks with ⟨same, fits⟩ | beyond
      · exact .inl ⟨⟨same.value, same.cursor, Log.Moved.append rfl same.errors⟩, fits⟩
      · exact .inr ⟨beyond.short, beyond.long⟩
  | case5 seen c x y first _ second text a r atEndTag ih =>
      rw [readAll_of_name o kind vPre seen (whole text) first second]
      rcases read_within modern vPre seen h text first u with ⟨same, fits⟩ | beyond
      · have blanks := Cursor.skipBlanks_within fits u
        rw [same.cursor, same.value, rawName_behind, blanks]
        rcases ih fits.skipBlanks with ⟨rest, last⟩ | beyond
        · refine .inl ⟨⟨?_, rest.cursor, ?_⟩, last⟩
          · dsimp only
            rw [rest.value]
            split <;> rfl
          · refine Log.Moved.append (.ofErrors_ite _ _) (.append same.errors ?_)
            exact .append (spacingErrors_within fits u) rest.errors
        · exact .inr ⟨beyond.short, beyond.long⟩
      · refine .inr (beyond.of_reaches ?_ ?_)
        · exact (Cursor.reaches_skipBlanks _).trans (Tag.reaches_readAll _ _ _ _ _)
        · exact (Cursor.reaches_skipBlanks _).trans (Tag.reaches_readAll _ _ _ _ _)

/-- Options that agree on single attributes agree on lists of them. -/
theorem readAll_congr (o o' : Options)
    (same : ∀ vPre seen c, read o' vPre seen c = read o vPre seen c)
    (kind : TagKind) (vPre : Bool) (seen : List (List Char)) (c : Cursor) :
    readAll o' kind vPre seen c = readAll o kind vPre seen c := by
  fun_induction readAll o kind vPre seen c with
  | case1 seen c text => rw [readAll_of_nil o' kind vPre seen text]
  | case2 seen c y text => rw [readAll_of_end o' kind vPre seen text]
  | case3 seen c y text => rw [readAll_of_selfEnd o' kind vPre seen text]
  | case4 seen c y other text r ih =>
      rw [readAll_of_solidus o' kind vPre seen text other, ih]
  | case5 seen c x y first _ second text a r atEndTag ih =>
      rw [readAll_of_name o' kind vPre seen text first second, same]
      exact congrArg (fun r : Reading (List Property) => Reading.mk
        (if kind = .opening then a.value :: r.value else r.value) r.cursor
        (atEndTag ++ (a.log ++ (.ofErrors (spacingErrors a.cursor) ++ r.log)))) ih

end Property

/-! ## Whole tags -/

namespace Tag

def behind (u : List Char) (tag : Tag) : Tag :=
  { tag with props := tag.props.map (Property.behind u) }

theorem readEnd_within (kind : TagKind) (h : c.Fits t)
    (stops : c.rest = [] ∨ ['>'] <+: c.rest ∨ ['/', '>'] <+: c.rest) (u : List Char) :
    (readEnd kind (c.within u t)).Matches u t id (readEnd kind c) := by
  have cursor : ∀ n, n ≤ c.rest.length → (c.within u t).skip n = (c.skip n).within u t :=
    fun n inside => Cursor.skip_within h.first (.inl inside) u
  rcases stops with text | ⟨y, text⟩ | ⟨y, text⟩
  · have fits := h.text
    rw [text] at fits
    have empty := fits.eq_nil
    subst empty
    simp only [readEnd, Cursor.rest_within, text, List.append_nil]
    exact ⟨rfl, rfl, rfl⟩
  · have long : (c.within u t).rest = '>' :: (y ++ t) := by
      rw [Cursor.rest_within, ← text]
      rfl
    rw [readEnd_plain kind long, readEnd_plain kind text.symm]
    exact ⟨rfl, cursor 1 (by simp [← text]), rfl⟩
  · have long : (c.within u t).rest = '/' :: '>' :: (y ++ t) := by
      rw [Cursor.rest_within, ← text]
      rfl
    have text : c.rest = '/' :: '>' :: y := text.symm
    simp only [readEnd, long, text]
    exact ⟨rfl, cursor 2 (by simp [text]), Log.Moved.ite _ _⟩

theorem startsVPreWith_behind (kind : TagKind) (vPre : Bool) (props : List Property)
    (u : List Char) :
    startsVPreWith kind vPre (props.map (Property.behind u)) = startsVPreWith kind vPre props := by
  simp only [startsVPreWith, List.any_map, Function.comp_def, Property.isDirective_behind]

/-- What follows the mark of a tag. -/
theorem attributesAt_within {kind : TagKind} (h : c.Fits t) (mark : Tag.mark kind <+: c.rest)
    (u : List Char) :
    nameAt kind (c.rest ++ t) = nameAt kind c.rest ∧
      attributesAt kind (c.within u t) = (attributesAt kind c).within u t ∧
      (attributesAt kind c).Fits t := by
  obtain ⟨y, text⟩ := mark
  have width : (Tag.mark kind).length = markLength kind := by cases kind <;> rfl
  have plain : '>' ∉ Tag.mark kind := by cases kind <;> decide
  have fits := h.text
  rw [← text] at fits
  have fits := fits.append_right plain
  have name : nameAt kind c.rest = y.takeWhile fun d => !isBreak d := by
    rw [nameAt, ← text, ← width, List.drop_left]
  have name' : nameAt kind (c.rest ++ t) = nameAt kind c.rest := by
    rw [name, nameAt, ← text, List.append_assoc, ← width, List.drop_left]
    exact Text.takeWhile_fits fits rfl
  have inside : markLength kind + (nameAt kind c.rest).length ≤ c.rest.length := by
    rw [name, ← text, List.length_append, ← width]
    exact Nat.add_le_add_left (List.takeWhile_prefix _).length_le _
  have after : (c.skip (markLength kind + (nameAt kind c.rest).length)).Fits t := by
    refine ⟨(c.reaches_skip _).first h.first, ?_⟩
    rw [Cursor.rest_skip, name, ← text, ← width, ← List.drop_drop, List.drop_left]
    exact fits.drop_takeWhile rfl
  refine ⟨name', ?_, after.skipBlanks⟩
  rw [attributesAt, Cursor.rest_within, name', Cursor.skip_within h.first (.inl inside) u,
    Cursor.skipBlanks_within after u]
  rfl

/-- The tag with this attribute list; `off` tells whether it turns directives off. -/
def ofList (kind : TagKind) (name : List Char) (off : Bool) (list : Reading (List Property)) :
    Reading Tag where
  value :=
    { name := name
      props := if off then list.value.filter fun p => p.name != "v-pre".toList else list.value
      isSelfClosing := (readEnd kind list.cursor).value
      startsVPre := off }
  cursor := (readEnd kind list.cursor).cursor
  log := list.log ++ (readEnd kind list.cursor).log

theorem read_eq (o : Options) (kind : TagKind) (vPre : Bool) (c : Cursor) :
    let pass vPre := Property.readAll o kind vPre [] (attributesAt kind c)
    let off := startsVPreWith kind vPre (pass vPre).value
    read o kind vPre c =
      ofList kind (nameAt kind c.rest) off (if off then pass true else pass vPre) := rfl

/-- Options that agree on single attributes agree on tags. -/
theorem read_congr (o o' : Options)
    (same : ∀ vPre seen c, Property.read o' vPre seen c = Property.read o vPre seen c)
    (kind : TagKind) (vPre : Bool) (c : Cursor) : read o' kind vPre c = read o kind vPre c := by
  simp only [read_eq, Property.readAll_congr o o' same]

/-- Tags are read without asking about elements. -/
theorem read_options (o : Options) (u : List Char) (kind : TagKind) (vPre : Bool) (c : Cursor) :
    read (o.behind u) kind vPre c = read o kind vPre c :=
  read_congr o (o.behind u) (fun _ _ _ => rfl) kind vPre c

section

variable {kind : TagKind} {long short : Reading (List Property)}

theorem ofList_within (name : List Char) (off : Bool)
    (h : long.Matches u t (List.map (Property.behind u)) short) (fits : short.cursor.Fits t)
    (stops : short.cursor.rest = [] ∨ ['>'] <+: short.cursor.rest ∨
      ['/', '>'] <+: short.cursor.rest) :
    (ofList kind name off long).Matches u t (Tag.behind u) (ofList kind name off short) := by
  have close := readEnd_within kind fits stops u
  rw [← h.cursor] at close
  refine ⟨?_, close.cursor, Log.Moved.append h.errors close.errors⟩
  simp only [ofList, behind, h.value, close.value, id_eq]
  split
  · simp only [List.filter_map, Function.comp_def, Property.name_behind]
  · rfl

/-- A tag that is cut off is worth an error, whatever was made of its attributes. -/
theorem ofList_runsOver (name name' : List Char) (off off' : Bool) (h : long.RunsOver t short) :
    (ofList kind name off long).RunsOver t (ofList kind name' off' short) ∧
      (ofList kind name' off' short).log.errors ≠ [] := by
  refine ⟨h.of_reaches (reaches_readEnd kind _) (reaches_readEnd kind _), ?_⟩
  have cut : (readEnd kind short.cursor).log.errors ≠ [] := by
    simp [readEnd, h.short, Log.error, Log.ofErrors]
  exact List.append_ne_nil_of_right_ne_nil _ cut

end

/-- A tag is the same in the whole template, or cut off in the excerpt. -/
theorem read_within (modern : o.legacy = none) {kind : TagKind} (vPre : Bool) (h : c.Fits t)
    (mark : Tag.mark kind <+: c.rest) (u : List Char) :
    (read o kind vPre (c.within u t)).Matches u t (Tag.behind u) (read o kind vPre c) ∨
      (read o kind vPre (c.within u t)).RunsOver t (read o kind vPre c) ∧
        (read o kind vPre c).log.errors ≠ [] := by
  obtain ⟨name, start, fits⟩ := attributesAt_within h mark u
  have pass : ∀ vPre, _ := fun vPre => Property.readAll_within modern kind vPre [] fits u
  have stops := fun vPre => Property.stops_readAll o kind vPre [] (attributesAt kind c)
  rw [read_eq, read_eq, Cursor.rest_within, name, start]
  dsimp only
  rcases pass vPre with ⟨first, last⟩ | beyond
  · rw [first.value, startsVPreWith_behind]
    split
    · rcases pass true with ⟨again, last⟩ | beyond
      · exact .inl (ofList_within _ _ again last (stops true))
      · exact .inr (ofList_runsOver _ _ _ _ beyond)
    · exact .inl (ofList_within _ _ first last (stops vPre))
  · -- the passes may turn out differently, but both go on behind the excerpt
    have cursor : ∀ (p : Prop) [Decidable p] (d : Cursor),
        (if p then Property.readAll o kind true [] d
          else Property.readAll o kind vPre [] d).cursor =
          (Property.readAll o kind vPre [] d).cursor := by
      intro p _ d
      split
      · exact Property.cursor_readAll o kind vPre [] true [] d
      · rfl
    refine .inr (ofList_runsOver _ _ _ _ ⟨?_, ?_⟩)
    · rw [cursor]
      exact beyond.short
    · rw [cursor]
      exact beyond.long

theorem getLast?_textTo_readEnd {kind : TagKind}
    (stops : c.rest = [] ∨ ['>'] <+: c.rest ∨ ['/', '>'] <+: c.rest)
    (h : (readEnd kind c).log.errors = []) :
    (c.textTo (readEnd kind c).cursor).getLast? = some '>' := by
  rcases stops with text | ⟨y, text⟩ | ⟨y, text⟩
  · simp [readEnd, text, Log.error, Log.ofErrors] at h
  · rw [readEnd_plain kind text.symm, Cursor.textTo_skip, ← text]
    rfl
  · have text : c.rest = '/' :: '>' :: y := text.symm
    have cursor : (readEnd kind c).cursor = c.skip 2 := by simp [readEnd, text]
    rw [cursor, Cursor.textTo_skip, text]
    rfl

/-- A tag without errors is closed. -/
theorem getLast?_textTo_read (o : Options) (kind : TagKind) (vPre : Bool) (c : Cursor)
    (h : (read o kind vPre c).log.errors = []) :
    (c.textTo (read o kind vPre c).cursor).getLast? = some '>' := by
  have closed : ∀ (name : List Char) (off vPre : Bool),
      (ofList kind name off
          (Property.readAll o kind vPre [] (attributesAt kind c))).log.errors = [] →
        (c.textTo (ofList kind name off
          (Property.readAll o kind vPre [] (attributesAt kind c))).cursor).getLast? = some '>' := by
    intro name off vPre h
    have before : c.Reaches (Property.readAll o kind vPre [] (attributesAt kind c)).cursor :=
      ((c.reaches_skip _).trans (Cursor.reaches_skipBlanks _)).trans (reaches_readAll _ _ _ _ _)
    have last := getLast?_textTo_readEnd (Property.stops_readAll o kind vPre [] _)
      (List.append_eq_nil_iff.mp h).2
    change (c.textTo (readEnd kind _).cursor).getLast? = _
    rw [Cursor.textTo_append before (reaches_readEnd kind _), List.getLast?_append, last]
    rfl
  rw [read_eq] at h ⊢
  dsimp only at h ⊢
  split at h
  · next off => rw [if_pos off] ; exact closed _ _ _ h
  · next off => rw [if_neg off] ; exact closed _ _ _ h

theorem startsEndTag_within {tag y : List Char} (named : WellNamed tag) (h : Text.Fits t y) :
    startsEndTag tag (y ++ t) = startsEndTag tag y := by
  have name : ['<', '/'] <+: y → nameAt .closing (y ++ t) = nameAt .closing y := by
    rintro ⟨z, rfl⟩
    exact Text.takeWhile_fits (h.append_right (by decide)) rfl
  rw [Bool.eq_iff_iff, startsEndTag_iff named, startsEndTag_iff named]
  have starts : ['<', '/'] <+: y ++ t ↔ ['<', '/'] <+: y := by
    rw [← List.isPrefixOf_iff_prefix, ← List.isPrefixOf_iff_prefix,
      Text.isPrefixOf_fits (by decide) h]
  constructor
  · intro ⟨opened, same⟩
    have opened := starts.mp opened
    exact ⟨opened, name opened ▸ same⟩
  · intro ⟨opened, same⟩
    exact ⟨starts.mpr opened, (name opened).symm ▸ same⟩

end Tag

/-- What markup is does not depend on what follows the excerpt. -/
theorem Markup.classify_within {y : List Char} (h : Text.Fits t y) :
    classify (y ++ t) = classify y := by
  cases y with
  | nil =>
      rw [h.eq_nil]
      rfl
  | cons d y =>
      by_cases bang : d = '!'
      · subst bang
        have fits := h.tail (by decide)
        have starts : ∀ needle : List Char, '>' ∉ needle.dropLast →
            needle.isPrefixOf (y ++ t) = needle.isPrefixOf y :=
          fun _ inner => Text.isPrefixOf_fits inner fits
        simp only [List.cons_append, classify, starts "--".toList (by decide),
          starts "DOCTYPE".toList (by decide), starts "[CDATA[".toList (by decide)]
      · by_cases solidus : d = '/'
        · subst solidus
          cases y with
          | nil =>
              rw [(h.tail (by decide)).eq_nil]
              rfl
          | cons e y => rfl
        · simp [classify, solidus]

/-! ## Elements -/

namespace Element

variable (u : List Char)

theorem fst_castBy_behind (config : Option Legacy.Config) (p : Property) :
    (castBy config (p.behind u)).1 = (castBy config p).1 := by
  match p with
  | .attribute a =>
      simp only [Property.behind, castBy, Attribute.behind]
      cases a.value with
      | none => split <;> rfl
      | some v =>
          simp only [Option.map_some, TextNode.behind]
          split
          · split <;> rfl
          · rfl
  | .directive d =>
      have static : (d.behind u).isStaticArg "is".toList = d.isStaticArg "is".toList := by
        simp only [Directive.isStaticArg, Directive.behind, Option.any_map]
        rfl
      have name : (d.behind u).name = d.name := rfl
      simp only [Property.behind, castBy, static, name, apply_ite Prod.fst]

theorem fst_cast_behind (config : Option Legacy.Config) (props : List Property) :
    (cast config (props.map (Property.behind u))).1 = (cast config props).1 := by
  induction props with
  | nil => rfl
  | cons p props ih =>
      have first := fst_castBy_behind u config p
      simp only [List.map_cons, cast]
      generalize castBy config (p.behind u) = x at first
      generalize castBy config p = y at first
      obtain ⟨x, _⟩ := x
      obtain ⟨y, _⟩ := y
      change x = y at first
      subst first
      cases x with
      | true => rfl
      | false => exact ih

theorem fst_classify_behind (o : Options) (vPre : Bool) (tag : List Char) (props : List Property) :
    (classify o vPre tag (props.map (Property.behind u))).1 = (classify o vPre tag props).1 := by
  have structural : (props.map (Property.behind u)).any Property.isStructural =
      props.any Property.isStructural := by
    rw [List.any_map]
    congr 1
    funext p
    cases p <;> rfl
  have decided := fst_cast_behind u o.legacy props
  simp only [classify, structural, apply_ite Prod.fst]
  generalize cast o.legacy (props.map (Property.behind u)) = x at decided ⊢
  generalize cast o.legacy props = y at decided ⊢
  obtain ⟨x, _⟩ := x
  obtain ⟨y, _⟩ := y
  change x = y at decided
  subst decided
  cases x <;> rfl

/-- The rules of the platform are asked about elements where they come to stand. -/
theorem ofTag_behind (o : Options) (vPre : Bool) (parent : Option Element) (tag : Tag)
    (loc : Location) :
    (ofTag o vPre (parent.map (Element.behind u)) (tag.behind u) (loc.behind u)).1 =
      (ofTag (o.behind u) vPre parent tag loc).1.behind u := by
  have kind := fst_classify_behind u o vPre tag.name tag.props
  have same : classify (o.behind u) vPre tag.name tag.props = classify o vPre tag.name tag.props :=
    rfl
  simp only [ofTag, Element.behind, same, ← kind]
  rfl

end Element

end Stencil
