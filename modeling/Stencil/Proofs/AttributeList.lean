import Stencil.Proofs.Excerpt.Tag
import Stencil.Proofs.Spans.Tag

/-! # Attribute lists

Nothing of an attribute list is lost. What is read of it are its attributes, each in its place, and
between them stand only blanks and solidi. Every solidus is an error, and so is every attribute
whose name is that of an earlier one.
-/

namespace Stencil

namespace Log

@[simp]
theorem errors_append (a b : Log) : (a ++ b).errors = a.errors ++ b.errors := rfl

@[simp]
theorem errors_ofErrors (es : List ParseError) : (ofErrors es).errors = es := rfl

@[simp]
theorem errors_error (code : ErrorCode) (p : Position) :
    (error code p).errors = [.at code p] := rfl

@[simp]
theorem warnings_append (a b : Log) : (a ++ b).warnings = a.warnings ++ b.warnings := rfl

@[simp]
theorem warnings_ofErrors (es : List ParseError) : (ofErrors es).warnings = [] := rfl

@[simp]
theorem warnings_error (code : ErrorCode) (p : Position) : (error code p).warnings = [] := rfl

end Log

@[simp]
theorem ParseError.code_at (code : ErrorCode) (p : Position) : (ParseError.at code p).code = code :=
  rfl

/-! ## What is reported about an attribute -/

/-- The errors about a directive. -/
def ErrorCode.isAboutDirective : ErrorCode → Bool
  | .missingDirectiveName | .missingDynamicDirectiveArgumentEnd => true
  | _ => false

/-- The errors about the name of an attribute. -/
def ErrorCode.isAboutName : ErrorCode → Bool
  | .duplicateAttribute | .unexpectedEqualsSignBeforeAttributeName
  | .unexpectedCharacterInAttributeName => true
  | _ => false

/-- The errors about the value of an attribute. -/
def ErrorCode.isAboutValue : ErrorCode → Bool
  | .unexpectedCharacterInUnquotedAttributeValue | .missingAttributeValue => true
  | _ => false

theorem ErrorCode.not_isAboutDirective {k : ErrorCode}
    (h : k.isAboutName = true ∨ k.isAboutValue = true) : k.isAboutDirective = false := by
  cases k <;> first | rfl | rcases h with h | h <;> cases h

/-- Every error of the list is of a kind. -/
def ParseError.AllOf (kind : ErrorCode → Bool) (es : List ParseError) : Prop :=
  ∀ e ∈ es, kind e.code = true

namespace ParseError.AllOf

variable {kind p : ErrorCode → Bool} {es : List ParseError}

theorem filter_eq_nil (h : AllOf kind es) (other : ∀ k, kind k = true → p k = false) :
    es.filter (p ·.code) = [] := by
  simp only [List.filter_eq_nil_iff, Bool.not_eq_true]
  exact fun e member => other e.code (h e member)

theorem filter_code {code : ErrorCode} (h : AllOf kind es) (other : kind code = false) :
    es.filter (·.code == code) = [] := by
  refine h.filter_eq_nil (p := (· == code)) fun k holds => beq_eq_false_iff_ne.mpr ?_
  rintro rfl
  simp [other] at holds

theorem filter_eq_self (h : AllOf kind es) (all : ∀ k, kind k = true → p k = true) :
    es.filter (p ·.code) = es := by
  simp only [List.filter_eq_self]
  exact fun e member => all e.code (h e member)

end ParseError.AllOf

namespace AttributeValue

theorem log_read (o : Options) (c : Cursor) :
    ParseError.AllOf (·.isAboutValue) (read o c).log.errors ∧ (read o c).log.warnings = [] := by
  rw [read_eq]
  split
  · exact ⟨nofun, rfl⟩
  · split
    · exact ⟨nofun, rfl⟩
    · unfold readUnquoted
      dsimp only
      split
      · exact ⟨nofun, rfl⟩
      · refine ⟨fun e member => ?_, rfl⟩
        obtain ⟨i, _, rfl⟩ := List.mem_map.mp member
        rfl

end AttributeValue

namespace Directive

/-- Legacy readings of a directive leave everything but its name and its modifiers. -/
theorem modernize_eq (config : Option Legacy.Config) (d : Directive) :
    ∃ name modifiers, (modernize config d).1 = { d with name := name, modifiers := modifiers } := by
  unfold modernize
  split
  · split
    · dsimp only
      split <;> exact ⟨_, _, rfl⟩
    · exact ⟨_, _, rfl⟩
  · exact ⟨_, _, rfl⟩

theorem build_eq (o : Options) (start after : Cursor) (raw : List Char)
    (value : Option AttributeValue) :
    (build o start after raw value).1.rawName = raw ∧
      (build o start after raw value).1.loc = start.locationTo after ∧
      (build o start after raw value).1.exp =
        value.map fun v => { content := v.content, isStatic := false, loc := v.inner } := by
  unfold build
  dsimp only
  generalize whole : Directive.mk _ _ _ _ _ _ = d
  obtain ⟨name, modifiers, same⟩ := modernize_eq o.legacy d
  rw [same, ← whole]
  exact ⟨rfl, rfl, rfl⟩

end Directive

namespace Property

/-- A property with this value. That of `class` is brought into its normal form. -/
def Carries (value : Option AttributeValue) : Property → Prop
  | .attribute a =>
    a.value = value.map fun v =>
      { content := if a.name = "class".toList then Text.classList v.content else v.content
        loc := v.loc }
  | .directive d =>
    d.exp = value.map fun v => { content := v.content, isStatic := false, loc := v.inner }

variable (o : Options) (vPre : Bool) (seen : List (List Char)) (c : Cursor)

theorem allOf_nameErrors (name : List Char) :
    ParseError.AllOf (·.isAboutName) (nameErrors seen name c) := by
  intro e member
  rcases List.mem_append.mp member with member | member
  · rcases List.mem_append.mp member with member | member
    · cases List.mem_singleton.mp (List.mem_ite_nil_right.mp member).2
      rfl
    · cases List.mem_singleton.mp (List.mem_ite_nil_right.mp member).2
      rfl
  · obtain ⟨i, _, rfl⟩ := List.mem_map.mp member
    rfl

theorem allOf_spacingErrors :
    ParseError.AllOf (· == .missingWhitespaceBetweenAttributes) (spacingErrors c) := by
  intro e member
  cases List.mem_singleton.mp (List.mem_ite_nil_left.mp member).2
  rfl

theorem log_readValue :
    ParseError.AllOf (·.isAboutValue) (readValue o c).log.errors ∧
      (readValue o c).log.warnings = [] := by
  unfold readValue
  dsimp only
  split
  · obtain ⟨errors, warnings⟩ := AttributeValue.log_read o (c.skipBlanks.skip 1).skipBlanks
    constructor
    · intro e member
      rcases List.mem_append.mp member with member | member
      · exact errors e member
      · cases List.mem_singleton.mp (List.mem_ite_nil_right.mp member).2
        rfl
    · simp [warnings]
  · exact ⟨nofun, rfl⟩

/-- An attribute has the name, the place and the value that were read for it. -/
theorem value_read :
    (read o vPre seen c).value.rawName = nameAt c.rest ∧
      (read o vPre seen c).value.loc = c.locationTo (read o vPre seen c).cursor ∧
      (read o vPre seen c).value.Carries (readValue o (c.skip (nameAt c.rest).length)).value := by
  unfold read
  dsimp only
  split
  · exact Directive.build_eq o c _ (nameAt c.rest) _
  · simp [plain, rawName, loc, Carries]

/-- What is reported about an attribute: the errors of its name, those of its value, and what there
    is to say about a directive. -/
theorem log_read :
    ∃ log : Log,
      (read o vPre seen c).log = .ofErrors (nameErrors seen (nameAt c.rest) c) ++
        (readValue o (c.skip (nameAt c.rest).length)).log ++ log ∧
      ParseError.AllOf (·.isAboutDirective) log.errors ∧ (vPre = true → log = .empty) := by
  unfold read
  dsimp only
  split
  · next directive =>
    refine ⟨_, rfl, fun e member => ?_, fun off => ?_⟩
    · cases List.mem_singleton.mp (List.mem_ite_nil_right.mp member).2
      rfl
    · simp [off] at directive
  · refine ⟨_, rfl, fun e member => ?_, fun off => by simp [off]⟩
    split at member
    · cases List.mem_singleton.mp member
      rfl
    · cases member

end Property

/-! ## Names, values and what stands between them -/

/-- From one cursor to the other there are only blanks and solidi; the list has the places of the
    solidi. -/
inductive Cursor.Gap : Cursor → Cursor → List Position → Prop where
  | nil (c : Cursor) : Gap c c []
  | blank {c d : Cursor} {x : Char} {s : List Char} {marks : List Position}
      (text : c.rest = x :: s) (blank : Text.isBlank x = true) (rest : Gap (c.skip 1) d marks) :
      Gap c d marks
  | solidus {c d : Cursor} {s : List Char} {marks : List Position}
      (text : c.rest = '/' :: s) (rest : Gap (c.skip 1) d marks) : Gap c d (c.position :: marks)

namespace Cursor

variable {c d e : Cursor} {marks more : List Position}

theorem Gap.trans (h : Gap c d marks) (k : Gap d e more) : Gap c e (marks ++ more) := by
  induction h with
  | nil => exact k
  | blank text blank _ ih => exact .blank text blank (ih k)
  | solidus text _ ih => exact .solidus text (ih k)

theorem skip_of_nil (h : c.rest = []) (n : Nat) : c.skip n = c := by
  cases c
  cases h
  simp [skip]

theorem gap_skip {n : Nat} (blanks : ∀ x ∈ c.rest.take n, Text.isBlank x = true) :
    Gap c (c.skip n) [] := by
  induction n generalizing c with
  | zero => exact .nil c
  | succ n ih =>
      cases text : c.rest with
      | nil =>
          rw [skip_of_nil text]
          exact .nil c
      | cons x s =>
          rw [text, List.take_succ_cons, List.forall_mem_cons] at blanks
          have rest : ∀ y ∈ (c.skip 1).rest.take n, Text.isBlank y = true := by
            simpa [text] using blanks.2
          rw [Nat.add_comm, ← skip_skip]
          exact .blank text blanks.1 (ih rest)

theorem gap_skipBlanks (c : Cursor) : Gap c c.skipBlanks [] := by
  apply gap_skip
  intro x member
  rw [Text.take_length_takeWhile] at member
  exact List.all_eq_true.mp List.all_takeWhile x member

/-- Behind the blanks there is no blank. -/
theorem head?_skipBlanks (c : Cursor) :
    c.skipBlanks.rest.head?.all (fun x => !Text.isBlank x) = true :=
  Text.head?_dropWhile_all c.rest

/-- Where blanks lead to something else, they have all been skipped. -/
theorem Gap.skipBlanks_eq (h : Gap c d [])
    (stop : d.rest.head?.all (fun x => !Text.isBlank x) = true) : c.skipBlanks = d := by
  generalize none : ([] : List Position) = marks at h
  induction h with
  | nil => exact skipBlanks_of_head stop
  | @blank c d x s marks text blank rest ih =>
      rw [← ih stop none, skipBlanks, skipBlanks, skip_skip]
      simp [text, blank, Nat.add_comm]
  | solidus => cases none

end Cursor

/-- The raw value `raw` of an attribute stands between two cursors: between quotes, up to the first
    one of the same kind or to the end of the template, or without quotes, up to a blank, the end of
    the tag or the end of the template. The cursor in the middle is where `raw` itself starts. -/
inductive AttributeValue.Written (c : Cursor) : Cursor → List Char → Cursor → Prop where
  | quoted {quote : Char} {raw s : List Char} (mark : quote = '\x22' ∨ quote = '\x27')
      (text : c.rest = quote :: (raw ++ quote :: s)) (first : quote ∉ raw) :
      Written c (c.skip 1) raw (c.skip (raw.length + 2))
  | unclosed {quote : Char} {raw : List Char} (mark : quote = '\x22' ∨ quote = '\x27')
      (text : c.rest = quote :: raw) (none : quote ∉ raw) :
      Written c (c.skip 1) raw (c.skip (raw.length + 1))
  | unquoted {raw s : List Char} (text : c.rest = raw ++ s) (nonempty : raw ≠ [])
      (mark : raw.head? ≠ some '\x22' ∧ raw.head? ≠ some '\x27')
      (solid : ∀ x ∈ raw, Text.isBlank x = false ∧ x ≠ '>')
      (ends : s.head?.all (fun x => Text.isBlank x || x == '>') = true) :
      Written c c raw (c.skip raw.length)

namespace AttributeValue

theorem written_readQuoted (o : Options) {quote : Char} {c : Cursor}
    (mark : quote = '\x22' ∨ quote = '\x27') (text : c.rest.head? = some quote) :
    ∃ i raw, Written c i raw (readQuoted o quote c).cursor ∧ (readQuoted o quote c).value =
      some ⟨o.decode .attributeValue raw, c.locationTo (readQuoted o quote c).cursor,
        i.locationTo (i.skip raw.length)⟩ := by
  obtain ⟨y, text⟩ := List.head?_eq_some_iff.mp text
  have inner : (c.skip 1).rest = y := by simp [text]
  simp only [readQuoted, inner, Cursor.skip_skip]
  refine ⟨c.skip 1, y.takeWhile (· != quote), ?_, by simp [Cursor.skip_skip]⟩
  have first : quote ∉ y.takeWhile (· != quote) := by
    intro member
    simpa using List.all_eq_true.mp List.all_takeWhile quote member
  have starts := List.takeWhile_prefix (l := y) (· != quote)
  generalize raw_ : y.takeWhile (· != quote) = raw at first starts
  rcases Nat.lt_or_ge raw.length y.length with closed | all
  · subst raw_
    obtain ⟨d, z, rest, stop⟩ := Text.exists_of_takeWhile_lt closed
    have same : d = quote := by simpa using stop
    subst same
    have split := List.prefix_iff_eq_append.mp starts
    rw [rest] at split
    rw [Nat.add_comm 1, Nat.add_assoc]
    exact .quoted mark (text.trans (congrArg _ split.symm)) first
  · cases starts.eq_of_length_le all
    have stop : (c.skip (1 + y.length)).rest = [] := by simp [text, Nat.add_comm]
    rw [← Cursor.skip_skip, Cursor.skip_of_nil stop, Nat.add_comm]
    exact .unclosed mark text first

/-- A value is read where one is written, and stands for the text that is written there. -/
theorem written_read (o : Options) (c : Cursor) :
    ((read o c).value = none ∧ (read o c).cursor = c ∧
      c.rest.head?.all (fun x => Text.isBlank x || x == '>') = true) ∨
    ∃ i raw, Written c i raw (read o c).cursor ∧ (read o c).value =
      some ⟨o.decode .attributeValue raw, c.locationTo (read o c).cursor,
        i.locationTo (i.skip raw.length)⟩ := by
  rw [read_eq]
  split
  · next double => exact .inr (written_readQuoted o (.inl rfl) double)
  · next double =>
    split
    · next single => exact .inr (written_readQuoted o (.inr rfl) single)
    · next single =>
      have starts := List.takeWhile_prefix (l := c.rest) isUnquoted
      have stop : (c.rest.drop (c.rest.takeWhile isUnquoted).length).head?.all
          (fun x => Text.isBlank x || x == '>') = true := by
        simpa [isUnquoted] using Text.head?_dropWhile_all (p := isUnquoted) c.rest
      have split := List.prefix_iff_eq_append.mp starts
      simp only [readUnquoted]
      generalize raw_ : c.rest.takeWhile isUnquoted = raw at stop split
      split
      · next none =>
        cases List.isEmpty_iff.mp none
        exact .inl ⟨rfl, rfl, stop⟩
      · next nonempty =>
        rw [List.isEmpty_iff] at nonempty
        have head : raw.head? = c.rest.head? := by
          obtain ⟨x, t, rfl⟩ := List.exists_cons_of_ne_nil nonempty
          rw [← split]
          rfl
        have solid : ∀ x ∈ raw, Text.isBlank x = false ∧ x ≠ '>' := by
          intro x member
          rw [← raw_] at member
          simpa [isUnquoted] using List.all_eq_true.mp List.all_takeWhile x member
        rw [← head] at double single
        exact .inr ⟨c, raw, .unquoted split.symm nonempty ⟨double, single⟩ solid stop, rfl⟩

end AttributeValue

namespace Property

/-- What follows the name of an attribute, up to the second cursor: nothing that belongs to it, an
    equals sign without a value, or one with a value. -/
inductive ValueAt (o : Options) (c : Cursor) : Option AttributeValue → Cursor → Prop where
  | absent (other : ∀ m, c.Gap m [] → m.rest.head? ≠ some '=') : ValueAt o c none c
  | missing {m d : Cursor} (before : c.Gap m []) (equals : m.rest.head? = some '=')
      (after : (m.skip 1).Gap d []) (ends : d.rest.head?.all (· == '>') = true) :
      ValueAt o c none d
  | written {m d i e : Cursor} {raw : List Char} (before : c.Gap m [])
      (equals : m.rest.head? = some '=') (after : (m.skip 1).Gap d [])
      (written : AttributeValue.Written d i raw e) :
      ValueAt o c
        (some ⟨o.decode .attributeValue raw, d.locationTo e, i.locationTo (i.skip raw.length)⟩) e

/-- The names of attributes: there is something, nothing of it ends a name, and an equals sign is
    at most its first character. -/
structure IsName (name : List Char) : Prop where
  nonempty : name ≠ []
  solid : ∀ x ∈ name, x ≠ '/' ∧ x ≠ '>' ∧ Text.isBlank x = false
  equals : '=' ∉ name.tail

/-- The property `p` is what stands from `a` to `b`: a name, as long as it can be, and what follows
    it. -/
structure Stands (o : Options) (a b : Cursor) (p : Property) : Prop where
  reaches : a.Reaches b
  loc : p.loc = a.locationTo b
  name : p.rawName <+: a.rest
  isName : IsName p.rawName
  ends : (a.skip p.rawName.length).rest.head?.all (fun x => Tag.isBreak x || x == '=') = true
  value : ∃ v, ValueAt o (a.skip p.rawName.length) v b ∧ p.Carries v

/-- From one cursor to the other there are the properties, each in its place, and gaps before,
    between and behind them; `marks` are the places of the solidi in all gaps. -/
inductive Tiles (o : Options) : Cursor → List Property → Cursor → List Position → Prop where
  | nil {c d : Cursor} {marks : List Position} (gap : c.Gap d marks) : Tiles o c [] d marks
  | cons {c a b d : Cursor} {p : Property} {props : List Property} {marks more : List Position}
      (gap : c.Gap a marks) (stands : p.Stands o a b) (rest : Tiles o b props d more) :
      Tiles o c (p :: props) d (marks ++ more)

/-- The properties whose name is in `seen`, or is that of an earlier one. -/
def repeated (seen : List (List Char)) : List Property → List Property
  | [] => []
  | p :: props =>
    if seen.contains p.rawName then p :: repeated (p.rawName :: seen) props
    else repeated (p.rawName :: seen) props

variable {o : Options} {c d e : Cursor} {props : List Property} {marks more : List Position}

theorem Tiles.behind (gap : c.Gap d marks) (h : Tiles o d props e more) :
    Tiles o c props e (marks ++ more) := by
  cases h with
  | nil next => exact .nil (gap.trans next)
  | cons next stands rest =>
      rw [← List.append_assoc]
      exact .cons (gap.trans next) stands rest

theorem valueAt_readValue (o : Options) (c : Cursor) :
    ValueAt o c (readValue o c).value (readValue o c).cursor := by
  have before := c.gap_skipBlanks
  unfold readValue
  dsimp only
  split
  · next equals =>
    have after := (c.skipBlanks.skip 1).gap_skipBlanks
    have solid := (c.skipBlanks.skip 1).head?_skipBlanks
    generalize (c.skipBlanks.skip 1).skipBlanks = d at after solid
    rcases AttributeValue.written_read o d with ⟨none, same, ends⟩ | ⟨i, raw, written, value⟩
    · rw [none, same]
      refine .missing before (beq_iff_eq.mp equals) after ?_
      cases text : d.rest <;> simp_all
    · rw [value]
      exact .written before (beq_iff_eq.mp equals) after written
  · next other =>
    refine .absent fun m gap head => other ?_
    rw [gap.skipBlanks_eq (by rw [head]; rfl), head]
    rfl

theorem isName_nameAt {x : Char} {s : List Char} (solid : Tag.isBreak x = false) :
    IsName (nameAt (x :: s)) where
  nonempty := List.cons_ne_nil _ _
  solid := by
    have all : ∀ y ∈ nameAt (x :: s), Tag.isBreak y = false := by
      rw [nameAt, List.forall_mem_cons]
      refine ⟨solid, fun y member => ?_⟩
      have := List.all_eq_true.mp List.all_takeWhile y member
      simp_all
    intro y member
    simpa [Tag.isBreak, and_assoc] using all y member
  equals := by
    intro member
    simpa using List.all_eq_true.mp List.all_takeWhile '=' member

theorem stands_read (vPre : Bool) (seen : List (List Char)) {x : Char} {s : List Char}
    (text : c.rest = x :: s) (solid : Tag.isBreak x = false) :
    (read o vPre seen c).value.Stands o c (read o vPre seen c).cursor := by
  obtain ⟨name, loc, carries⟩ := value_read o vPre seen c
  have starts : nameAt c.rest <+: c.rest := by
    rw [text, nameAt]
    exact List.cons_prefix_cons.mpr ⟨rfl, List.takeWhile_prefix _⟩
  refine ⟨reaches_read o vPre seen c, loc, ?_, ?_, ?_, ?_⟩
  · rw [name]
    exact starts
  · rw [name, text]
    exact isName_nameAt solid
  · rw [name, Cursor.rest_skip, text, nameAt]
    simpa using Text.head?_dropWhile_all (p := fun d => !(Tag.isBreak d || d == '=')) s
  · rw [name, cursor_read]
    exact ⟨_, valueAt_readValue o _, carries⟩

/-! ## The errors of a list -/

/-- The errors of an attribute that are neither about its value nor about a directive are those of
    its name. -/
theorem filter_read (o : Options) (vPre : Bool) (seen : List (List Char)) (c : Cursor)
    {code : ErrorCode} (value : code.isAboutValue = false)
    (directive : code.isAboutDirective = false) :
    (read o vPre seen c).log.errors.filter (·.code == code) =
      (nameErrors seen (nameAt c.rest) c).filter (·.code == code) := by
  obtain ⟨log, whole, errors, _⟩ := log_read o vPre seen c
  have values := (log_readValue o (c.skip (nameAt c.rest).length)).1.filter_code value
  have directives := errors.filter_code directive
  simp [whole, values, directives]

theorem filter_nameErrors_duplicate (seen : List (List Char)) (name : List Char) (c : Cursor) :
    (nameErrors seen name c).filter (·.code == .duplicateAttribute) =
      if seen.contains name then [.at .duplicateAttribute c.position] else [] := by
  unfold nameErrors
  split <;> split <;> simp

/-- What is known of an attribute list that was read from `c` on, behind the names `seen`. -/
structure Lists (o : Options) (seen : List (List Char)) (c : Cursor)
    (r : Reading (List Property)) (marks : List Position) : Prop where
  tiles : Tiles o c r.value r.cursor marks
  solidi : r.log.errors.filter (·.code == .unexpectedSolidusInTag) =
    marks.map (.at .unexpectedSolidusInTag)
  duplicates : r.log.errors.filter (·.code == .duplicateAttribute) =
    (repeated seen r.value).map fun p => .at .duplicateAttribute p.loc.start

theorem Lists.nil (o : Options) (seen : List (List Char)) (c : Cursor) :
    Lists o seen c ⟨[], c, .empty⟩ [] :=
  ⟨.nil (.nil c), rfl, rfl⟩

/-- One turn of the loop puts a solidus or an attribute, with the blanks behind it, in front of what
    the other turns read. -/
theorem lists_readAll (o : Options) (vPre : Bool) (seen : List (List Char)) (c : Cursor)
    (start : c.rest.head?.all (fun x => !Text.isBlank x) = true) :
    ∃ marks, Lists o seen c (readAll o .opening vPre seen c) marks := by
  fun_induction readAll o .opening vPre seen c with
  | case1 seen c => exact ⟨[], .nil o seen c⟩
  | case2 seen c => exact ⟨[], .nil o seen c⟩
  | case3 seen c => exact ⟨[], .nil o seen c⟩
  | case4 seen c s _ text r ih =>
      obtain ⟨marks, tiles, solidi, duplicates⟩ := ih (Cursor.head?_skipBlanks _)
      have gap : c.Gap (c.skip 1).skipBlanks [c.position] := .solidus text (c.skip 1).gap_skipBlanks
      refine ⟨[c.position] ++ marks, tiles.behind gap, ?_, ?_⟩
      · simpa using solidi
      · simpa using duplicates
  | case5 seen c x s bracket _ solidus text a r atEndTag ih =>
      obtain ⟨marks, tiles, solidi, duplicates⟩ := ih (Cursor.head?_skipBlanks _)
      have solid : Tag.isBreak x = false := by
        simp_all [Tag.isBreak]
      have stands := stands_read (o := o) vPre seen text solid
      have first : a.value.loc.start = c.position := by
        rw [stands.loc]
        rfl
      have name : a.value.rawName = nameAt c.rest := (value_read o vPre seen c).1
      -- Neither of the two errors is about a value, a directive or the blank that is missing, so
      -- only the name of this attribute and the rest of the list can be to blame.
      have errors : ∀ code : ErrorCode, code.isAboutValue = false → code.isAboutDirective = false →
          (code == .missingWhitespaceBetweenAttributes) = false →
          (atEndTag ++ (a.log ++ (.ofErrors (spacingErrors a.cursor) ++ r.log))).errors.filter
              (·.code == code) =
            (nameErrors seen a.value.rawName c).filter (·.code == code) ++
              r.log.errors.filter (·.code == code) := by
        intro code value directive spacing
        rw [name, ← filter_read o vPre seen c value directive]
        simp [a, atEndTag, (allOf_spacingErrors a.cursor).filter_code spacing]
      refine ⟨[] ++ ([] ++ marks), .cons (.nil c) stands (tiles.behind a.cursor.gap_skipBlanks),
        ?_, ?_⟩
      · rw [errors .unexpectedSolidusInTag rfl rfl rfl, solidi,
          (allOf_nameErrors seen c a.value.rawName).filter_code rfl]
        rfl
      · rw [errors .duplicateAttribute rfl rfl rfl, duplicates, filter_nameErrors_duplicate,
          ← first]
        simp only [if_true, repeated]
        split <;> rfl

end Property

open Property in
/-- Nothing of an attribute list is lost, however it is read. It goes on to the end of the tag or of
    the template. What is read of it are its attributes, each in its place, with a name and perhaps
    a value that stand there, and between them only blanks and solidi. Each of these solidi is
    reported once, and so is each attribute whose name is that of an earlier one. -/
theorem readAll_tiles (o : Options) (vPre : Bool) (c : Cursor)
    (start : c.rest.head?.all (fun x => !Text.isBlank x) = true) :
    let r := readAll o .opening vPre [] c
    (r.cursor.rest = [] ∨ ['>'] <+: r.cursor.rest ∨ ['/', '>'] <+: r.cursor.rest) ∧
      ∃ marks, Tiles o c r.value r.cursor marks ∧
        r.log.errors.filter (·.code == .unexpectedSolidusInTag) =
          marks.map (.at .unexpectedSolidusInTag) ∧
        r.log.errors.filter (·.code == .duplicateAttribute) =
          (repeated [] r.value).map fun p => .at .duplicateAttribute p.loc.start := by
  intro r
  obtain ⟨marks, tiles, solidi, duplicates⟩ := lists_readAll o vPre [] c start
  exact ⟨stops_readAll o .opening vPre [] c, marks, tiles, solidi, duplicates⟩

open Property in
/-- A list with a value of each kind, two solidi, a name that starts with an equals sign and one
    that is there twice. -/
theorem readAll_tiles_mixed :
    let c := Cursor.ofText "class = ' p  q'/a=1&lt; / =b a=\"/>".toList
    let r := readAll .base .opening false [] c
    c.rest.head?.all (fun x => !Text.isBlank x) = true ∧
      r.value.map rawName = ["class", "a", "=b", "a"].map String.toList ∧ r.cursor.rest = [] ∧
      ∃ marks, marks.length = 2 ∧ Tiles .base c r.value r.cursor marks ∧
        (repeated [] r.value).map (·.loc.start.offset) = [29] := by
  intro c r
  have start : c.rest.head?.all (fun x => !Text.isBlank x) = true := by decide
  obtain ⟨_, marks, tiles, solidi, _⟩ := readAll_tiles .base false c start
  have two : marks.length = 2 := by
    rw [← List.length_map (f := ParseError.at .unexpectedSolidusInTag), ← solidi]
    decide +kernel
  exact ⟨start, by decide +kernel, by decide +kernel, marks, two, tiles, by decide +kernel⟩

end Stencil
