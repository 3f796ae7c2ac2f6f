import Stencil.Proofs.Bytewise.Directive
import Stencil.Proofs.Bytewise.Mark
import Stencil.Read.Progress

/-! # Tags by bytes

Scans attributes, attribute lists and whole tags. A start tag with the directive `pre` is scanned
again from the start of its attribute list, and what was reported until then is forgotten.
-/

namespace Stencil

namespace Scanner

section

variable (source : List Char) (o : Options)

/-- Scans an attribute. Under `vPre` there are no directives. -/
def property (vPre : Bool) (seen : List (List Char)) : Scanner Property := do
  let start ← position
  let rest ← rest source
  let first := rest.head?.elim 0 Char.utf8Size
  let tail ← Checked.bytesFrom (Text.bytes rest) first
  let limit ← Checked.sub (Text.byteLength rest) first
  let n := first + (tail.findIdx? (Text.ofByte fun c => Tag.isBreak c || c == '=')).getD limit
  let name ← Checked.ofFault (Text.cut rest 0 n)
  reportIf source (seen.contains name = true) .duplicateAttribute 0
  reportIf source ((name.head? == some '=') = true) .unexpectedEqualsSignBeforeAttributeName 0
  reportEach source .unexpectedCharacterInAttributeName (Text.ofByte Property.isUnexpected) 0
    (Text.bytes name)
  advance source n
  let nameLoc ← selection source start
  let value ← propertyValue source o
  let loc ← selection source start
  if !vPre && DirectiveName.isDirectiveName name then
    return .directive (← directive source o start name value loc)
  else
    reportIf source ((!vPre && ['v', '-'].isPrefixOf name) = true) .missingDirectiveName 0
    return .attribute (Property.plain name nameLoc loc value)

/-- Scans attributes up to the end of the tag or of the template, after those in `props`. The loop
    comes round at most `n` times. -/
def attributes (kind : TagKind) (vPre : Bool) :
    (n : Nat) → (seen : List (List Char)) → (props : List Property) → Scanner (List Property)
  | 0, _, _ => throw .endless
  | n + 1, seen, props => do
    let ends := (← atEnd source) || (← startsWith source ['>']) || (← startsWith source ['/', '>'])
    let isSolidus ← startsWith source ['/']
    if ends then return props
    else if isSolidus then
      report source .unexpectedSolidusInTag 0
      advance source 1
      advanceBlanks source
      attributes kind vPre n seen props
    else
      reportIf source (kind = .closing) .endTagWithAttributes 0
      let prop ← property source o vPre seen
      let next ← peek source 0
      reportIf source (next.any (Text.ofByte fun c => !Tag.isBreak c) = true)
        .missingWhitespaceBetweenAttributes 0
      advanceBlanks source
      attributes kind vPre n (prop.rawName :: seen)
        (if kind = .opening then props ++ [prop] else props)

/-- Scans the end of a tag, after its attributes. -/
def tagEnd (kind : TagKind) : Scanner Bool := do
  let ends ← atEnd source
  let isSelfClosing ← startsWith source ['/', '>']
  if ends then
    report source .eofInTag 0
    return false
  else
    reportIf source (kind = .closing ∧ isSelfClosing = true) .endTagWithTrailingSolidus 0
    advance source (if isSelfClosing then 2 else 1)
    return isSelfClosing

/-- Forgets what was reported after the first errors and warnings. -/
def truncate (errors warnings : Nat) : Scanner Unit :=
  modify fun s => { s with log := ⟨s.log.errors.take errors, s.log.warnings.take warnings⟩ }

/-- Scans the attribute list once more from its start, without directives. -/
def attributesAgain (kind : TagKind) (before : Scan) : Scanner (List Property) := do
  reset before.position
  truncate before.log.errors.length before.log.warnings.length
  let props ← attributes source o kind true (Text.byteLength source + 1) [] []
  return props.filter fun p => p.name != "v-pre".toList

/-- Scans a tag. -/
def tag (kind : TagKind) (vPre : Bool) : Scanner Tag := do
  let rest ← rest source
  let mark := Tag.markLength kind
  let tail ← Checked.bytesFrom (Text.bytes rest) mark
  let limit ← Checked.sub (Text.byteLength rest) mark
  let n := (tail.findIdx? (Text.ofByte Tag.isBreak)).getD limit
  let name ← Checked.ofFault (Text.cut rest mark (mark + n))
  advance source (mark + n)
  advanceBlanks source
  let before ← get
  let first ← attributes source o kind vPre (Text.byteLength source + 1) [] []
  let startsVPre := Tag.startsVPreWith kind vPre first
  let props ← if startsVPre then attributesAgain source o kind before else pure first
  let isSelfClosing ← tagEnd source kind
  return ⟨name, props, isSelfClosing, startsVPre⟩

end

end Scanner

/-! ## Names -/

namespace Property

/-- The number of bytes of an attribute name is that of its first character and what a search for
    its end finds after that. -/
theorem byteLength_nameAt (s : List Char) :
    Text.byteLength (s.take 1) +
      ((Text.bytes (s.drop 1)).findIdx? (Text.ofByte fun c => Tag.isBreak c || c == '=')).getD
        (Text.byteLength (s.drop 1)) = Text.byteLength (nameAt s) := by
  have ascii := Tag.isAscii_isBreak.or (.beq (d := '=') (by decide))
  cases s with
  | nil => rfl
  | cons x t =>
      rw [Text.getD_findIdx?_bytes ascii]
      rfl

theorem nameAt_prefix (s : List Char) : nameAt s <+: s := by
  cases s with
  | nil => exact List.nil_prefix
  | cons x t => exact List.cons_prefix_cons.mpr ⟨rfl, List.takeWhile_prefix _⟩

theorem isUnexpected_eq_false (x : Char) (large : 128 ≤ x.toNat) : isUnexpected x = false := by
  simp only [isUnexpected, Text.beq_eq_false large (d := '\x22') (by decide),
    Text.beq_eq_false large (d := '\x27') (by decide),
    Text.beq_eq_false large (d := '<') (by decide), Bool.or_self]

end Property

/-! ## Attributes -/

theorem Log.ofErrors_ite (p : Prop) [Decidable p] (code : ErrorCode) (q : Position) :
    ofErrors (if p then [.at code q] else []) = if p then .error code q else .empty := by
  split <;> rfl

theorem Property.spacingErrors_eq (c : Cursor) :
    spacingErrors c =
      if (Text.bytes c.rest)[0]?.any (Text.ofByte fun x => !Tag.isBreak x) = true then
        [.at .missingWhitespaceBetweenAttributes c.position] else [] := by
  rw [Scanner.any_head_bytes Tag.isAscii_isBreak.not, spacingErrors]
  cases c.rest with
  | nil => rfl
  | cons x t => cases answer : Tag.isBreak x <;> simp [answer]

namespace Scanner

variable {source : List Char} {o : Options} {c : Cursor}

theorem property_performs (h : c.Within source) (o : Options) (vPre : Bool)
    (seen : List (List Char)) :
    (property source o vPre seen).Performs c (Property.read o vPre seen c) := by
  intro log
  have named := Property.nameAt_prefix c.rest
  have length := (Text.byteLength_take_of_prefix named).symm
  have cut := Text.cut_zero c.rest (Property.nameAt c.rest).length
  rw [← List.prefix_iff_eq_take.mp named] at cut
  have step := advance_run h (Property.nameAt c.rest).length
  rw [← length] at step
  have afterName := h.skip (Property.nameAt c.rest).length
  have value := propertyValue_performs afterName o
  have whole := (c.reaches_skip (Property.nameAt c.rest).length).trans
    (Property.reaches_readValue o _)
  simp only [property, StateT.run_bind, position, StateT.run_get, StateT.run_pure, pure_bind,
    rest_run h, Text.head_utf8Size, Checked.bytesFrom_take, Checked.sub_take,
    Property.byteLength_nameAt, cut, Checked.ofFault, StateT.run_monadLift,
    monadLift_self, reportIf_zero_run h,
    reportEach_zero_run h _ Property.isUnexpected_eq_false named, step,
    selection_run h (c.reaches_skip _), value _, selection_run h whole, Property.read]
  split
  · simp only [StateT.run_bind, directive_run h whole o named, pure_bind, StateT.run_pure,
      Property.nameErrors, Log.ofErrors_append, Log.append_assoc]
  · simp only [StateT.run_bind, reportIf_zero_run (h.of_reaches whole), pure_bind, StateT.run_pure,
      Property.nameErrors, Log.ofErrors_append, Log.ofErrors_ite, Log.append_assoc]

/-- An attribute list is scanned as it is read. Each turn consumes a character, so that one round
    more than there are characters is enough. -/
theorem attributes_run (h : c.Within source) (o : Options) (kind : TagKind) (vPre : Bool)
    (seen : List (List Char)) (props : List Property) (n : Nat) (rounds : c.rest.length ≤ n)
    (log : Log) :
    (attributes source o kind vPre (n + 1) seen props).run ⟨c.position, log⟩ =
      pure (props ++ (Property.readAll o kind vPre seen c).value,
        ⟨(Property.readAll o kind vPre seen c).cursor.position,
          log ++ (Property.readAll o kind vPre seen c).log⟩) := by
  fun_induction Property.readAll o kind vPre seen c generalizing props n log with
  | case1 seen c rest =>
      rw [attributes]
      simp [atEnd_run h, startsWith_run h, Cursor.atEnd, rest]
  | case2 seen c t rest =>
      rw [attributes]
      simp [atEnd_run h, startsWith_run h, Cursor.atEnd, Cursor.startsWith, rest]
  | case3 seen c t rest =>
      rw [attributes]
      simp [atEnd_run h, startsWith_run h, Cursor.atEnd, Cursor.startsWith, rest]
  | case4 seen c t other rest r ih =>
      have solidus : ['/'] <+: c.rest := ⟨t, rest.symm⟩
      have step := advance_ascii_run h solidus (by decide)
        (log ++ .error .unexpectedSolidusInTag c.position)
      have open' : ['>'].isPrefixOf t = false := by
        cases starts : ['>'].isPrefixOf t with
        | false => rfl
        | true =>
            obtain ⟨u, text⟩ := List.isPrefixOf_iff_prefix.mp starts
            exact absurd text.symm (other u)
      change (advance source 1).run _ = _ at step
      have fewer : (c.skip 1).skipBlanks.rest.length < c.rest.length :=
        Cursor.length_lt_of_skip_reaches (by simp [rest]) Nat.one_pos
          (c.skip 1).reaches_skipBlanks
      obtain ⟨n, rfl⟩ : ∃ m, n = m + 1 := Nat.exists_eq_add_of_le' (by omega)
      have later := ih (h.skip 1).skipBlanks props n (by omega)
      rw [attributes]
      simp [atEnd_run h, startsWith_run h, Cursor.atEnd, Cursor.startsWith, rest, open',
        report_zero_run h, step, advanceBlanks_run (h.skip 1), later, Log.append_assoc, r]
  | case5 seen c x t first _ second rest a r atEndTag ih =>
      have after := h.of_reaches (Property.reaches_read o vPre seen c)
      have close : ('>' == x) = false := beq_eq_false_iff_ne.mpr fun same => first same.symm
      have solidus : ('/' == x) = false := beq_eq_false_iff_ne.mpr fun same => second same.symm
      have fewer : a.cursor.rest.length < c.rest.length :=
        Property.length_read_lt o vPre seen c (by simp [rest])
      have blanks := a.cursor.reaches_skipBlanks.length_le
      obtain ⟨n, rfl⟩ : ∃ m, n = m + 1 := Nat.exists_eq_add_of_le' (by omega)
      rw [attributes]
      simp only [StateT.run_bind, atEnd_run h, startsWith_run h, Cursor.atEnd, Cursor.startsWith,
        rest, pure_bind, List.isEmpty_cons, List.isPrefixOf, close, solidus, Bool.false_and,
        Bool.or_self, Bool.false_eq_true, if_false, reportIf_zero_run h,
        property_performs h o vPre seen _, peek_run after, reportIf_zero_run after,
        ← Property.spacingErrors_eq, advanceBlanks_run after]
      refine (ih after.skipBlanks _ n (by omega) _).trans ?_
      have kept : (if kind = .opening then props ++ [a.value] else props) ++ r.value =
          props ++ if kind = .opening then a.value :: r.value else r.value := by
        split <;> simp
      have reported : log ++ atEndTag ++ a.log ++ .ofErrors (Property.spacingErrors a.cursor) ++
          r.log = log ++ (atEndTag ++ (a.log ++
            (.ofErrors (Property.spacingErrors a.cursor) ++ r.log))) := by
        simp only [Log.append_assoc]
      rw [← kept, ← reported]
      rfl

end Scanner

/-! ## Whole tags -/

/-- What the tags of a kind start with. -/
def Tag.mark : TagKind → List Char
  | .opening => ['<']
  | .closing => ['<', '/']

/-- An attribute list goes on to the end of its tag, or of the template. -/
theorem Property.stops_readAll (o : Options) (kind : TagKind) (vPre : Bool)
    (seen : List (List Char)) (c : Cursor) :
    (readAll o kind vPre seen c).cursor.rest = [] ∨
      ['>'] <+: (readAll o kind vPre seen c).cursor.rest ∨
      ['/', '>'] <+: (readAll o kind vPre seen c).cursor.rest := by
  fun_induction readAll o kind vPre seen c with
  | case1 seen c rest => exact .inl rest
  | case2 seen c t rest => exact .inr (.inl ⟨t, rest.symm⟩)
  | case3 seen c t rest => exact .inr (.inr ⟨t, rest.symm⟩)
  | case4 seen c t other rest r ih => exact ih
  | case5 seen c x t first _ second rest a r atEndTag ih => exact ih

namespace Scanner

variable {source : List Char} {o : Options} {c : Cursor}

theorem tagEnd_performs (h : c.Within source) (kind : TagKind)
    (stops : c.rest = [] ∨ ['>'] <+: c.rest ∨ ['/', '>'] <+: c.rest) :
    (tagEnd source kind).Performs c (Tag.readEnd kind c) := by
  intro log
  rcases stops with rest | ⟨t, rest⟩ | ⟨t, rest⟩
  · simp [tagEnd, atEnd_run h, startsWith_run h, Cursor.atEnd, rest, report_zero_run h,
      Tag.readEnd]
  · have step : (advance source 1).run ⟨c.position, log⟩ = pure ((), ⟨(c.skip 1).position, log⟩) :=
      advance_ascii_run h (a := ['>']) ⟨t, rest⟩ (by decide) log
    simp [tagEnd, atEnd_run h, startsWith_run h, Cursor.atEnd, Cursor.startsWith, ← rest,
      List.isPrefixOf, reportIf, step, Tag.readEnd]
  · have step := advance_ascii_run h (a := ['/', '>']) ⟨t, rest⟩ (by decide)
    change ∀ log, (advance source 2).run ⟨c.position, log⟩ = _ at step
    simp [tagEnd, atEnd_run h, startsWith_run h, Cursor.atEnd, Cursor.startsWith, ← rest,
      reportIf_zero_run h, step, Tag.readEnd, Log.ofErrors_ite]

theorem truncate_run (p : Position) (log later : Log) :
    (truncate log.errors.length log.warnings.length).run ⟨p, log ++ later⟩ =
      pure ((), ⟨p, log⟩) := by
  have errors : (log ++ later).errors = log.errors ++ later.errors := rfl
  have warnings : (log ++ later).warnings = log.warnings ++ later.warnings := rfl
  simp [truncate, errors, warnings]

theorem tag_performs (h : c.Within source) (o : Options) (kind : TagKind) (vPre : Bool)
    (starts : Tag.mark kind <+: c.rest) :
    (tag source o kind vPre).Performs c (Tag.read o kind vPre c) := by
  intro log
  have mark : Tag.markLength kind = Text.byteLength (c.rest.take (Tag.markLength kind)) := by
    cases kind with
    | opening => exact (Text.byteLength_take_of_prefix starts).symm
    | closing => exact (Text.byteLength_take_of_prefix starts).symm
  have name := Text.getD_findIdx?_bytes Tag.isAscii_isBreak (c.rest.drop (Tag.markLength kind))
  change _ = Text.byteLength (Tag.nameAt kind c.rest) at name
  have named : Tag.nameAt kind c.rest <+: c.rest.drop (Tag.markLength kind) :=
    List.takeWhile_prefix _
  have length := Text.byteLength_take_add_length named
  rw [← mark] at length
  have cut := Text.cut_take c.rest
    (Nat.le_add_right (Tag.markLength kind) (Tag.nameAt kind c.rest).length)
  rw [← mark, length, List.drop_take, Nat.add_sub_cancel_left,
    ← List.prefix_iff_eq_take.mp named] at cut
  have step := advance_run h (Tag.markLength kind + (Tag.nameAt kind c.rest).length) log
  rw [length] at step
  have tail := Checked.bytesFrom_take c.rest (Tag.markLength kind)
  have limit := Checked.sub_take c.rest (Tag.markLength kind)
  rw [← mark] at tail limit
  have list : (Tag.attributesAt kind c).Within source := (h.skip _).skipBlanks
  have blanks : (advanceBlanks source).run
      ⟨(c.skip (Tag.markLength kind + (Tag.nameAt kind c.rest).length)).position, log⟩ =
      pure ((), ⟨(Tag.attributesAt kind c).position, log⟩) :=
    advanceBlanks_run (h.skip _) log
  simp only [tag, StateT.run_bind, rest_run h, pure_bind, tail, limit, StateT.run_monadLift,
    monadLift_self, name, cut, Checked.ofFault, step, blanks, StateT.run_get,
    attributes_run list _ _ _ _ _ _ list.length_rest_le, Tag.read, List.nil_append]
  have last := fun vPre => tagEnd_performs
    (list.of_reaches (Tag.reaches_readAll o kind vPre [] _)) kind
    (Property.stops_readAll o kind vPre [] _)
  split
  · simp only [attributesAgain, StateT.run_bind, reset, StateT.run_modify, pure_bind,
      truncate_run, attributes_run list _ _ _ _ _ _ list.length_rest_le, StateT.run_pure,
      List.nil_append, last _ _, Log.append_assoc]
  · simp only [StateT.run_bind, pure_bind, last _ _, StateT.run_pure, Log.append_assoc]

end Scanner

end Stencil
