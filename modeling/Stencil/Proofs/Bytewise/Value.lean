import Stencil.Proofs.Bytewise.Leaf
import Stencil.Read.Attribute

/-! # Attribute values by bytes

Scans what follows the name of an attribute: the equals sign and the value, with or without quotes.
Characters that should not be there are reported byte by byte, which is right because they all have
one byte.
-/

namespace Stencil

namespace Checked

/-- The byte at a place. -/
def byteAt (bs : List UInt8) (n : Nat) : Checked UInt8 :=
  match bs[n]? with
  | some b => pure b
  | none => throw .outOfRange

end Checked

namespace Scanner

section

variable (source : List Char) (o : Options)

/-- Reports an error at each byte that satisfies a test, the first one being `i` bytes ahead. -/
def reportEach (code : ErrorCode) (test : UInt8 → Bool) (i : Nat) : List UInt8 → Scanner Unit
  | [] => return ()
  | b :: bs => do
    reportIf source (test b = true) code i
    reportEach code test (i + 1) bs

/-- Consumes `n` bytes under a condition. -/
def advanceIf (p : Prop) [Decidable p] (n : Nat) : Scanner Unit :=
  if p then advance source n else return ()

/-- Scans a value between quotes. -/
def quotedValue (quote : Char) : Scanner (Option AttributeValue) := do
  let start ← position
  advance source 1
  let innerStart ← position
  let rest ← rest source
  let close := (Text.bytes rest).findIdx? (Text.ofByte (· == quote))
  let content ← textData source o .attributeValue (close.getD (Text.byteLength rest))
  let inner ← selection source innerStart
  advanceIf source (close.isSome = true) 1
  return some ⟨content, ← selection source start, inner⟩

/-- Scans a value without quotes. -/
def unquotedValue : Scanner (Option AttributeValue) := do
  let start ← position
  let rest ← rest source
  let n := ((Text.bytes rest).findIdx? (Text.ofByte fun c => Text.isBlank c || c == '>')).getD
    (Text.byteLength rest)
  if n = 0 then return none
  else
    let raw ← Checked.ofFault (Text.cut rest 0 n)
    reportEach source .unexpectedCharacterInUnquotedAttributeValue
      (Text.ofByte AttributeValue.isUnexpected) 0 (Text.bytes raw)
    let content ← textData source o .attributeValue n
    let loc ← selection source start
    return some ⟨content, loc, loc⟩

/-- Scans a value. -/
def attributeValue : Scanner (Option AttributeValue) := do
  let first ← peek source 0
  if first.any (Text.ofByte (· == '\x22')) then quotedValue source o '\x22'
  else if first.any (Text.ofByte (· == '\x27')) then quotedValue source o '\x27'
  else unquotedValue source o

/-- Scans the equals sign and the value that may follow a name. -/
def propertyValue : Scanner (Option AttributeValue) := do
  let rest ← rest source
  match (Text.bytes rest).findIdx? (Text.ofByte fun c => !Text.isBlank c) with
  | none => return none
  | some i =>
    if Text.ofByte (· == '=') (← Checked.byteAt (Text.bytes rest) i) then
      advanceBlanks source
      advance source 1
      advanceBlanks source
      let value ← attributeValue source o
      reportIf source (value.isNone = true) .missingAttributeValue 0
      return value
    else return none

end

variable {source : List Char} {o : Options} {c : Cursor}

/-! ## Reports byte by byte -/

theorem reportEach_append {code : ErrorCode} {test : UInt8 → Bool} {xs : List UInt8}
    (fails : ∀ b ∈ xs, test b = false) (i : Nat) (ys : List UInt8) :
    reportEach source code test i (xs ++ ys) =
      reportEach source code test (i + xs.length) ys := by
  induction xs generalizing i with
  | nil => rfl
  | cons b xs ih =>
      rw [List.cons_append, reportEach, ih (fun x hx => fails x (by simp [hx])), reportIf,
        if_neg (by rw [fails b (by simp)]; exact Bool.false_ne_true), pure_bind, List.length_cons,
        Nat.add_assoc, Nat.add_comm 1]

/-- Reports made byte by byte are those made character by character. -/
theorem reportEach_run (h : c.Within source) (code : ErrorCode) {test : Char → Bool}
    (ascii : ∀ x : Char, 128 ≤ x.toNat → test x = false) {k : Nat} {s : List Char}
    (text : s <+: c.rest.drop k) (log : Log) :
    (reportEach source code (Text.ofByte test) (Text.byteLength (c.rest.take k))
      (Text.bytes s)).run ⟨c.position, log⟩ =
      pure ((), ⟨c.position, log ++ .ofErrors ((Text.indexesFrom k test s).map
        fun i => .at code (c.ahead i))⟩) := by
  induction s generalizing k log with
  | nil =>
      rw [Text.indexesFrom, List.map_nil, Log.ofErrors_nil, Log.append_empty]
      rfl
  | cons x s ih =>
      obtain ⟨t, rest⟩ := text
      have next : s <+: c.rest.drop (k + 1) := by
        rw [← List.drop_drop, ← rest]
        exact ⟨t, rfl⟩
      have width : Text.byteLength (c.rest.take k) + x.utf8Size =
          Text.byteLength (c.rest.take (k + 1)) := by
        rw [List.take_add, ← rest, Text.byteLength_append]
        rfl
      cases answer : test x with
      | true =>
          have small : x.toNat < 128 := by
            refine Nat.lt_of_not_le fun large => ?_
            rw [ascii x large] at answer
            cases answer
          rw [Text.utf8Size_eq_one small] at width
          rw [Text.bytes_cons, Text.utf8EncodeChar_of_lt small, List.singleton_append, reportEach,
            Text.ofByte_ofNat _ small, StateT.run_bind, reportIf_run h, pure_bind, width, ih next,
            Text.indexesFrom, answer, if_pos rfl, if_pos rfl, List.map_cons, Log.append_assoc]
          rfl
      | false =>
          have fails : ∀ b ∈ String.utf8EncodeChar x, Text.ofByte test b = false := by
            intro b hb
            rw [Text.ofByte_of_mem ⟨false, ascii⟩ hb, answer]
          rw [Text.bytes_cons, reportEach_append fails, String.length_utf8EncodeChar, width,
            ih next, Text.indexesFrom, answer]
          rfl

theorem reportEach_zero_run (h : c.Within source) (code : ErrorCode) {test : Char → Bool}
    (ascii : ∀ x : Char, 128 ≤ x.toNat → test x = false) {s : List Char} (text : s <+: c.rest)
    (log : Log) :
    (reportEach source code (Text.ofByte test) 0 (Text.bytes s)).run ⟨c.position, log⟩ =
      pure ((), ⟨c.position, log ++ .ofErrors ((Text.indexes test s).map
        fun i => .at code (c.ahead i))⟩) :=
  reportEach_run h code ascii (k := 0) text log

/-! ## Values -/

/-- The closing quote is consumed if there is one, and then it follows the value. -/
theorem closingQuote_run (h : c.Within source) {quote : Char} (ascii : quote.toNat < 128)
    (log : Log) :
    (advanceIf source (((Text.bytes c.rest).findIdx? (Text.ofByte (· == quote))).isSome = true)
      1).run ⟨(c.skip (c.rest.takeWhile fun x => !(x == quote)).length).position, log⟩ =
      pure ((), ⟨((c.skip (c.rest.takeWhile fun x => !(x == quote)).length).skip 1).position,
        log⟩) := by
  rw [Text.findIdx?_bytes (.beq ascii), advanceIf]
  cases found : c.rest.any (· == quote) with
  | true =>
      obtain ⟨x, t, rest, same⟩ := Text.exists_drop_takeWhile found
      have close : [quote] <+: (c.skip (c.rest.takeWhile fun x => !(x == quote)).length).rest := by
        rw [Cursor.rest_skip, rest, ← beq_iff_eq.mp same]
        exact ⟨t, rfl⟩
      exact advance_ascii_run (h.skip _) close (by simpa [Text.AllAscii] using ascii) log
  | false =>
      rw [Text.takeWhile_eq_self found]
      simp [Cursor.skip]

theorem quotedValue_performs (h : c.Within source) (o : Options) {quote : Char}
    (ascii : quote.toNat < 128) (starts : [quote] <+: c.rest) :
    (quotedValue source o quote).Performs c (AttributeValue.readQuoted o quote c) := by
  intro log
  have inner := h.skip 1
  have mark : (advance source 1).run ⟨c.position, log⟩ = pure ((), ⟨(c.skip 1).position, log⟩) :=
    advance_ascii_run h starts (by simpa [Text.AllAscii] using ascii) log
  have length := Text.getD_findIdx?_bytes (.beq ascii) (c.skip 1).rest
  have whole := ((c.reaches_skip 1).trans ((c.skip 1).reaches_skip
    ((c.skip 1).rest.takeWhile fun x => !(x == quote)).length)).trans (Cursor.reaches_skip _ 1)
  simp only [quotedValue, StateT.run_bind, position, StateT.run_get, pure_bind, StateT.run_pure,
    mark, rest_run inner, length, textData_takeWhile_run inner,
    selection_run inner (Cursor.reaches_skip _ _), closingQuote_run inner ascii,
    selection_run h whole, AttributeValue.readQuoted, bne, Log.append_empty]

theorem unquotedValue_performs (h : c.Within source) (o : Options) :
    (unquotedValue source o).Performs c (AttributeValue.readUnquoted o c) := by
  intro log
  have ascii : Text.IsAscii fun x => Text.isBlank x || x == '>' :=
    Text.IsAscii.isBlank.or (.beq (by decide))
  have length := Text.getD_findIdx?_bytes ascii c.rest
  have raw := Text.take_length_takeWhile AttributeValue.isUnquoted c.rest
  have name : (fun x => !(Text.isBlank x || x == '>')) = AttributeValue.isUnquoted := rfl
  rw [name] at length
  simp only [unquotedValue, StateT.run_bind, position, StateT.run_get, pure_bind, StateT.run_pure,
    rest_run h, length, AttributeValue.readUnquoted]
  cases empty : (c.rest.takeWhile AttributeValue.isUnquoted).isEmpty with
  | true =>
      have none : Text.byteLength (c.rest.takeWhile AttributeValue.isUnquoted) = 0 := by
        rw [List.isEmpty_iff.mp empty, Text.byteLength_nil]
      simp [none]
  | false =>
      have some : Text.byteLength (c.rest.takeWhile AttributeValue.isUnquoted) ≠ 0 := by
        intro zero
        rw [Text.byteLength_eq_zero zero] at empty
        cases empty
      have cut := Text.cut_zero c.rest (c.rest.takeWhile AttributeValue.isUnquoted).length
      rw [raw] at cut
      have unexpected : ∀ x : Char, 128 ≤ x.toNat → AttributeValue.isUnexpected x = false := by
        intro x large
        simp only [AttributeValue.isUnexpected, Text.beq_eq_false large (d := '\x22') (by decide),
          Text.beq_eq_false large (d := '\x27') (by decide),
          Text.beq_eq_false large (d := '<') (by decide),
          Text.beq_eq_false large (d := '=') (by decide),
          Text.beq_eq_false large (d := '\x60') (by decide), Bool.or_self]
      have reports := reportEach_zero_run h .unexpectedCharacterInUnquotedAttributeValue unexpected
        (List.takeWhile_prefix AttributeValue.isUnquoted) log
      simp only [some, if_false, StateT.run_bind, cut, Checked.ofFault, StateT.run_monadLift,
        monadLift_self, pure_bind, reports, textData_takeWhile_run h,
        selection_run h (c.reaches_skip _), StateT.run_pure]
      rfl

/-- A test of the first byte is one of the first character. -/
theorem any_head_bytes {test : Char → Bool} (ascii : Text.IsAscii test) (s : List Char) :
    (Text.bytes s)[0]?.any (Text.ofByte test) = s.head?.any test := by
  cases s with
  | nil => rfl
  | cons x t =>
      obtain ⟨b, first, answers⟩ := Text.exists_head_bytes x t
      simp [first, answers test ascii]

theorem prefix_of_head? {d : Char} {s : List Char} (h : s.head?.any (· == d) = true) :
    [d] <+: s := by
  cases s with
  | nil => cases h
  | cons x t => exact ⟨t, by rw [← beq_iff_eq.mp h]; rfl⟩

theorem read_eq (o : Options) (c : Cursor) :
    AttributeValue.read o c =
      if c.rest.head?.any (· == '\x22') then AttributeValue.readQuoted o '\x22' c
      else if c.rest.head?.any (· == '\x27') then AttributeValue.readQuoted o '\x27' c
      else AttributeValue.readUnquoted o c := by
  unfold AttributeValue.read
  split
  · next rest => simp [rest]
  · next rest => simp [rest]
  · next double single =>
    cases rest : c.rest with
    | nil => rfl
    | cons x t =>
        have first : x ≠ '\x22' := fun same => double t (by rw [rest, same])
        have second : x ≠ '\x27' := fun same => single t (by rw [rest, same])
        simp [first, second]

theorem attributeValue_performs (h : c.Within source) (o : Options) :
    (attributeValue source o).Performs c (AttributeValue.read o c) := by
  intro log
  simp only [attributeValue, StateT.run_bind, peek_run h, pure_bind, read_eq,
    any_head_bytes (.beq (d := '\x22') (by decide)),
    any_head_bytes (.beq (d := '\x27') (by decide))]
  split
  · next double => exact quotedValue_performs h o (by decide) (prefix_of_head? double) log
  · split
    · next single => exact quotedValue_performs h o (by decide) (prefix_of_head? single) log
    · exact unquotedValue_performs h o log

theorem byteAt_take {s : List Char} {n : Nat} {x : Char} {t : List Char}
    (rest : s.drop n = x :: t) :
    ∃ b ∈ String.utf8EncodeChar x,
      Checked.byteAt (Text.bytes s) (Text.byteLength (s.take n)) = pure b := by
  obtain ⟨b, bs, code, _⟩ := Text.exists_utf8EncodeChar_eq x
  refine ⟨b, by simp [code], ?_⟩
  have first : (Text.bytes s)[Text.byteLength (s.take n)]? = some b := by
    have tail := Text.drop_bytes s n
    rw [rest, Text.bytes_cons, code] at tail
    have head := congrArg (·[0]?) tail
    simpa using head
  rw [Checked.byteAt, first]

theorem propertyValue_performs (h : c.Within source) (o : Options) :
    (propertyValue source o).Performs c (Property.readValue o c) := by
  intro log
  simp only [propertyValue, StateT.run_bind, rest_run h, pure_bind,
    Text.findIdx?_bytes Text.IsAscii.isBlank.not, Bool.not_not, Property.readValue]
  cases found : c.rest.any (fun x => !Text.isBlank x) with
  | false =>
      have all := Text.takeWhile_eq_self found
      simp only [Bool.not_not] at all
      simp [Cursor.skipBlanks, all]
  | true =>
      obtain ⟨x, t, rest, _⟩ := Text.exists_drop_takeWhile found
      simp only [Bool.not_not] at rest
      obtain ⟨b, member, byte⟩ := byteAt_take rest
      rw [Text.take_length_takeWhile] at byte
      have mark : c.skipBlanks.rest = x :: t := rest
      simp only [if_true, StateT.run_bind, byte, StateT.run_monadLift, monadLift_self, pure_bind,
        Text.ofByte_of_mem (.beq (d := '=') (by decide)) member, mark, List.head?_cons]
      by_cases equals : x = '='
      · have step : (advance source 1).run ⟨c.skipBlanks.position, log⟩ =
            pure ((), ⟨(c.skipBlanks.skip 1).position, log⟩) :=
          advance_ascii_run h.skipBlanks (a := ['=']) ⟨t, by rw [mark, equals]; rfl⟩ (by decide) log
        have value := attributeValue_performs (h.skipBlanks.skip 1).skipBlanks o
        have after := (h.skipBlanks.skip 1).skipBlanks.of_reaches (AttributeValue.reaches_read o _)
        simp [equals, advanceBlanks_run h, step, advanceBlanks_run (h.skipBlanks.skip 1), value log,
          reportIf_zero_run after, Log.append_assoc]
      · simp [equals]

end Scanner

end Stencil
