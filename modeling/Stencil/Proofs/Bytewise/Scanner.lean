import Stencil.Proofs.Location
import Stencil.Proofs.Utf8
import Stencil.Read.Reading

/-! # Scanners

A second way to read templates, by counting bytes. A scanner knows its position and nothing else of
where it is: what is still to be read is cut out of the template each time, and how far to go comes
from searches among its bytes. Everything that can go wrong with that is checked. Cuts must lie
between characters and in order, nothing is consumed beyond the end, differences are not negative,
positions must fit into 32 bits, and no loop comes round more often than there are bytes.

The lemmas here are about the steps that all scanners are made of: at a cursor of the template they
go right, and lead where the cursor leads.
-/

namespace Stencil

/-- What a scanner can do wrong. -/
inductive Breach where
  /-- The template was cut or consumed where it cannot be. -/
  | fault (fault : Fault)
  /-- Bytes were asked for that are not there. -/
  | outOfRange
  /-- A number became negative. -/
  | underflow
  /-- A position became too large. -/
  | overflow
  /-- A loop came round too often. -/
  | endless
  deriving DecidableEq, Repr

abbrev Checked := Except Breach

namespace Text

/-- The part of a text from byte `lo` to byte `hi`. -/
def cut (s : List Char) (lo hi : Nat) : Except Fault (List Char) :=
  if hi < lo then .error .inverted
  else
    match takeBytes? hi s with
    | none => .error .noBoundary
    | some t =>
      match takeBytes? lo t with
      | none => .error .noBoundary
      | some u => .ok (t.drop u.length)

def cutFrom (s : List Char) (lo : Nat) : Except Fault (List Char) :=
  cut s lo (byteLength s)

/-- The last place of a byte that satisfies a test. -/
def lastIdx? (test : UInt8 → Bool) : List UInt8 → Option Nat
  | [] => none
  | b :: bs =>
    match lastIdx? test bs with
    | some i => some (i + 1)
    | none => if test b then some 0 else none

end Text

namespace Checked

def ofFault {α : Type} : Except Fault α → Checked α
  | .ok a => pure a
  | .error fault => throw (.fault fault)

/-- A difference that must not be negative. -/
def sub (a b : Nat) : Checked Nat :=
  if b ≤ a then pure (a - b) else throw .underflow

/-- A sum in 32 bits. -/
def add32 (a b : Nat) : Checked Nat :=
  if a + b < UInt32.size then pure (a + b) else throw .overflow

/-- A number cut down to 32 bits. -/
def low32 (n : Nat) : Nat :=
  n % UInt32.size

/-- All bytes from one on. -/
def bytesFrom (bs : List UInt8) (n : Nat) : Checked (List UInt8) :=
  if n ≤ bs.length then pure (bs.drop n) else throw .outOfRange

def bytesTo (bs : List UInt8) (n : Nat) : Checked (List UInt8) :=
  if n ≤ bs.length then pure (bs.take n) else throw .outOfRange

/-- The position `n` bytes after `p`, where `text` starts. -/
def past (p : Position) (text : List Char) (n : Nat) : Checked Position := do
  let consumed ← ofFault (Text.cut text 0 n)
  let isBreak := Text.ofByte (· == '\n')
  let offset ← add32 p.offset (low32 n)
  let line ← add32 p.line (low32 ((Text.bytes consumed).countP isBreak))
  match Text.lastIdx? isBreak (Text.bytes consumed) with
  | some last =>
    let tail ← ofFault (Text.cutFrom consumed (last + 1))
    let column ← add32 (low32 tail.length) 1
    return ⟨offset, line, column⟩
  | none =>
    let column ← add32 p.column (low32 consumed.length)
    return ⟨offset, line, column⟩

end Checked

/-- Where a scanner is, and what it has to report so far. -/
structure Scan where
  position : Position
  log : Log

/-- Reads a piece of a template by its bytes. -/
abbrev Scanner := StateT Scan Checked

namespace Scanner

section

variable (source : List Char)

def position : Scanner Position :=
  return (← get).position

def rest : Scanner (List Char) := do
  Checked.ofFault (Text.cutFrom source (← get).position.offset)

def atEnd : Scanner Bool :=
  return decide (Text.byteLength source ≤ (← get).position.offset)

def startsWith (text : List Char) : Scanner Bool :=
  return (Text.bytes text).isPrefixOf (Text.bytes (← rest source))

/-- The byte `n` bytes further on. -/
def peek (n : Nat) : Scanner (Option UInt8) :=
  return (Text.bytes (← rest source))[n]?

/-- Goes back, or forward, to a position. -/
def reset (p : Position) : Scanner Unit :=
  modify fun s => { s with position := p }

/-- Consumes `n` bytes. -/
def advance (n : Nat) : Scanner Unit := do
  let rest ← rest source
  if Text.byteLength rest < n then throw (.fault (.pastEnd n))
  else
    reset (← Checked.past (← get).position rest n)

def advanceBlanks : Scanner Unit := do
  let rest ← rest source
  let n := ((Text.bytes rest).findIdx? (Text.ofByte fun c => !Text.isBlank c)).getD
    (Text.byteLength rest)
  if 0 < n then advance source n else return ()

/-- The position `n` bytes after another one. -/
def positionAt (start : Position) (n : Nat) : Scanner Position := do
  let text ← Checked.ofFault (Text.cutFrom source start.offset)
  Checked.past start text n

/-- The position `n` bytes ahead, at most that of the end. -/
def positionAhead (n : Nat) : Scanner Position := do
  let rest ← rest source
  positionAt source (← get).position (min n (Text.byteLength rest))

/-- The location between two positions. -/
def between (start stop : Position) : Scanner Location := do
  let text ← Checked.ofFault (Text.cut source start.offset stop.offset)
  return ⟨start, stop, text⟩

def selection (start : Position) : Scanner Location := do
  between source start (← get).position

def reportAt (code : ErrorCode) (p : Position) : Scanner Unit :=
  modify fun s => { s with log := s.log ++ .error code p }

/-- Reports an error `n` bytes ahead. -/
def report (code : ErrorCode) (n : Nat) : Scanner Unit := do
  reportAt code (← positionAhead source n)

def reportIf (p : Prop) [Decidable p] (code : ErrorCode) (n : Nat) : Scanner Unit :=
  if p then report source code n else return ()

end

end Scanner

/-! ## Cuts between characters -/

namespace Text

theorem takeBytes?_take (s : List Char) (n : Nat) :
    takeBytes? (byteLength (s.take n)) s = some (s.take n) := by
  have cut := takeBytes?_byteLength_append (s.take n) (s.drop n)
  rw [List.take_append_drop] at cut
  exact cut

theorem byteLength_take_le_take (s : List Char) {m n : Nat} (h : m ≤ n) :
    byteLength (s.take m) ≤ byteLength (s.take n) := by
  have shorter := byteLength_take_le (s.take n) m
  rw [List.take_take, Nat.min_eq_left h] at shorter
  exact shorter

theorem cut_take (s : List Char) {m n : Nat} (h : m ≤ n) :
    cut s (byteLength (s.take m)) (byteLength (s.take n)) = .ok ((s.take n).drop m) := by
  have ordered := byteLength_take_le_take s h
  have first := takeBytes?_take (s.take n) m
  rw [List.take_take, Nat.min_eq_left h] at first
  have dropped : (s.take n).drop (s.take m).length = (s.take n).drop m := by
    rw [List.length_take]
    rcases Nat.le_total m s.length with inside | beyond
    · rw [Nat.min_eq_left inside]
    · rw [Nat.min_eq_right beyond, List.drop_eq_nil_of_le (by rw [List.length_take]; omega),
        List.drop_eq_nil_of_le (by rw [List.length_take]; omega)]
  simp only [cut, Nat.not_lt.mpr ordered, if_false, takeBytes?_take, first, dropped]

theorem cutFrom_take (s : List Char) (m : Nat) :
    cutFrom s (byteLength (s.take m)) = .ok (s.drop m) := by
  rcases Nat.le_total m s.length with inside | beyond
  · have cut := cut_take s inside
    rw [List.take_length] at cut
    exact cut
  · have cut := cut_take s (Nat.le_refl s.length)
    rw [List.take_length, List.drop_length] at cut
    rw [List.take_of_length_le beyond, List.drop_eq_nil_of_le beyond]
    exact cut

theorem cutFrom_append (s t : List Char) : cutFrom (s ++ t) (byteLength s) = .ok t := by
  have cut := cutFrom_take (s ++ t) s.length
  rw [List.take_left, List.drop_left] at cut
  exact cut

theorem cut_zero (s : List Char) (n : Nat) : cut s 0 (byteLength (s.take n)) = .ok (s.take n) :=
  cut_take s (Nat.zero_le n)

theorem lastIdx?_append (test : UInt8 → Bool) (xs ys : List UInt8) :
    lastIdx? test (xs ++ ys) =
      match lastIdx? test ys with
      | some i => some (xs.length + i)
      | none => lastIdx? test xs := by
  induction xs with
  | nil => cases found : lastIdx? test ys <;> simp [lastIdx?, found]
  | cons x xs ih =>
      rw [List.cons_append, lastIdx?, ih]
      cases lastIdx? test ys with
      | some i =>
          simp only [List.length_cons, Option.some.injEq]
          omega
      | none => rfl

theorem lastIdx?_eq_none {test : UInt8 → Bool} {bs : List UInt8}
    (h : ∀ b ∈ bs, test b = false) : lastIdx? test bs = none := by
  induction bs with
  | nil => rfl
  | cons b bs ih =>
      rw [lastIdx?, ih fun x hx => h x (by simp [hx]), h b (by simp)]
      rfl

theorem isAscii_lineBreak : IsAscii (· == '\n') :=
  .beq (by decide)

theorem countP_lineBreak (s : List Char) :
    (bytes s).countP (ofByte (· == '\n')) = s.count '\n' := by
  induction s with
  | nil => rfl
  | cons c s ih =>
      rw [bytes_cons, List.countP_append, ih, List.count_cons]
      by_cases same : c = '\n'
      · rw [same]
        change 1 + _ = _ + 1
        omega
      · have none : (String.utf8EncodeChar c).countP (ofByte (· == '\n')) = 0 := by
          refine List.countP_eq_zero.mpr fun b hb => ?_
          rw [ofByte_of_mem isAscii_lineBreak hb]
          simpa using same
        simp [none, same]

/-- The last line of a text starts after its last line break, also if that is searched among the
    bytes. -/
theorem lastIdx?_lineBreak (s : List Char) :
    match Position.lastLine? s with
    | some tail => ∃ i n, lastIdx? (ofByte (· == '\n')) (bytes s) = some i ∧
        i + 1 = byteLength (s.take n) ∧ s.drop n = tail
    | none => lastIdx? (ofByte (· == '\n')) (bytes s) = none := by
  induction s with
  | nil => rfl
  | cons c s ih =>
      rw [Position.lastLine?, bytes_cons, lastIdx?_append]
      cases last : Position.lastLine? s with
      | some tail =>
          rw [last] at ih
          obtain ⟨i, n, found, place, line⟩ := ih
          refine ⟨_, n + 1, by rw [found], ?_, by rw [List.drop_succ_cons, line]⟩
          rw [List.take_succ_cons, byteLength_cons, String.length_utf8EncodeChar]
          omega
      | none =>
          rw [last] at ih
          dsimp only at ih ⊢
          rw [ih]
          by_cases same : c = '\n'
          · rw [if_pos (by simpa using same), same]
            exact ⟨0, 1, rfl, rfl, rfl⟩
          · rw [if_neg (by simpa using same)]
            refine lastIdx?_eq_none fun b hb => ?_
            rw [ofByte_of_mem isAscii_lineBreak hb]
            simpa using same

end Text

/-! ## Cursors of a template that fits -/

/-- A cursor of a template that leaves room for its positions. -/
structure Cursor.Within (source : List Char) (c : Cursor) : Prop where
  reaches : (Cursor.ofText source).Reaches c
  small : Text.byteLength source ≤ UInt32.size - 2

structure Position.Fits (p : Position) : Prop where
  offset : p.offset < UInt32.size
  line : p.line < UInt32.size
  column : p.column < UInt32.size

namespace Cursor

variable {source : List Char} {c d : Cursor}

theorem Within.of_reaches (h : c.Within source) (k : c.Reaches d) : d.Within source :=
  ⟨h.reaches.trans k, h.small⟩

theorem Within.skip (h : c.Within source) (n : Nat) : (c.skip n).Within source :=
  h.of_reaches (c.reaches_skip n)

theorem Within.skipBlanks (h : c.Within source) : c.skipBlanks.Within source :=
  h.of_reaches c.reaches_skipBlanks

/-- There are at least as many bytes in a template as characters after a cursor. -/
theorem Within.length_rest_le (h : c.Within source) :
    c.rest.length ≤ Text.byteLength source := by
  obtain ⟨before, whole, -, -⟩ := h.reaches.exists_before
  have chars := Text.length_le_byteLength source
  rw [whole, List.length_append] at chars
  rw [whole]
  omega

theorem Within.fits (h : c.Within source) : c.position.Fits := by
  obtain ⟨before, whole, position, -⟩ := h.reaches.exists_before
  have small := h.small
  have room : 2 ≤ UInt32.size := by decide
  rw [whole, Text.byteLength_append] at small
  have chars := Text.length_le_byteLength before
  have lines := List.count_le_length (a := '\n') (l := before)
  rw [position]
  refine ⟨?_, ?_, ?_⟩
  · simp only [Position.past, Position.start]
    omega
  · simp only [Position.past, Position.start]
    omega
  · simp only [Position.past, Position.start]
    split
    · next tail last =>
      have shorter := Position.length_lt_of_lastLine? last
      omega
    · omega

/-- What a cursor has still to read can be cut out of the template at its position. -/
theorem cutFrom_of_reaches (h : (ofText source).Reaches c) :
    Text.cutFrom source c.position.offset = .ok c.rest := by
  obtain ⟨before, whole, -, offset⟩ := h.exists_before
  rw [offset, whole, Text.cutFrom_append]

theorem Within.cutFrom (h : c.Within source) :
    Text.cutFrom source c.position.offset = .ok c.rest :=
  cutFrom_of_reaches h.reaches

theorem Within.cut (h : c.Within source) (k : c.Reaches d) :
    Text.cut source c.position.offset d.position.offset = .ok (c.textTo d) := by
  obtain ⟨before, whole, -, offset⟩ := h.reaches.exists_before
  have start : c.position.offset = Text.byteLength (source.take before.length) := by
    rw [offset, whole, List.take_left]
  have parts : source = before ++ c.textTo d ++ d.rest := by
    rw [List.append_assoc, ← k.rest_eq]
    exact whole
  have stop : d.position.offset =
      Text.byteLength (source.take (before.length + (c.textTo d).length)) := by
    rw [k.offset_eq, offset, parts, ← List.length_append, List.take_left, Text.byteLength_append]
  rw [start, stop, Text.cut_take source (Nat.le_add_right _ _), parts, ← List.length_append,
    List.take_left, List.drop_left]

end Cursor

namespace Checked

theorem low32_of_lt {n : Nat} (h : n < UInt32.size) : low32 n = n :=
  Nat.mod_eq_of_lt h

theorem add32_of_lt {a b : Nat} (h : a + b < UInt32.size) : add32 a b = pure (a + b) :=
  if_pos h

theorem sub_of_le {a b : Nat} (h : b ≤ a) : sub a b = pure (a - b) :=
  if_pos h

theorem bytesFrom_of_le {bs : List UInt8} {n : Nat} (h : n ≤ bs.length) :
    bytesFrom bs n = pure (bs.drop n) :=
  if_pos h

theorem bytesTo_of_le {bs : List UInt8} {n : Nat} (h : n ≤ bs.length) :
    bytesTo bs n = pure (bs.take n) :=
  if_pos h

theorem bytesFrom_take (s : List Char) (n : Nat) :
    bytesFrom (Text.bytes s) (Text.byteLength (s.take n)) = pure (Text.bytes (s.drop n)) := by
  rw [bytesFrom_of_le (by rw [Text.length_bytes]; exact Text.byteLength_take_le s n),
    Text.drop_bytes]

theorem bytesTo_take (s : List Char) (n : Nat) :
    bytesTo (Text.bytes s) (Text.byteLength (s.take n)) = pure (Text.bytes (s.take n)) := by
  rw [bytesTo_of_le (by rw [Text.length_bytes]; exact Text.byteLength_take_le s n),
    Text.take_bytes]

theorem sub_take (s : List Char) (n : Nat) :
    sub (Text.byteLength s) (Text.byteLength (s.take n)) = pure (Text.byteLength (s.drop n)) := by
  have whole := Text.byteLength_append (s.take n) (s.drop n)
  rw [List.take_append_drop] at whole
  rw [sub_of_le (Text.byteLength_take_le s n), whole, Nat.add_sub_cancel_left]

/-- Counting bytes leads to the position after the characters that they are. -/
theorem past_take {p : Position} {text : List Char} {n : Nat}
    (fits : (p.past (text.take n)).Fits) :
    past p text (Text.byteLength (text.take n)) = pure (p.past (text.take n)) := by
  obtain ⟨offset, line, column⟩ := fits
  simp only [Position.past] at offset line column
  have offset' : Text.byteLength (text.take n) < UInt32.size := by omega
  have line' : (text.take n).count '\n' < UInt32.size := by omega
  simp only [past, Text.cut_zero, ofFault, pure_bind, Text.countP_lineBreak, low32_of_lt offset',
    low32_of_lt line', add32_of_lt offset, add32_of_lt line]
  have breaks := Text.lastIdx?_lineBreak (text.take n)
  cases last : Position.lastLine? (text.take n) with
  | some tail =>
      rw [last] at breaks column
      obtain ⟨i, m, found, place, rfl⟩ := breaks
      dsimp only at column
      have column' : ((text.take n).drop m).length < UInt32.size := by omega
      simp only [found, place, Text.cutFrom_take, pure_bind, low32_of_lt column',
        add32_of_lt column, Position.past, last]
  | none =>
      rw [last] at breaks column
      dsimp only at breaks column
      have column' : (text.take n).length < UInt32.size := by omega
      simp only [breaks, pure_bind, low32_of_lt column', add32_of_lt column, Position.past, last]

/-- Bytes that end inside of a character lead nowhere. -/
theorem past_of_none {p : Position} {text : List Char} {n : Nat}
    (inside : Text.takeBytes? n text = none) : past p text n = throw (.fault .noBoundary) := by
  have cut : Text.cut text 0 n = .error .noBoundary := by
    simp [Text.cut, inside]
  rw [past, cut]
  rfl

end Checked

/-! ## The steps of a scanner -/

namespace Log

@[simp]
theorem append_empty (log : Log) : log ++ empty = log := by
  change Log.mk (log.errors ++ []) (log.warnings ++ []) = log
  rw [List.append_nil, List.append_nil]

theorem append_assoc (a b c : Log) : a ++ b ++ c = a ++ (b ++ c) := by
  change Log.mk (a.errors ++ b.errors ++ c.errors) (a.warnings ++ b.warnings ++ c.warnings) =
    Log.mk (a.errors ++ (b.errors ++ c.errors)) (a.warnings ++ (b.warnings ++ c.warnings))
  rw [List.append_assoc, List.append_assoc]

theorem ofErrors_nil : ofErrors [] = empty := rfl

theorem ofErrors_append (es fs : List ParseError) :
    ofErrors (es ++ fs) = ofErrors es ++ ofErrors fs := rfl

theorem ofErrors_append_ofWarnings (es : List ParseError) (ws : List Legacy.Warning) :
    ofErrors es ++ ofWarnings ws = ⟨es, ws⟩ := by
  change Log.mk (es ++ []) ws = ⟨es, ws⟩
  rw [List.append_nil]

end Log

namespace Scanner

variable {source : List Char} {c d : Cursor}

theorem rest_run (h : c.Within source) (log : Log) :
    (rest source).run ⟨c.position, log⟩ = pure (c.rest, ⟨c.position, log⟩) := by
  simp [rest, h.cutFrom, Checked.ofFault]

theorem atEnd_run (h : c.Within source) (log : Log) :
    (atEnd source).run ⟨c.position, log⟩ = pure (c.atEnd, ⟨c.position, log⟩) := by
  obtain ⟨before, whole, -, offset⟩ := h.reaches.exists_before
  have ends : decide (Text.byteLength source ≤ c.position.offset) = c.atEnd := by
    rw [offset, whole, Text.byteLength_append]
    simp only [Cursor.atEnd]
    cases c.rest with
    | nil => simp
    | cons x rest =>
        have := Char.utf8Size_pos x
        rw [Text.byteLength_cons]
        exact decide_eq_false (by omega)
  simp [atEnd, ends]

theorem startsWith_run (h : c.Within source) (text : List Char) (log : Log) :
    (startsWith source text).run ⟨c.position, log⟩ =
      pure (c.startsWith text, ⟨c.position, log⟩) := by
  simp [startsWith, rest_run h, Text.isPrefixOf_bytes, Cursor.startsWith]

theorem peek_run (h : c.Within source) (n : Nat) (log : Log) :
    (peek source n).run ⟨c.position, log⟩ =
      pure ((Text.bytes c.rest)[n]?, ⟨c.position, log⟩) := by
  simp [peek, rest_run h]

/-- To consume the bytes of some characters is to skip these. -/
theorem advance_run (h : c.Within source) (n : Nat) (log : Log) :
    (advance source (Text.byteLength (c.rest.take n))).run ⟨c.position, log⟩ =
      pure ((), ⟨(c.skip n).position, log⟩) := by
  have past := Checked.past_take (h.skip n).fits
  have enough := Nat.not_lt.mpr (Text.byteLength_take_le c.rest n)
  simp [advance, rest_run h, enough, past, reset, Cursor.skip]

/-- Characters of one byte each are consumed by their number. -/
theorem advance_ascii_run (h : c.Within source) {a : List Char} (starts : a <+: c.rest)
    (ascii : Text.AllAscii a) (log : Log) :
    (advance source a.length).run ⟨c.position, log⟩ =
      pure ((), ⟨(c.skip a.length).position, log⟩) := by
  have count := Text.byteLength_take_add (n := 0) starts ascii (Nat.le_refl _)
  rw [Nat.zero_add, List.take_zero, Text.byteLength_nil, Nat.zero_add] at count
  have run := advance_run h a.length log
  rw [count] at run
  exact run

theorem advanceBlanks_run (h : c.Within source) (log : Log) :
    (advanceBlanks source).run ⟨c.position, log⟩ = pure ((), ⟨c.skipBlanks.position, log⟩) := by
  have blanks := Text.getD_findIdx?_bytes Text.IsAscii.isBlank.not c.rest
  simp only [Bool.not_not] at blanks
  have run := advance_run h (c.rest.takeWhile Text.isBlank).length log
  rw [Text.take_length_takeWhile] at run
  simp only [advanceBlanks, StateT.run_bind, rest_run h, pure_bind, blanks]
  split
  · exact run
  · next none =>
    have empty := Text.byteLength_eq_zero (Nat.eq_zero_of_not_pos none)
    simp [Cursor.skipBlanks, Cursor.skip, empty]

theorem positionAt_run (h : c.Within source) (n : Nat) (s : Scan) :
    (positionAt source c.position (Text.byteLength (c.rest.take n))).run s =
      pure (c.ahead n, s) := by
  have past := Checked.past_take (h.skip n).fits
  simp [positionAt, h.cutFrom, Checked.ofFault, past, Cursor.ahead, Cursor.skip]

theorem between_run (h : c.Within source) (k : c.Reaches d) (s : Scan) :
    (between source c.position d.position).run s = pure (c.locationTo d, s) := by
  simp [between, h.cut k, Checked.ofFault, Cursor.locationTo]

theorem selection_run (h : c.Within source) (k : c.Reaches d) (log : Log) :
    (selection source c.position).run ⟨d.position, log⟩ =
      pure (c.locationTo d, ⟨d.position, log⟩) := by
  simp [selection, between_run h k]

theorem report_run (h : c.Within source) (code : ErrorCode) (n : Nat) (log : Log) :
    (report source code (Text.byteLength (c.rest.take n))).run ⟨c.position, log⟩ =
      pure ((), ⟨c.position, log ++ .error code (c.ahead n)⟩) := by
  have inside := Nat.min_eq_left (Text.byteLength_take_le c.rest n)
  simp [report, positionAhead, rest_run h, inside, positionAt_run h, reportAt]

theorem report_zero_run (h : c.Within source) (code : ErrorCode) (log : Log) :
    (report source code 0).run ⟨c.position, log⟩ =
      pure ((), ⟨c.position, log ++ .error code c.position⟩) :=
  report_run h code 0 log

theorem reportIf_run (h : c.Within source) (p : Prop) [Decidable p] (code : ErrorCode) (n : Nat)
    (log : Log) :
    (reportIf source p code (Text.byteLength (c.rest.take n))).run ⟨c.position, log⟩ =
      pure ((), ⟨c.position, log ++ .ofErrors (if p then [.at code (c.ahead n)] else [])⟩) := by
  unfold reportIf
  split
  · exact report_run h code n log
  · rw [Log.ofErrors_nil, Log.append_empty]
    rfl

theorem reportIf_zero_run (h : c.Within source) (p : Prop) [Decidable p] (code : ErrorCode)
    (log : Log) :
    (reportIf source p code 0).run ⟨c.position, log⟩ =
      pure ((), ⟨c.position, log ++ .ofErrors (if p then [.at code c.position] else [])⟩) :=
  reportIf_run h p code 0 log

/-! ## The operations of cursors that count bytes -/

/-- A scanner consumes bytes like a cursor, and goes wrong where a cursor does. -/
theorem advance_eq (h : c.Within source) (n : Nat) (log : Log) :
    (advance source n).run ⟨c.position, log⟩ =
      match c.advance n with
      | .ok d => pure ((), ⟨d.position, log⟩)
      | .error fault => throw (.fault fault) := by
  by_cases beyond : Text.byteLength c.rest < n
  · rw [Cursor.advance, if_pos beyond]
    simp only [advance, StateT.run_bind, rest_run h, pure_bind, beyond, if_true]
    rfl
  · rw [Cursor.advance, if_neg beyond]
    cases taken : Text.takeBytes? n c.rest with
    | some t =>
        obtain ⟨starts, length⟩ := Text.takeBytes?_eq_some taken
        have run := advance_run h t.length log
        rw [Text.byteLength_take_of_prefix starts, length] at run
        simpa [Cursor.moveTo?, taken] using run
    | none =>
        simp only [advance, StateT.run_bind, rest_run h, pure_bind, beyond, if_false,
          Checked.past_of_none taken, Cursor.moveTo?, taken]
        rfl

/-- The position some bytes further on is that of a cursor, and missing where a cursor has none. -/
theorem positionAt_eq (h : c.Within source) (n : Nat) (s : Scan) :
    (positionAt source c.position n).run s =
      match c.positionAt n with
      | .ok p => pure (p, s)
      | .error fault => throw (.fault fault) := by
  cases taken : Text.takeBytes? n c.rest with
  | some t =>
      obtain ⟨starts, length⟩ := Text.takeBytes?_eq_some taken
      have run := positionAt_run h t.length s
      rw [Text.byteLength_take_of_prefix starts, length] at run
      simpa [Cursor.positionAt, Cursor.moveTo?, taken, Cursor.ahead] using run
  | none =>
      simp only [positionAt, StateT.run_bind, h.cutFrom, Checked.ofFault, StateT.run_monadLift,
        monadLift_self, pure_bind, Checked.past_of_none taken, Cursor.positionAt, Cursor.moveTo?,
        taken]
      rfl

/-- A scanner does what a reader does, from a cursor on. -/
def Performs {α : Type} (scanner : Scanner α) (c : Cursor) (r : Reading α) : Prop :=
  ∀ log, scanner.run ⟨c.position, log⟩ = pure (r.value, ⟨r.cursor.position, log ++ r.log⟩)

end Scanner

end Stencil
