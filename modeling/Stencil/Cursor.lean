import Stencil.Position
import Stencil.Text.Blank

/-! # Cursors

A cursor is a position in a template together with the text still to be read there. Readers move
cursors forward by whole characters, which cannot fail. The operations that are told a number of
bytes check it first and name the fault.
-/

namespace Stencil

/-- A place in a template, with what follows it. -/
structure Cursor where
  position : Position
  /-- The text not read yet. -/
  rest : List Char
  deriving DecidableEq, Repr

/-- Why a cursor operation that counts bytes was refused. -/
inductive Fault where
  /-- More bytes were to be consumed than there are. -/
  | pastEnd (bytes : Nat)
  /-- The place asked for is not between two characters of the template. -/
  | noBoundary
  /-- The end of a stretch lies before its start. -/
  | inverted
  deriving DecidableEq, Repr

/-- The explanation that goes with a fault, for those that have one. -/
def Fault.message? : Fault → Option String
  | .pastEnd bytes => some s!"advance_by({bytes}) past end of input"
  | .noBoundary => none
  | .inverted => none

namespace Cursor

/-- The cursor at the start of a template. -/
def ofText (s : List Char) : Cursor := ⟨.start, s⟩

/-- Nothing is left to read. -/
def atEnd (c : Cursor) : Bool :=
  c.rest.isEmpty

/-- Moves over `n` characters, or to the end if there are fewer. -/
def skip (c : Cursor) (n : Nat) : Cursor :=
  ⟨c.position.past (c.rest.take n), c.rest.drop n⟩

/-- Moves over the blanks that follow. -/
def skipBlanks (c : Cursor) : Cursor :=
  c.skip (c.rest.takeWhile Text.isBlank).length

/-- The position `n` characters ahead, at most that of the end. -/
def ahead (c : Cursor) (n : Nat) : Position :=
  (c.skip n).position

/-- `s` follows the cursor. -/
def startsWith (c : Cursor) (s : List Char) : Bool :=
  s.isPrefixOf c.rest

/-- The text between a cursor and a later one. -/
def textTo (a b : Cursor) : List Char :=
  Text.takeBytes (b.position.offset - a.position.offset) a.rest

/-- The location between a cursor and a later one. -/
def locationTo (a b : Cursor) : Location :=
  ⟨a.position, b.position, a.textTo b⟩

/-! ## Operations that count bytes -/

/-- The cursor `bytes` further on. -/
def moveTo? (c : Cursor) (bytes : Nat) : Option Cursor :=
  (Text.takeBytes? bytes c.rest).map fun s => c.skip s.length

/-- Consumes a number of bytes. -/
def advance (c : Cursor) (bytes : Nat) : Except Fault Cursor :=
  if Text.byteLength c.rest < bytes then .error (.pastEnd bytes)
  else
    match c.moveTo? bytes with
    | some d => .ok d
    | none => .error .noBoundary

/-- The position a number of bytes further on. -/
def positionAt (c : Cursor) (bytes : Nat) : Except Fault Position :=
  match c.moveTo? bytes with
  | some d => .ok d.position
  | none => .error .noBoundary

/-- The position a number of bytes further on, at most that of the end. -/
def positionAhead (c : Cursor) (bytes : Nat) : Except Fault Position :=
  c.positionAt (min bytes (Text.byteLength c.rest))

/-- The location between two cursors of one template. -/
def between (a b : Cursor) : Except Fault Location :=
  if b.position.offset < a.position.offset then .error .inverted else .ok (a.locationTo b)

/-- The byte `n` bytes further on. -/
def byteAt? (c : Cursor) (n : Nat) : Option UInt8 :=
  (c.rest.flatMap String.utf8EncodeChar)[n]?

/-! ## Cursors of one template -/

/-- `b` is `a` after reading some text. -/
def Reaches (a b : Cursor) : Prop :=
  ∃ s, a.rest = s ++ b.rest ∧ b.position = a.position.past s

theorem Reaches.refl (a : Cursor) : a.Reaches a :=
  ⟨[], rfl, rfl⟩

theorem Reaches.trans {a b c : Cursor} (h : a.Reaches b) (k : b.Reaches c) : a.Reaches c := by
  obtain ⟨s, hs, hp⟩ := h
  obtain ⟨t, ht, hq⟩ := k
  exact ⟨s ++ t, by rw [hs, ht, List.append_assoc], by rw [hq, hp, Position.past_append]⟩

theorem reaches_skip (c : Cursor) (n : Nat) : c.Reaches (c.skip n) :=
  ⟨c.rest.take n, (List.take_append_drop n c.rest).symm, rfl⟩

theorem reaches_skipBlanks (c : Cursor) : c.Reaches c.skipBlanks :=
  c.reaches_skip _

theorem Reaches.length_le {a b : Cursor} (h : a.Reaches b) : b.rest.length ≤ a.rest.length := by
  obtain ⟨s, hs, _⟩ := h
  rw [hs, List.length_append]
  omega

/-- The text between two cursors is what the second one has read after the first. -/
theorem textTo_of_append {a b : Cursor} {s : List Char} (h : a.rest = s ++ b.rest)
    (hp : b.position = a.position.past s) : a.textTo b = s := by
  have : b.position.offset - a.position.offset = Text.byteLength s := by
    rw [hp]
    simp only [Position.past]
    omega
  rw [textTo, this, h, Text.takeBytes_byteLength_append]

@[simp]
theorem rest_skip (c : Cursor) (n : Nat) : (c.skip n).rest = c.rest.drop n := rfl

theorem length_skip (c : Cursor) (n : Nat) : (c.skip n).rest.length = c.rest.length - n := by
  simp

end Cursor

end Stencil
