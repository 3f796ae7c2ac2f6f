import Stencil.Text.Bytes

/-! # Positions and locations

A position says how much of a template lies before it, in bytes and in lines and columns. A
location is the stretch between two positions together with its text.
-/

namespace Stencil

/-- A place between two characters of a template. -/
structure Position where
  /-- Bytes before it. -/
  offset : Nat
  /-- Its line, the first being 1. -/
  line : Nat
  /-- Its column in characters, the first being 1. -/
  column : Nat
  deriving DecidableEq, Repr

namespace Position

/-- The start of a template. -/
def start : Position := ⟨0, 1, 1⟩

/-- What follows the last line break of a text that has one. -/
def lastLine? : List Char → Option (List Char)
  | [] => none
  | c :: cs =>
    match lastLine? cs with
    | some tail => some tail
    | none => if c == '\n' then some cs else none

/-- The position after the text `s` that starts at `p`. The column starts again after the last line
break of `s`, and goes on from `p` when there is none. -/
def past (p : Position) (s : List Char) : Position where
  offset := p.offset + Text.byteLength s
  line := p.line + s.count '\n'
  column :=
    match lastLine? s with
    | some tail => tail.length + 1
    | none => p.column + s.length

theorem lastLine?_append (s t : List Char) :
    lastLine? (s ++ t) =
      match lastLine? t with
      | some tail => some tail
      | none => (lastLine? s).map (· ++ t) := by
  induction s with
  | nil =>
    rw [List.nil_append]
    cases lastLine? t <;> rfl
  | cons c cs ih =>
    rw [List.cons_append, lastLine?, ih]
    cases lastLine? t with
    | some tail => rfl
    | none =>
      rw [lastLine?]
      cases lastLine? cs with
      | some tail => rfl
      | none =>
        cases h : c == '\n' <;> simp

@[simp]
theorem past_nil (p : Position) : p.past [] = p := rfl

/-- Going over a text in one step or in two leads to the same position. -/
theorem past_append (p : Position) (s t : List Char) : p.past (s ++ t) = (p.past s).past t := by
  simp only [past, Text.byteLength_append, List.count_append, lastLine?_append, mk.injEq]
  refine ⟨by omega, by omega, ?_⟩
  cases lastLine? t with
  | some tail => rfl
  | none =>
    cases lastLine? s with
    | some tail =>
      simp only [Option.map_some, List.length_append]
      omega
    | none =>
      simp only [Option.map_none, List.length_append]
      omega

end Position

/-- The stretch of a template between two positions. -/
structure Location where
  start : Position
  /-- Its end; the character there is no longer part of it. -/
  stop : Position
  /-- The text in between, as the template has it. -/
  source : List Char
  deriving DecidableEq, Repr

namespace Location

/-- The location without width at a position. -/
def point (p : Position) : Location := ⟨p, p, []⟩

/-- `true` for a location without width. -/
def isEmpty (l : Location) : Bool :=
  l.start.offset == l.stop.offset

end Location

end Stencil
