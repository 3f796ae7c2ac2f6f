import Stencil.Text.Search

/-! # Character references of the template language

The five references that the template language itself reserves characters for. Decoding reads a
text once from left to right: what a reference stands for is never looked at again.
-/

namespace Stencil.Text

/-- The references known without any preset, each with the character it stands for. -/
def basicReferences : List (List Char × Char) :=
  [("&gt;".toList, '>'), ("&lt;".toList, '<'), ("&amp;".toList, '&'), ("&apos;".toList, '\x27'),
    ("&quot;".toList, '\x22')]

/-- The reference of `table` that a text starts with. -/
def referenceAt? (table : List (List Char × Char)) (s : List Char) : Option (List Char × Char) :=
  table.find? fun entry => entry.1.isPrefixOf s

/-- Replaces references from left to right. After a reference of length `n`, `skip = n - 1`
characters of it are still to be passed over. -/
def decodeFrom (skip : Nat) : List Char → List Char
  | [] => []
  | c :: cs =>
    match skip with
    | skip + 1 => decodeFrom skip cs
    | 0 =>
      match referenceAt? basicReferences (c :: cs) with
      | some (name, char) => char :: decodeFrom (name.length - 1) cs
      | none => c :: decodeFrom 0 cs

/-- Replaces the five basic references by the characters they stand for. -/
def decodeBasic (s : List Char) : List Char :=
  decodeFrom 0 s

/-- Writes the characters that have a basic reference as that reference. -/
def escapeBasic (s : List Char) : List Char :=
  s.flatMap fun c =>
    match basicReferences.find? fun entry => entry.2 == c with
    | some (name, _) => name
    | none => [c]

theorem decodeFrom_eq_decodeBasic_drop (n : Nat) (s : List Char) :
    decodeFrom n s = decodeBasic (s.drop n) := by
  induction s generalizing n with
  | nil => simp [decodeBasic, decodeFrom]
  | cons c cs ih =>
    cases n with
    | zero => rfl
    | succ n => simpa [decodeFrom] using ih n

end Stencil.Text
