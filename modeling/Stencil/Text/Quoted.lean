import Stencil.Text.Printable

/-! # Quoted texts

A text between double quotes, on one line whatever it holds: quotes and backslashes are escaped,
and every character that does not print as itself is written by name or by number.
-/

namespace Stencil.Text.Quoted

/-- How one character is written between the quotes. -/
def encodeChar (c : Char) : List Char :=
  if c == '\x00' then ['\\', '0']
  else if c == '\t' then ['\\', 't']
  else if c == '\r' then ['\\', 'r']
  else if c == '\n' then ['\\', 'n']
  else if c == '\x22' then ['\\', '\x22']
  else if c == '\\' then ['\\', '\\']
  else if Printable.isPlain c then [c]
  else ['\\', 'u', '\x7b'] ++ Nat.toDigits 16 c.toNat ++ ['\x7d']

/-- A text in quotes. -/
def encode (s : List Char) : List Char :=
  '\x22' :: s.flatMap encodeChar ++ ['\x22']

end Stencil.Text.Quoted
