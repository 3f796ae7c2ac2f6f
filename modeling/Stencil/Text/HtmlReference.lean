import Stencil.Text.Digit
import Stencil.Text.HtmlName

/-! # Character references of HTML

Decodes numeric references and the named references of the HTML table. A reference in an attribute
value is read more strictly than one in running text: it has to be written out in full, and one
that an equals sign follows stays as it is.
-/

namespace Stencil.Text.HtmlReference

/-- ASCII letters and digits, of which names and numbers are made. -/
def isAlphanumeric (c : Char) : Bool :=
  c.isAlpha || c.isDigit

/-- What the numbers 0x80 to 0x9f stand for: the characters that the Windows code page 1252 has at
these places. The five places it leaves open keep their own code point. -/
def windows1252 : List Char :=
  ['\u20ac', '\u0081', '\u201a', '\u0192', '\u201e', '\u2026', '\u2020', '\u2021', '\u02c6',
    '\u2030', '\u0160', '\u2039', '\u0152', '\u008d', '\u017d', '\u008f', '\u0090', '\u2018',
    '\u2019', '\u201c', '\u201d', '\u2022', '\u2013', '\u2014', '\u02dc', '\u2122', '\u0161',
    '\u203a', '\u0153', '\u009d', '\u017e', '\u0178']

/-- The character that stands in for a number that is no character. -/
def replacement : Char := '\ufffd'

/-- The character that a numeric reference stands for. -/
def charOfNumber (n : Nat) : Char :=
  if n == 0 then replacement
  else if 0x80 ≤ n && n ≤ 0x9f then windows1252.getD (n - 0x80) replacement
  else if n.isValidChar then Char.ofNat n
  else replacement

/-- Reads a numeric reference: the digits, then a semicolon if there is one. The text is what
follows the mark of the base; the result is the character with the number of characters read. -/
def numeric? (base : Nat) (isDigit : Char → Bool) (s : List Char) : Option (Char × Nat) :=
  let digits := s.takeWhile isDigit
  if digits.isEmpty then none
  else
    let semicolon := if (s.drop digits.length).head? == some ';' then 1 else 0
    some (charOfNumber (ofDigits base digits), digits.length + semicolon)

/-- No name has more characters than this. -/
def maxNameLength : Nat := 31

/-- The shortest start of `run` that is a name known without a semicolon: the text it stands for and
its number of characters. -/
def bareStart? (run : List Char) : Option (List Char × Nat) :=
  (List.range run.length).findSome? fun i =>
    (HtmlName.bare? (String.ofList (run.take (i + 1)))).map fun text => (text, i + 1)

/-- Reads a named reference in running text, after its ampersand: a known name with its semicolon,
or else the shortest known name that needs none. -/
def namedInText? (s : List Char) : Option (List Char × Nat) :=
  let run := (s.takeWhile isAlphanumeric).take maxNameLength
  let closed :=
    if (s.drop run.length).head? == some ';' then HtmlName.closed? (String.ofList run) else none
  match closed with
  | some text => some (text, run.length + 1)
  | none => bareStart? run

/-- Reads a named reference in an attribute value, after its ampersand: the whole run of letters
and digits has to be a known name, and no equals sign may follow. -/
def namedInAttribute? (s : List Char) : Option (List Char × Nat) :=
  let run := s.takeWhile isAlphanumeric
  match (s.drop run.length).head? with
  | some ';' => (HtmlName.closed? (String.ofList run)).map fun text => (text, run.length + 1)
  | some '=' => none
  | _ => (HtmlName.bare? (String.ofList run)).map fun text => (text, run.length)

/-- Reads a reference after its ampersand: what it stands for and how many characters it has. -/
def read? (inAttribute : Bool) : List Char → Option (List Char × Nat)
  | '#' :: 'x' :: s => (numeric? 16 (hexDigit? · |>.isSome) s).map fun (c, n) => ([c], n + 2)
  | '#' :: 'X' :: s => (numeric? 16 (hexDigit? · |>.isSome) s).map fun (c, n) => ([c], n + 2)
  | '#' :: s => (numeric? 10 Char.isDigit s).map fun (c, n) => ([c], n + 1)
  | s => if inAttribute then namedInAttribute? s else namedInText? s

/-- Replaces references from left to right, passing over the `skip` characters still to come of a
reference already replaced. -/
def decodeFrom (inAttribute : Bool) (skip : Nat) : List Char → List Char
  | [] => []
  | c :: cs =>
    match skip with
    | skip + 1 => decodeFrom inAttribute skip cs
    | 0 =>
      if c == '&' then
        match read? inAttribute cs with
        | some (text, n) => text ++ decodeFrom inAttribute n cs
        | none => '&' :: decodeFrom inAttribute 0 cs
      else
        c :: decodeFrom inAttribute 0 cs

/-- Replaces the character references of HTML in a text or an attribute value. -/
def decode (s : List Char) (inAttribute : Bool) : List Char :=
  decodeFrom inAttribute 0 s

end Stencil.Text.HtmlReference
