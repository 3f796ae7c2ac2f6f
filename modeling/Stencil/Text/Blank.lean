/-! # Blanks and spaces

Two notions of white space meet in a template. *Blanks* are the five characters that separate
things inside markup; *spaces* are the characters of the Unicode property `White_Space`, which
decide how class lists are split and how expressions are trimmed.
-/

namespace Stencil.Text

/-- The blanks of markup: tab, line feed, form feed, carriage return and space. -/
def isBlank (c : Char) : Bool :=
  c == '\t' || c == '\n' || c == '\x0c' || c == '\r' || c == ' '

/-- `true` when a text holds nothing but blanks, so also of the empty text. -/
def isBlankOnly (s : List Char) : Bool :=
  s.all isBlank

/-- Condensing in the middle of a text; `inRun` tells whether the character before was a blank. -/
def condenseFrom (inRun : Bool) : List Char → List Char
  | [] => []
  | c :: cs =>
    if isBlank c then
      if inRun then condenseFrom true cs else ' ' :: condenseFrom true cs
    else
      c :: condenseFrom false cs

/-- Every run of blanks becomes a single space. -/
def condense (s : List Char) : List Char :=
  condenseFrom false s

/-- Every carriage return that stands before a line feed is dropped. -/
def unifyLineBreaks : List Char → List Char
  | [] => []
  | '\r' :: '\n' :: cs => '\n' :: unifyLineBreaks cs
  | c :: cs => c :: unifyLineBreaks cs

/-- A text without the line break it starts with, if it starts with one. -/
def dropLineBreak : List Char → List Char
  | '\r' :: '\n' :: cs => cs
  | '\n' :: cs => cs
  | cs => cs

/-- The characters with the Unicode property `White_Space`. -/
def isSpace (c : Char) : Bool :=
  let n := c.toNat
  (9 ≤ n && n ≤ 13) || n == 0x20 || n == 0x85 || n == 0xa0 || n == 0x1680 ||
    (0x2000 ≤ n && n ≤ 0x200a) || n == 0x2028 || n == 0x2029 || n == 0x202f || n == 0x205f ||
    n == 0x3000

/-- A text without the spaces at its start. -/
def trimStart (s : List Char) : List Char :=
  s.dropWhile isSpace

/-- A text without the spaces at its end. -/
def trimEnd (s : List Char) : List Char :=
  (s.reverse.dropWhile isSpace).reverse

/-- A text without the spaces at its two ends. -/
def trim (s : List Char) : List Char :=
  trimEnd (trimStart s)

/-- The pieces of a text between the characters that satisfy `p`. There is always one more piece
than there are such characters, so the empty text has one empty piece. -/
def pieces (p : Char → Bool) : List Char → List (List Char)
  | [] => [[]]
  | c :: cs =>
    if p c then [] :: pieces p cs
    else
      match pieces p cs with
      | [] => [[c]]
      | w :: ws => (c :: w) :: ws

/-- A class list in its normal form: its words, one space between two. -/
def classList (s : List Char) : List Char :=
  [' '].intercalate ((pieces isSpace s).filter fun w => !w.isEmpty)

end Stencil.Text
