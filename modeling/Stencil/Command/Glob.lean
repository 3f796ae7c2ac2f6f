import Stencil.Command.FileTree
import Stencil.Text.Search

/-! # File name patterns

Patterns for paths: `?` stands for one character, `*` for any number of them, brackets for one
character out of a class, and a whole component `**` for any number of directories.
-/

namespace Stencil.Glob

/-- A part of a pattern for one name. -/
inductive Token where
  | char (c : Char)
  /-- Any one character. -/
  | any
  /-- Any number of characters. -/
  | anyRun
  /-- A character in one of the ranges. -/
  | within (ranges : List (Char × Char))
  /-- A character in none of the ranges. -/
  | without (ranges : List (Char × Char))
  deriving DecidableEq, Repr

/-- A pattern for one component of a path. -/
inductive Part where
  /-- A name. -/
  | literal (s : String)
  /-- Names that a pattern matches. -/
  | names (tokens : List Token)
  /-- Any number of directories. -/
  | directories
  deriving DecidableEq, Repr

/-- The ranges of a class: `a-z` is one, any other character is one by itself. -/
def ranges : List Char → List (Char × Char)
  | a :: '-' :: b :: s => (a, b) :: ranges s
  | a :: s => (a, a) :: ranges s
  | [] => []

/-- Reads a class after its opening bracket, with the number of characters it takes up. The first
character of the class may be a closing bracket. -/
def class? : List Char → Option (Token × Nat)
  | '!' :: c :: s =>
    (Text.find [']'] s).map fun n => (.without (ranges (c :: s.take n)), n + 3)
  | '!' :: [] => none
  | c :: s => (Text.find [']'] s).map fun n => (.within (ranges (c :: s.take n)), n + 2)
  | [] => none

/-- Reads a pattern for a name, the first `skip` characters left out. -/
def tokens? (skip : Nat) : List Char → Option (List Token)
  | [] => some []
  | c :: s =>
    match skip with
    | skip + 1 => tokens? skip s
    | 0 =>
      if c == '?' then (tokens? 0 s).map (.any :: ·)
      else if c == '*' then
        if s.head? == some '*' then none else (tokens? 0 s).map (.anyRun :: ·)
      else if c == '[' then
        match class? s with
        | some (token, n) => (tokens? n s).map (token :: ·)
        | none => none
      else (tokens? 0 s).map (.char c :: ·)

/-- The character that a token stands for, if it stands for one alone. -/
def Token.char? : Token → Option Char
  | .char c => some c
  | _ => none

/-- Reads a component of a pattern. -/
def Part.read? (s : String) : Option Part :=
  if s == "**" then some .directories
  else
    (tokens? 0 s.toList).map fun tokens =>
      if tokens.all fun t => t.char?.isSome then .literal s else .names tokens

/-- A character lies in one of the ranges. -/
def inRanges (ranges : List (Char × Char)) (c : Char) : Bool :=
  ranges.any fun (lo, hi) => lo ≤ c && c ≤ hi

/-- A token stands for a character. -/
def Token.accepts (c : Char) : Token → Bool
  | .char d => c == d
  | .any => true
  | .anyRun => true
  | .within ranges => inRanges ranges c
  | .without ranges => !inRanges ranges c

/-- A pattern matches a name. -/
def isMatch : List Token → List Char → Bool
  | [], s => s.isEmpty
  | .anyRun :: tokens, [] => isMatch tokens []
  | .anyRun :: tokens, c :: s => isMatch tokens (c :: s) || isMatch (.anyRun :: tokens) s
  | _ :: _, [] => false
  | token :: tokens, c :: s => token.accepts c && isMatch tokens s
termination_by tokens s => (tokens.length, s.length)

/-- A part of a pattern stands for a name. -/
def Part.accepts (name : String) : Part → Bool
  | .literal s => name == s
  | .names tokens => isMatch tokens name.toList
  | .directories => true

/-- A pattern that starts with a dot, and so stands for dots alone too. -/
def startsWithDot (tokens : List Token) : Bool :=
  tokens.head? == some (.char '.')

/-- The files that the parts of a pattern match from a place in the tree. `path` leads to that
place. Behind a part for any number of directories, names alone are matched, at any depth; there a
dot is no directory. Above the tree nothing matches. -/
def expandFrom (t : FileTree) (path : Path) (place : List String) : List Part → List Path
  | [] => if t.isFile place then [path] else []
  | .literal s :: parts =>
    if s == "" then
      if !path.isHere && t.isDirectory place then expandFrom t (path.join s) place parts else []
    else if s == "." then
      if t.isDirectory place then expandFrom t (path.entry s) place parts else []
    else if s == ".." then
      if t.isDirectory place && !place.isEmpty then
        expandFrom t (path.entry s) place.dropLast parts
      else []
    else if t.isFile (place ++ [s]) || t.isDirectory (place ++ [s]) then
      expandFrom t (path.entry s) (place ++ [s]) parts
    else []
  | .names tokens :: parts =>
    if !t.isDirectory place then []
    else
      let hasDots (dots : String) : Bool := startsWithDot tokens && isMatch tokens dots.toList
      (if hasDots ".." && !place.isEmpty then expandFrom t (path.join "..") place.dropLast parts
        else []) ++
      (if hasDots "." then expandFrom t (path.join ".") place parts else []) ++
      ((t.names place).filter fun name => isMatch tokens name.toList).flatMap fun name =>
        expandFrom t (path.entry name) (place ++ [name]) parts
  | [.directories] => []
  | .directories :: part :: parts =>
    if part = .directories then expandFrom t path place (part :: parts)
    else
      ((t.below place).filter fun names => part.accepts (names.getLastD "")).flatMap fun names =>
        expandFrom t (names.foldl Path.entry path) (place ++ names) parts

/-- The parts of a pattern, if it is one. -/
def parts? (pattern : String) : Option (List Part) :=
  (Path.mk pattern).pieces.mapM Part.read?

/-- The files of a tree that a pattern matches. What is no pattern matches nothing, and neither does
one that asks for a directory. -/
def expand (t : FileTree) (pattern : String) : List Path :=
  if pattern.startsWith "/" || pattern.endsWith "/" then []
  else
    match parts? pattern with
    | some parts => expandFrom t .here [] parts
    | none => []

/-- A text that is to be taken as a pattern. -/
def isPattern (s : String) : Bool :=
  s.toList.any fun c => c == '*' || c == '?' || c == '['

end Stencil.Glob

namespace Stencil

/-- The workspace of a tree of files. -/
def FileTree.workspace (t : FileTree) (stdin : ByteArray) : Workspace where
  stdin := ReadFault.decode stdin
  read := t.read
  expand := Glob.expand t

end Stencil
