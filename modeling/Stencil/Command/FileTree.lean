import Stencil.Command.Workspace

/-! # Trees of files

Files below one directory, which is the current one. Nothing is known of what lies outside, save
that there are directories above.
-/

namespace Stencil

/-- A tree of files. -/
structure FileTree where
  /-- The files with their bytes, each under its directories and its name. -/
  files : List (List String × ByteArray)

namespace FileTree

/-- A file stands at a place. -/
def isFile (t : FileTree) (place : List String) : Bool :=
  t.files.any fun f => f.1 == place

/-- A directory stands at a place: the root of the tree, or a place above some file. -/
def isDirectory (t : FileTree) (place : List String) : Bool :=
  place.isEmpty || t.files.any fun f => f.1 != place && place.isPrefixOf f.1

/-- The names that lead from a directory to each file below it. -/
def filesBelow (t : FileTree) (place : List String) : List (List String) :=
  t.files.filterMap fun f => if place.isPrefixOf f.1 then some (f.1.drop place.length) else none

/-- The names in a directory, in order. -/
def names (t : FileTree) (place : List String) : List String :=
  ((t.filesBelow place).filterMap List.head?).eraseDups.mergeSort fun a b => decide (a ≤ b)

/-- The names that lead from a directory to each file and directory below it, in order. A directory
comes before what it holds. -/
def below (t : FileTree) (place : List String) : List (List String) :=
  ((t.filesBelow place).flatMap fun names =>
    (List.range names.length).map fun n => names.take (n + 1)).eraseDups.mergeSort fun a b =>
      Path.leComponents (a.map .name) (b.map .name)

/-- Where a path leads. -/
inductive Spot where
  | inside (place : List String)
  /-- A directory above the tree. -/
  | above
  deriving DecidableEq, Repr

namespace Spot

/-- The directory above. -/
def parent : Spot → Spot
  | .inside [] => .above
  | .inside (name :: names) => .inside (name :: names).dropLast
  | .above => .above

/-- The entry of a directory. Those of the directories above are not known. -/
def entry? (name : String) : Spot → Option Spot
  | .inside place => some (.inside (place ++ [name]))
  | .above => none

end Spot

/-- A spot is not a directory, and why. -/
def directoryFault? (t : FileTree) : Spot → Option ReadFault
  | .inside place =>
    if t.isDirectory place then none
    else some (if t.isFile place then .notDirectory else .notFound)
  | .above => none

/-- The greatest number of bytes in a name. -/
def maxNameBytes : Nat := 255

/-- The greatest number of bytes in a path. -/
def maxPathBytes : Nat := 4095

/-- Follows the pieces of a path from a spot. -/
def follow (t : FileTree) (spot : Spot) : List String → Except ReadFault Spot
  | [] => .ok spot
  | piece :: pieces =>
    match t.directoryFault? spot with
    | some fault => .error fault
    | none =>
      if piece == "" || piece == "." then follow t spot pieces
      else if piece == ".." then follow t spot.parent pieces
      else if maxNameBytes < piece.utf8ByteSize then .error .nameTooLong
      else
        match spot.entry? piece with
        | some spot => follow t spot pieces
        | none => .error .notFound

/-- The bytes of a file. -/
def bytes (t : FileTree) (p : Path) : Except ReadFault ByteArray :=
  if p.text == "" then .error .notFound
  else if maxPathBytes < p.text.utf8ByteSize then .error .nameTooLong
  else
    match t.follow (if p.text.startsWith "/" then .above else .inside []) p.pieces with
    | .error fault => .error fault
    | .ok .above => .error .isDirectory
    | .ok (.inside place) =>
      match t.files.lookup place with
      | some bytes => .ok bytes
      | none => .error (if t.isDirectory place then .isDirectory else .notFound)

/-- The text of a file. -/
def read (t : FileTree) (p : Path) : Except ReadFault String :=
  match t.bytes p with
  | .ok bytes => ReadFault.decode bytes
  | .error fault => .error fault

end FileTree

end Stencil
