import Stencil.Command.Path

/-! # Workspaces

What a command can see of the world around it: its standard input, and files by their paths.
-/

namespace Stencil

/-- Why a file could not be read. -/
inductive ReadFault where
  | notFound
  | notDirectory
  | isDirectory
  | nameTooLong
  | notUtf8
  /-- Anything else, with its explanation. -/
  | other (details : String)
  deriving DecidableEq, Repr

/-- The explanation that goes with a fault. -/
def ReadFault.message : ReadFault → String
  | .notFound => "No such file or directory (os error 2)"
  | .notDirectory => "Not a directory (os error 20)"
  | .isDirectory => "Is a directory (os error 21)"
  | .nameTooLong => "File name too long (os error 36)"
  | .notUtf8 => "stream did not contain valid UTF-8"
  | .other details => details

/-- The text that bytes encode. -/
def ReadFault.decode (bytes : ByteArray) : Except ReadFault String :=
  match String.fromUTF8? bytes with
  | some s => .ok s
  | none => .error .notUtf8

/-- What a command can see of the world around it. -/
structure Workspace where
  /-- The text of the standard input. -/
  stdin : Except ReadFault String
  /-- The text of a file. -/
  read : Path → Except ReadFault String
  /-- The files that a pattern matches, in the order in which they are found. -/
  expand : String → List Path

end Stencil
