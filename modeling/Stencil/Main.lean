import Stencil.Command.Run

/-! # The command line program

Gathers what a command needs of the world (the files it names, the files that patterns could match,
the standard input), runs the command on that, and writes down the outcome.
-/

namespace Stencil.Program

/-- The fault that an error of the file system amounts to. The code of an error can come negated. -/
def faultOf : IO.Error → ReadFault
  | .noFileOrDirectory .. => .notFound
  | .inappropriateType _ 21 _ => .isDirectory
  | .inappropriateType .. => .notDirectory
  | error@(.invalidArgument _ code _) =>
    if code == 36 || code == 0 - 36 then .nameTooLong else .other (toString error)
  | error => .other (toString error)

/-- The text that an action reads. -/
def textOf (action : IO ByteArray) : IO (Except ReadFault String) := do
  try
    return ReadFault.decode (← action)
  catch error =>
    return .error (faultOf error)

/-- The places of all files below a directory with the given entries. -/
partial def placesBelow (place : List String) (entries : List IO.FS.DirEntry) :
    IO (List (List String)) := do
  let found ← entries.mapM fun entry => do
    let here := place ++ [entry.fileName]
    if (← entry.path.symlinkMetadata).type matches .dir then
      placesBelow here (← entry.path.readDir).toList
    else
      return [here]
  return found.flatten

/-- The files of the current directory, without what they hold. -/
def listing : IO FileTree := do
  let places ← placesBelow [] (← (← IO.currentDir).readDir).toList
  return ⟨places.map fun place => (place, ByteArray.empty)⟩

/-- What the world has for a command. -/
def workspace (inv : Invocation) : IO Workspace := do
  let tree ← if inv.sources.any Glob.isPattern then listing else pure ⟨[]⟩
  let texts ← (inv.paths (Glob.expand tree)).mapM fun p => do
    return (p, ← textOf (IO.FS.readBinFile p.text))
  let stdin ←
    if inv.sources.contains Invocation.stdinPattern then
      textOf (do (← IO.getStdin).readBinToEnd)
    else pure (.ok "")
  return {
    stdin := stdin
    read := fun p => (texts.lookup p).getD (.error .notFound)
    expand := Glob.expand tree }

/-- Runs a command and writes down its outcome. -/
def perform (inv : Invocation) : IO UInt32 := do
  let outcome := inv.run (← workspace inv)
  for write in outcome.writes do
    match write with
    | .out text => IO.print text
    | .err message => IO.eprintln message
  return outcome.exitCode.toUInt32

/-- How the program is called. -/
def usage : String :=
  "Usage: gesso [-v | -q] [parse [OPTIONS] [PATTERNS]...]"

end Stencil.Program

def main (args : List String) : IO UInt32 := do
  match Stencil.Invocation.ofArgs? args with
  | some inv => Stencil.Program.perform inv
  | none =>
    IO.eprintln Stencil.Program.usage
    return 2
