import Stencil.Command.Glob
import Stencil.Command.Invocation
import Stencil.Json.Printer
import Stencil.Json.Tree

/-! # Running a command

A command goes through its inputs one after another. It writes down what there is to report about
an input and shows the template, and keeps what it needs at the end: the JSON forms, the number of
errors, and whether every input could be read. An input that cannot be read does not stop it.
-/

namespace Stencil

/-! ## Inputs -/

/-- Where a template comes from. -/
inductive Input where
  | stdin
  | file (p : Path)
  deriving DecidableEq, Repr

namespace Input

/-- The same source, whatever its spelling. -/
def same : Input → Input → Bool
  | .stdin, .stdin => true
  | .file p, .file q => p.same q
  | _, _ => false

/-- The name of an input in reports. -/
def name : Input → String
  | .stdin => "<stdin>"
  | .file p => p.text

/-- The text of an input. -/
def text (w : Workspace) : Input → Except ReadFault String
  | .stdin => w.stdin
  | .file p => w.read p

/-- What is left of a workspace once an input is read: the standard input is used up by that. -/
def leave (w : Workspace) : Input → Workspace
  | .stdin => { w with stdin := .ok "" }
  | .file _ => w

/-- The file that an input is. -/
def path? : Input → Option Path
  | .stdin => none
  | .file p => some p

/-- The inputs of one argument, where `expand` finds the files that a pattern matches. -/
def ofPattern (expand : String → List Path) (pattern : String) : List Input :=
  if pattern == Invocation.stdinPattern then [.stdin]
  else if Glob.isPattern pattern then ((expand pattern).mergeSort Path.le).map .file
  else [.file ⟨pattern⟩]

/-- Adds the inputs of one more argument; the standard input is added only once. -/
def addPattern (expand : String → List Path) (inputs : List Input) (pattern : String) :
    List Input :=
  if pattern == Invocation.stdinPattern && inputs.any (·.same .stdin) then inputs
  else inputs ++ ofPattern expand pattern

/-- Adds an input unless it is there already. -/
def addNew (inputs : List Input) (i : Input) : List Input :=
  if inputs.any (·.same i) then inputs else inputs ++ [i]

/-- The inputs of a command line, in order, each one once. -/
def collect (expand : String → List Path) (patterns : List String) : List Input :=
  (patterns.foldl (addPattern expand) []).foldl addNew []

end Input

/-! ## What is written -/

/-- Something that a command writes. -/
inductive Write where
  /-- A text on the standard output. -/
  | out (text : String)
  /-- A message on the standard error output, to be followed by a line break. -/
  | err (message : String)
  deriving DecidableEq, Repr

namespace Write

def out? : Write → Option String
  | .out text => some text
  | .err _ => none

def err? : Write → Option String
  | .out _ => none
  | .err message => some message

end Write

/-- What a command writes, in order, and how it ends. The lines of its log, which it also puts on the
standard error output, are not among the writes: nothing is said of what it logs. -/
structure Outcome where
  exitCode : Nat
  writes : List Write
  deriving DecidableEq, Repr

namespace Outcome

/-- All of the standard output. -/
def stdout (outcome : Outcome) : String :=
  String.join (outcome.writes.filterMap Write.out?)

/-- The messages on the standard error output. -/
def stderr (outcome : Outcome) : List String :=
  outcome.writes.filterMap Write.err?

end Outcome

/-- The message about an input that cannot be read. -/
def ReadFault.report (name : String) (fault : ReadFault) : String :=
  "error: failed to read " ++ name ++ ": " ++ fault.message

namespace Template

/-- What there is to report about a template. -/
def diagnostics (name : String) (t : Template) : List Write :=
  t.errors.map (fun e => .err (e.line name)) ++ t.warnings.map (fun w => .err (w.line name))

/-- How a template is shown at once; `several` tells whether it is one of several. -/
def display (format : Format) (several : Bool) (name : String) (t : Template) : List Write :=
  match format with
  | .tree =>
    (if several then [.out ("// " ++ name ++ "\n")] else []) ++
      [.out (String.ofList t.root.outline)]
  | .stats => [.out (name ++ ": " ++ t.root.tally.summary ++ "\n")]
  | .json => []

/-- The JSON form of a template with the name of its input. -/
def document (name : String) (t : Template) : Json :=
  .object (("filename", .str name) :: t.members)

end Template

/-! ## The loop -/

/-- How far a command has come with its inputs. -/
structure Batch where
  /-- The world as it is left. -/
  workspace : Workspace
  /-- What has been written. -/
  writes : List Write
  /-- The JSON forms to show at the end. -/
  documents : List Json
  /-- Every input so far could be read. -/
  isComplete : Bool
  /-- The number of errors in the templates so far. -/
  errorCount : Nat

namespace Batch

/-- Before the first input. -/
def start (w : Workspace) : Batch := ⟨w, [], [], true, 0⟩

/-- Takes in a template. -/
def addTemplate (format : Format) (several : Bool) (name : String) (t : Template) (b : Batch) :
    Batch :=
  { b with
    writes := b.writes ++ t.diagnostics name ++ t.display format several name
    documents := if format = .json then b.documents ++ [t.document name] else b.documents
    errorCount := b.errorCount + t.errors.length }

/-- Takes note of an input that cannot be read. -/
def addFault (name : String) (fault : ReadFault) (b : Batch) : Batch :=
  { b with writes := b.writes ++ [.err (fault.report name)], isComplete := false }

/-- Goes through one input. -/
def step (o : Options) (format : Format) (several : Bool) (b : Batch) (i : Input) : Batch :=
  let after := { b with workspace := i.leave b.workspace }
  match i.text b.workspace with
  | .ok text => after.addTemplate format several i.name (parse o text.toList)
  | .error fault => after.addFault i.name fault

/-- The JSON output of several inputs: a list, unless there is exactly one. -/
def jsonOutput : List Json → String
  | [v] => v.pretty ++ "\n"
  | vs => (Json.arr vs).pretty ++ "\n"

/-- The outcome once all inputs are done with. -/
def finish (inv : Invocation) (b : Batch) : Outcome where
  exitCode := if b.isComplete && !(inv.denyErrors && 0 < b.errorCount) then 0 else 1
  writes := b.writes ++ if inv.format = .json then [.out (jsonOutput b.documents)] else []

end Batch

/-! ## Configuration -/

/-- Why a configuration file cannot be used. -/
inductive ConfigFault where
  | unreadable (fault : ReadFault)
  | invalid (fault : SettingsFault)
  deriving DecidableEq, Repr

/-- The explanation that goes with a fault of the configuration file `path`. -/
def ConfigFault.message (path : String) : ConfigFault → String
  | .unreadable fault => "failed to read " ++ path ++ ": " ++ fault.message
  | .invalid fault =>
    "invalid config " ++ path ++ ": " ++ fault.message?.getD "malformed settings"

namespace Invocation

/-- The settings of a configuration file with those of the command line on top. -/
def override (inv : Invocation) (s : ParserSettings) : ParserSettings :=
  { s with
    preset := inv.preset.getD s.preset
    whitespace := inv.whitespace.or s.whitespace
    comments := if inv.noComments then some false else s.comments
    delimiters := inv.delimiters.or s.delimiters }

/-- Reads a configuration file. -/
def loadConfigFile (w : Workspace) (path : String) : Except ConfigFault ConfigFile :=
  match w.read ⟨path⟩ with
  | .error fault => .error (.unreadable fault)
  | .ok text =>
    match ConfigFile.ofText text.toList with
    | .ok config => .ok config
    | .error fault => .error (.invalid fault)

/-- The configuration of a workspace; where it has none that can be used, the default one. -/
def implicitConfig (w : Workspace) : ConfigFile :=
  match loadConfigFile w ConfigFile.filename with
  | .ok config => config
  | .error _ => .default

/-- The configuration that a command line asks for; the fault is put in words. -/
def loadConfig (w : Workspace) (inv : Invocation) : Except String ConfigFile :=
  match inv.config with
  | some path => (loadConfigFile w path).mapError (·.message path)
  | none => .ok (implicitConfig w)

/-- The files that a command line makes a program read. -/
def paths (expand : String → List Path) (inv : Invocation) : List Path :=
  ⟨inv.config.getD ConfigFile.filename⟩ ::
    (Input.collect expand inv.sources).filterMap Input.path?

/-- Does what a command line asks for. Patterns that match no file at all leave nothing to do. -/
def run (w : Workspace) (inv : Invocation) : Outcome :=
  match inv.loadConfig w with
  | .error message => ⟨1, [.err ("error: " ++ message)]⟩
  | .ok config =>
    let o := (inv.override config.parser).toOptions
    match Input.collect w.expand inv.sources with
    | [] => ⟨0, []⟩
    | inputs =>
      (inputs.foldl (Batch.step o inv.format (1 < inputs.length)) (.start w)).finish inv

end Invocation

end Stencil
