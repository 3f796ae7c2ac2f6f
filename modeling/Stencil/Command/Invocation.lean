import Stencil.Settings.Config

/-! # Command lines

What a command line asks for. Options can stand before or after the inputs; an option that takes a
value accepts it as the next argument or attached to its name. How much a command logs is not part of
what is asked for: the two switches for that are read and checked, and then nothing depends on them.
-/

namespace Stencil

/-- How a template is shown. -/
inductive Format where
  /-- As an outline. -/
  | tree
  /-- As JSON. -/
  | json
  /-- As counts. -/
  | stats
  deriving DecidableEq, Repr

/-- What a command line asks for. -/
structure Invocation where
  /-- Paths and patterns of the inputs, as far as any are given; a hyphen stands for the standard
  input. -/
  patterns : List String
  format : Format
  preset : Option Preset
  whitespace : Option Whitespace
  noComments : Bool
  /-- The delimiters, if exactly two texts were given for them. -/
  delimiters : Option (String × String)
  config : Option String
  /-- An error in a template makes the command fail. -/
  denyErrors : Bool
  deriving Repr

namespace Invocation

/-- The argument that stands for the standard input. -/
def stdinPattern : String := "-"

/-- What is asked for when nothing is said. -/
def default : Invocation := ⟨[], .tree, none, none, false, none, none, false⟩

/-- The paths and patterns to go through: those given, or else the standard input. -/
def sources (inv : Invocation) : List String :=
  if inv.patterns.isEmpty then [stdinPattern] else inv.patterns

/-- The options of the command line. -/
inductive Switch where
  /-- Logs more. -/
  | verbose
  /-- Logs less. -/
  | quiet
  | format
  | preset
  | whitespace
  | noComments
  | delimiters
  | config
  | denyErrors
  deriving DecidableEq, Repr

namespace Switch

/-- The number of values that an option takes. -/
def arity : Switch → Nat
  | verbose | quiet | noComments | denyErrors => 0
  | format | preset | whitespace | config => 1
  | delimiters => 2

/-- An option that may be given more than once. -/
def isRepeatable : Switch → Bool
  | verbose | delimiters => true
  | quiet | format | preset | whitespace | noComments | config | denyErrors => false

/-- The options known before the command. -/
def general : List Switch := [verbose, quiet]

/-- The options known after the command. -/
def all : List Switch :=
  [verbose, quiet, format, preset, whitespace, noComments, delimiters, config, denyErrors]

def longName : Switch → String
  | verbose => "verbose"
  | quiet => "quiet"
  | format => "format"
  | preset => "preset"
  | whitespace => "whitespace"
  | noComments => "no-comments"
  | delimiters => "delimiters"
  | config => "config"
  | denyErrors => "deny-errors"

def shortName? : Switch → Option Char
  | verbose => some 'v'
  | quiet => some 'q'
  | format => some 'f'
  | config => some 'c'
  | preset | whitespace | noComments | delimiters | denyErrors => none

end Switch

/-- What was found on a command line. -/
inductive Item where
  | switch (s : Switch) (values : List String)
  | operand (s : String)
  deriving DecidableEq, Repr

/-- An argument that is an option rather than a value. -/
def isOption (arg : String) : Bool :=
  arg.startsWith "-" && arg != "-"

/-- The first `n` arguments, all of which have to be values. -/
def values? : Nat → List String → Option (List String)
  | 0, _ => some []
  | _ + 1, [] => none
  | n + 1, arg :: args => if isOption arg then none else (values? n args).map (arg :: ·)

/-- Reads an option by its long name; the result tells how many further arguments it takes. -/
def long? (known : List Switch) (name : List Char) (args : List String) : Option (Item × Nat) :=
  let key := name.takeWhile (· != '=')
  let attached := name.drop key.length
  match known.find? fun s => s.longName == String.ofList key with
  | none => none
  | some s =>
    match attached with
    | [] => (values? s.arity args).map fun vs => (.switch s vs, s.arity)
    | _ :: value => if s.arity = 1 then some (.switch s [String.ofList value], 0) else none

/-- Reads options by their short names. One that takes a value takes the rest of the argument, or
else the next argument. -/
def short? (known : List Switch) (args : List String) : List Char → Option (List Item × Nat)
  | [] => some ([], 0)
  | c :: cs =>
    match known.find? fun s => s.shortName? == some c with
    | none => none
    | some s =>
      if s.arity = 0 then (short? known args cs).map fun (items, n) => (.switch s [] :: items, n)
      else
        match cs with
        | [] => (values? s.arity args).map fun vs => ([.switch s vs], s.arity)
        | '=' :: value => some ([.switch s [String.ofList value]], 0)
        | value => some ([.switch s [String.ofList value]], 0)

/-- Reads arguments, the first `skip` left out. After two hyphens everything is an operand. -/
def items? (known : List Switch) (skip : Nat) : List String → Option (List Item)
  | [] => some []
  | arg :: args =>
    match skip with
    | skip + 1 => items? known skip args
    | 0 =>
      if arg == "--" then some (args.map .operand)
      else if !isOption arg then (items? known 0 args).map (.operand arg :: ·)
      else
        match arg.toList with
        | '-' :: '-' :: name =>
          match long? known name args with
          | some (item, n) => (items? known n args).map (item :: ·)
          | none => none
        | '-' :: letters =>
          match short? known args letters with
          | some (items, n) => (items? known n args).map (items ++ ·)
          | none => none
        | _ => none

/-- The values of an option that was given. -/
def Item.valuesOf? (s : Switch) : Item → Option (List String)
  | .switch t values => if t = s then some values else none
  | .operand _ => none

/-- The values of an option, if it was given. -/
def given? (s : Switch) (items : List Item) : Option (List String) :=
  items.findSome? (Item.valuesOf? s)

/-- The values of an option from all the times that it was given. -/
def allValues (s : Switch) (items : List Item) : List String :=
  items.flatMap fun i => (i.valuesOf? s).getD []

/-- No option is given twice that may not be repeated, and none with one it excludes. -/
def isConsistent (items : List Item) : Bool :=
  (Switch.all.all fun s =>
    s.isRepeatable || (items.filter fun i => (i.valuesOf? s).isSome).length ≤ 1) &&
  !((given? .quiet items).isSome && (given? .verbose items).isSome)

/-- The value of an option that takes a name out of a table. The outer result is `none` for a name
that is not in the table. -/
def named? {α : Type} (table : List (String × α)) : Option (List String) → Option (Option α)
  | some (value :: _) => (table.lookup value).map some
  | _ => some none

/-- The names of the formats. -/
def formats : List (String × Format) :=
  [("tree", .tree), ("json", .json), ("stats", .stats)]

/-- What the arguments after the command ask for. -/
def ofItems? (items : List Item) : Option Invocation := do
  if !isConsistent items then none
  let format ← named? formats (given? .format items)
  let preset ← named? Preset.names (given? .preset items)
  let whitespace ← named? Whitespace.names (given? .whitespace items)
  if given? .config items == some [""] then none
  let operands := items.filterMap fun
    | .operand s => some s
    | .switch .. => none
  return {
    patterns := operands
    format := format.getD .tree
    preset := preset
    whitespace := whitespace
    noComments := (given? .noComments items).isSome
    delimiters :=
      match allValues .delimiters items with
      | [a, b] => some (a, b)
      | _ => none
    config := (given? .config items).bind List.head?
    denyErrors := (given? .denyErrors items).isSome }

/-- The only command. -/
def commandName : String := "parse"

/-- The arguments before the command, and the command with the arguments after it, if there is one.
After two hyphens there is none. -/
def splitCommand : List String → List String × Option (String × List String)
  | [] => ([], none)
  | arg :: args =>
    if arg == "--" then (arg :: args, none)
    else if isOption arg then
      let (before, command) := splitCommand args
      (arg :: before, command)
    else ([], some (arg, args))

/-- An argument that is no option. -/
def Item.isOperand : Item → Bool
  | .operand _ => true
  | .switch .. => false

/-- What a command line asks for, `none` if it is not one. Without the command, it is what the command
asks for without arguments. Only the command takes operands. -/
def ofArgs? (args : List String) : Option Invocation :=
  let (before, command) := splitCommand args
  match items? Switch.general 0 before with
  | none => none
  | some items =>
    if !isConsistent items || items.any Item.isOperand then none
    else
      match command with
      | none => some default
      | some (name, rest) =>
        if name == commandName then (items? Switch.all 0 rest).bind ofItems? else none

end Invocation

end Stencil
