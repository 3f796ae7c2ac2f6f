import Stencil.Dom
import Stencil.Json.Reader
import Stencil.Settings.Decoder

/-! # Configuration files

A configuration file chooses a preset and changes some of its options. What it does not mention
stays as the preset has it.
-/

namespace Stencil

/-- The rules to start from. -/
inductive Preset where
  /-- No platform. -/
  | base
  /-- The browser platform. -/
  | dom
  deriving DecidableEq, Repr

namespace Preset

def names : List (String × Preset) :=
  [("base", .base), ("dom", .dom)]

def name : Preset → String
  | base => "base"
  | dom => "dom"

/-- The options of a preset. -/
def options : Preset → Options
  | base => Options.base
  | dom => Dom.options

end Preset

/-- Which options to use. -/
structure ParserSettings where
  preset : Preset
  delimiters : Option (String × String)
  whitespace : Option Whitespace
  comments : Option Bool
  legacy : Option Legacy.Config
  maxDepth : Option Nat

namespace ParserSettings

/-- The browser platform, unchanged. -/
def default : ParserSettings := ⟨.dom, none, none, none, none, none⟩

/-- The fields of parser settings. -/
def fields : List (Decoder.Field ParserSettings) :=
  [Decoder.field "preset" (Decoder.oneOf Preset.names) fun v s => { s with preset := v },
    Decoder.field "delimiters" (Decoder.optional Decoder.pair) fun v s =>
      { s with delimiters := v },
    Decoder.field "whitespace" (Decoder.optional (Decoder.oneOf Whitespace.names)) fun v s =>
      { s with whitespace := v },
    Decoder.field "comments" (Decoder.optional Decoder.bool) fun v s => { s with comments := v },
    Decoder.field "compat" (Decoder.optional Legacy.Config.decode) fun v s =>
      { s with legacy := v },
    Decoder.field "maxDepth" (Decoder.optional Decoder.size) fun v s => { s with maxDepth := v }]

def decode : Decoder ParserSettings :=
  Decoder.record fields default

/-- The JSON form: the preset, and what else is set. -/
def toJson (s : ParserSettings) : Json :=
  .object
    ((s.comments.map fun b => ("comments", Json.bool b)).toList ++
      (s.legacy.map fun config => ("compat", config.toJson)).toList ++
      (s.delimiters.map fun (a, b) => ("delimiters", Json.arr [.str a, .str b])).toList ++
      (s.maxDepth.map fun n => ("maxDepth", Json.nat n)).toList ++
      [("preset", .str s.preset.name)] ++
      (s.whitespace.map fun w => ("whitespace", Json.str w.name)).toList)

/-- The options that settings amount to. -/
def toOptions (s : ParserSettings) : Options :=
  let o := s.preset.options
  { o with
    openDelimiter := s.delimiters.elim o.openDelimiter fun d => d.1.toList
    closeDelimiter := s.delimiters.elim o.closeDelimiter fun d => d.2.toList
    whitespace := s.whitespace.getD o.whitespace
    comments := s.comments.getD o.comments
    legacy := s.legacy.or o.legacy
    maxDepth := s.maxDepth.getD o.maxDepth }

end ParserSettings

/-- The content of a configuration file. -/
structure ConfigFile where
  /-- Where a description of the format can be found. -/
  schema : Option String
  parser : ParserSettings

namespace ConfigFile

/-- The name under which a configuration file is looked for. -/
def filename : String := "gesso.config.json"

def default : ConfigFile := ⟨none, .default⟩

def fields : List (Decoder.Field ConfigFile) :=
  [Decoder.field "$schema" (Decoder.optional Decoder.string) fun v c => { c with schema := v },
    Decoder.field "parser" ParserSettings.decode fun v c => { c with parser := v }]

def decode : Decoder ConfigFile :=
  Decoder.record fields default

/-- The JSON form of a configuration file. -/
def toJson (c : ConfigFile) : Json :=
  .object
    ((c.schema.map fun s => ("$schema", Json.str s)).toList ++ [("parser", c.parser.toJson)])

/-- Reads the text of a configuration file. Nothing may follow the configuration. -/
def ofText (s : List Char) : Except SettingsFault ConfigFile :=
  let d := Json.read s
  match decode d.value with
  | .ok c => if d.hasTrailing then .error .malformed else .ok c
  | .error fault => .error fault

end ConfigFile

end Stencil
