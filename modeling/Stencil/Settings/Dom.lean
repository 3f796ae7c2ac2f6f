import Stencil.Parse
import Stencil.Settings.Decoder

/-! # Options of the browser platform

The options that a user of the browser platform can set.
-/

namespace Stencil

/-- What can be set on the browser platform. -/
structure DomSettings where
  whitespace : Whitespace
  comments : Bool
  delimiters : Option (String × String)
  legacy : Option Legacy.Config
  maxDepth : Nat

namespace DomSettings

def default : DomSettings := ⟨.condense, true, none, none, Options.defaultMaxDepth⟩

/-- The fields of the settings. -/
def fields : List (Decoder.Field DomSettings) :=
  [Decoder.field "whitespace" (Decoder.oneOf Whitespace.names) fun v s =>
      { s with whitespace := v },
    Decoder.field "comments" Decoder.bool fun v s => { s with comments := v },
    Decoder.field "delimiters" (Decoder.optional Decoder.pair) fun v s =>
      { s with delimiters := v },
    Decoder.field "compat" (Decoder.optional Legacy.Config.decode) fun v s =>
      { s with legacy := v },
    Decoder.field "maxDepth" Decoder.size fun v s => { s with maxDepth := v }]

def decode : Decoder DomSettings :=
  Decoder.record fields default

/-- The JSON form of the settings. -/
def toJson (s : DomSettings) : Json :=
  .object
    [("comments", .bool s.comments),
      ("compat", s.legacy.elim .null Legacy.Config.toJson),
      ("delimiters", s.delimiters.elim .null fun (a, b) => .arr [.str a, .str b]),
      ("maxDepth", .nat s.maxDepth), ("whitespace", .str s.whitespace.name)]

/-- The settings on top of other options. -/
def apply (s : DomSettings) (o : Options) : Options :=
  { o with
    openDelimiter := s.delimiters.elim o.openDelimiter fun d => d.1.toList
    closeDelimiter := s.delimiters.elim o.closeDelimiter fun d => d.2.toList
    whitespace := s.whitespace
    comments := s.comments
    legacy := s.legacy
    maxDepth := s.maxDepth }

end DomSettings

/-- Reads a template by the rules of the browser platform. -/
def Dom.parse (s : DomSettings) (source : List Char) : Template :=
  Stencil.parse (s.apply Dom.options) source

end Stencil
