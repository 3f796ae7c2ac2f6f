import Stencil.Position

/-! # Legacy syntax

Older templates rely on six features that the language has dropped. A configuration says which of
them are still honoured; honouring one is worth a warning unless the configuration silences it.
-/

namespace Stencil.Legacy

/-- The dropped features. -/
inductive Feature where
  /-- `is` turns an element of the platform into a component. -/
  | isOnElement
  /-- The modifier `sync` makes a binding two-way. -/
  | vBindSync
  /-- The modifier `prop` binds a property in place of an attribute. -/
  | vBindProp
  /-- `for` takes precedence over `if` on one element. -/
  | vIfVForPrecedence
  /-- A plain `template` shows its content. -/
  | nativeTemplate
  /-- The attribute `inline-template` makes the content of an element its template. -/
  | inlineTemplate
  deriving DecidableEq, Repr

/-- Which features are honoured when nothing is said about them. -/
inductive Mode where
  /-- All but those that are disabled. -/
  | v2
  /-- Only those that are enabled. -/
  | v3
  deriving DecidableEq, Repr

/-- What a configuration can say about a feature. -/
inductive Setting where
  | enabled
  | disabled
  /-- As if nothing was said, but without the warning. -/
  | suppressWarning
  deriving DecidableEq, Repr

/-- Which features to honour. -/
structure Config where
  mode : Mode
  overrides : Feature → Option Setting

namespace Feature

/-- All features, in their fixed order. -/
def all : List Feature :=
  [isOnElement, vBindSync, vBindProp, vIfVForPrecedence, nativeTemplate, inlineTemplate]

theorem mem_all (f : Feature) : f ∈ all := by
  cases f <;> decide

/-- The name of a feature in configurations and reports. -/
def key : Feature → String
  | isOnElement => "COMPILER_IS_ON_ELEMENT"
  | vBindSync => "COMPILER_V_BIND_SYNC"
  | vBindProp => "COMPILER_V_BIND_PROP"
  | vIfVForPrecedence => "COMPILER_V_IF_V_FOR_PRECEDENCE"
  | nativeTemplate => "COMPILER_NATIVE_TEMPLATE"
  | inlineTemplate => "COMPILER_INLINE_TEMPLATE"

/-- The feature of a given name. -/
def ofKey? (s : String) : Option Feature :=
  all.find? fun f => f.key == s

/-- Why a feature should not be used any more. `subject` is what the advice is about, where it
names something. -/
def advice (subject : Option String) : Feature → String
  | isOnElement =>
    "Platform-native elements with \"is\" prop will no longer be treated as components unless " ++
      "the \"is\" value is explicitly prefixed with \"vue:\"."
  | vBindSync =>
    let key := subject.getD "key"
    ".sync modifier for v-bind has been removed. Use v-model with argument instead. " ++
      "\x60v-bind:" ++ key ++ ".sync\x60 should be changed to \x60v-model:" ++ key ++ "\x60."
  | vBindProp =>
    ".prop modifier for v-bind has been removed and no longer necessary. " ++
      "The binding is set as a DOM property automatically when appropriate."
  | vIfVForPrecedence =>
    "v-if / v-for precedence when used on the same element has changed: v-if now takes higher " ++
      "precedence and will no longer have access to v-for scope variables. Avoid the ambiguity " ++
      "with <template> tags or use a computed property that filters v-for data source."
  | nativeTemplate =>
    "<template> with no special directives will render as a native template element instead of " ++
      "its inner content."
  | inlineTemplate => "\"inline-template\" has been removed."

/-- The text of a warning about a feature. -/
def message (f : Feature) (subject : Option String) : String :=
  "(deprecation " ++ f.key ++ ") " ++ f.advice subject

end Feature

namespace Setting

/-- The name of a setting in reports. -/
def name : Setting → String
  | enabled => "Enabled"
  | disabled => "Disabled"
  | suppressWarning => "SuppressWarning"

end Setting

namespace Mode

/-- The number that stands for a mode. -/
def number : Mode → Nat
  | v2 => 2
  | v3 => 3

/-- The mode that a number stands for. -/
def ofNumber? : Nat → Option Mode
  | 2 => some v2
  | 3 => some v3
  | _ => none

end Mode

namespace Config

/-- A mode without a word on single features. -/
def ofMode (mode : Mode) : Config := ⟨mode, fun _ => none⟩

/-- Says something about one feature; what was said about it before is forgotten. -/
def set (config : Config) (f : Feature) (setting : Setting) : Config :=
  { config with overrides := fun g => if g = f then some setting else config.overrides g }

/-- A feature is honoured: in mode 3 when it is enabled, in mode 2 unless it is disabled. -/
def isEnabled (config : Config) (f : Feature) : Bool :=
  match config.mode with
  | .v3 => config.overrides f == some .enabled
  | .v2 => config.overrides f != some .disabled

/-- Warnings about a feature are silenced. -/
def isSilenced (config : Config) (f : Feature) : Bool :=
  config.overrides f == some .suppressWarning

end Config

/-- A warning: a dropped feature was honoured. -/
structure Warning where
  feature : Feature
  loc : Option Location
  /-- What the advice is about, where it names something. -/
  subject : Option (List Char)
  deriving DecidableEq, Repr

/-- The text of a warning. -/
def Warning.message (w : Warning) : String :=
  w.feature.message (w.subject.map String.ofList)

/-- A feature is honoured under an optional configuration; without one none is. -/
def isEnabled (config : Option Config) (f : Feature) : Bool :=
  config.any (·.isEnabled f)

/-- The warnings that a use of a feature is worth. -/
def warn (config : Option Config) (f : Feature) (loc : Location)
    (subject : Option (List Char)) : List Warning :=
  if config.any (·.isSilenced f) then [] else [⟨f, some loc, subject⟩]

/-- The warnings that a use of a feature is worth if the feature is honoured. -/
def check (config : Option Config) (f : Feature) (loc : Location)
    (subject : Option (List Char)) : List Warning :=
  if isEnabled config f then warn config f loc subject else []

end Stencil.Legacy
