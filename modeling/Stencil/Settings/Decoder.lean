import Stencil.Json
import Stencil.Legacy
import Stencil.Options

/-! # Settings from JSON

How single settings are read from JSON values, and how a record of them is read: from an object, in
which unknown members are passed over, or from an array of the fields in their order. The first
fault, in the order of the value, decides.
-/

namespace Stencil

/-- Why settings could not be read. -/
inductive SettingsFault where
  /-- A value is not of the form that is due, or the text is not JSON. -/
  | malformed
  /-- A number that could be a legacy mode is none. -/
  | badMode (n : Nat)
  /-- A text is no legacy setting. -/
  | badSetting (s : String)
  deriving DecidableEq, Repr

/-- The explanation that goes with a fault, for those that have one. -/
def SettingsFault.message? : SettingsFault → Option String
  | .malformed => none
  | .badMode n => some s!"compat mode must be 2 or 3, got {n}"
  | .badSetting s => some ("expected true, false or \"suppress-warning\", got \"" ++ s ++ "\"")

/-- A way to read a setting from a JSON value. -/
abbrev Decoder (α : Type) := Json → Except SettingsFault α

namespace Decoder

def bool : Decoder Bool
  | .bool b => .ok b
  | _ => .error .malformed

def string : Decoder String
  | .str s => .ok s
  | _ => .error .malformed

/-- A number of at most 64 bits. -/
def size : Decoder Nat
  | .int (.ofNat n) => if n < UInt64.size then .ok n else .error .malformed
  | _ => .error .malformed

/-- Two strings. -/
def pair : Decoder (String × String)
  | .arr [.str a, .str b] => .ok (a, b)
  | _ => .error .malformed

/-- One of several names, given as a string or as the key of an object that holds nothing. -/
def oneOf {α : Type} (table : List (String × α)) : Decoder α
  | .str s => (table.lookup s).elim (.error .malformed) .ok
  | .obj [(s, .null)] => (table.lookup s).elim (.error .malformed) .ok
  | _ => .error .malformed

/-- A setting that may be left open. -/
def optional {α : Type} (d : Decoder α) : Decoder (Option α)
  | .null => .ok none
  | v => (d v).map some

/-- A field of a record: its key, and what its value does to the record. -/
structure Field (σ : Type) where
  key : String
  set : Json → σ → Except SettingsFault σ

/-- The field `key` that is read by `d` and stored by `store`. -/
def field {σ α : Type} (key : String) (d : Decoder α) (store : α → σ → σ) : Field σ :=
  ⟨key, fun v r => (d v).map (store · r)⟩

/-- A member that is no field can be passed over: its key names characters and its value is
sound. -/
def isPassable : Json → Bool
  | .misnamed _ => false
  | v => v.isSound

/-- Reads the members of an object in order. A field may not be given twice; `seen` are the keys of
those given so far. -/
def members {σ : Type} (fields : List (Field σ)) (seen : List String) (r : σ) :
    List (String × Json) → Except SettingsFault σ
  | [] => .ok r
  | (key, v) :: rest =>
    match fields.find? fun f => f.key == key with
    | some f =>
      if seen.contains key then .error .malformed
      else
        match f.set v r with
        | .ok r => members fields (key :: seen) r rest
        | .error fault => .error fault
    | none => if isPassable v then members fields seen r rest else .error .malformed

/-- Reads the items of an array as the fields in their order; later fields may be missing. -/
def items {σ : Type} (r : σ) : List (Field σ) → List Json → Except SettingsFault σ
  | _, [] => .ok r
  | [], _ :: _ => .error .malformed
  | f :: fields, v :: rest =>
    match f.set v r with
    | .ok r => items r fields rest
    | .error fault => .error fault

/-- Reads a record. Fields that are not given keep the value that `default` has. -/
def record {σ : Type} (fields : List (Field σ)) (default : σ) : Decoder σ
  | .obj ms => members fields [] default ms
  | .arr vs => items default fields vs
  | _ => .error .malformed

end Decoder

/-- The names of the ways to treat white space. -/
def Whitespace.names : List (String × Whitespace) :=
  [("condense", .condense), ("preserve", .preserve)]

/-- The name of a way to treat white space. -/
def Whitespace.name : Whitespace → String
  | .condense => "condense"
  | .preserve => "preserve"

namespace Legacy

/-- A mode, by its number. -/
def Mode.decode : Decoder Mode
  | .int (.ofNat n) =>
    match Mode.ofNumber? n with
    | some mode => .ok mode
    | none => .error (if n < 256 then .badMode n else .malformed)
  | _ => .error .malformed

/-- What is said about a feature. -/
def Setting.decode : Decoder Setting
  | .bool true => .ok .enabled
  | .bool false => .ok .disabled
  | .str s => if s == "suppress-warning" then .ok .suppressWarning else .error (.badSetting s)
  | _ => .error .malformed

/-- Adds what the members of an object say about features. The last word on a feature counts. -/
def Config.decodeOverrides (config : Config) : List (String × Json) → Except SettingsFault Config
  | [] => .ok config
  | (key, v) :: rest =>
    match Feature.ofKey? key with
    | some f =>
      match Setting.decode v with
      | .ok setting => decodeOverrides (config.set f setting) rest
      | .error fault => .error fault
    | none => .error .malformed

/-- The fields of a legacy configuration. -/
def Config.fields : List (Decoder.Field Config) :=
  [.mk "mode" fun v config => (Mode.decode v).map fun mode => { config with mode := mode },
    .mk "overrides" fun v config =>
      match v with
      | .obj ms => config.decodeOverrides ms
      | _ => .error .malformed]

/-- A legacy configuration; where nothing is said, it is that of mode 2. -/
def Config.decode : Decoder Config :=
  Decoder.record Config.fields (Config.ofMode .v2)

/-- The JSON form of a legacy configuration. -/
def Config.toJson (config : Config) : Json :=
  .object
    [("mode", .nat config.mode.number),
      ("overrides", .object (Feature.all.filterMap fun f =>
        (config.overrides f).map fun setting => (f.key, .str setting.name)))]

end Legacy

end Stencil
