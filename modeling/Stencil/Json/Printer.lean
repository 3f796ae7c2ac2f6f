import Stencil.Json

/-! # Writing JSON

Two forms: on one line without blanks, and over several lines with an indent of two spaces. Members
are written in the order they have.
-/

namespace Stencil.Json

/-- A hexadecimal digit. -/
def hexChar (n : Nat) : Char :=
  (Nat.toDigits 16 n).headD '0'

/-- How a character is written in a string. -/
def writeChar (acc : String) (c : Char) : String :=
  if c == '\x22' then acc ++ "\\\""
  else if c == '\\' then acc ++ "\\\\"
  else if c == '\n' then acc ++ "\\n"
  else if c == '\r' then acc ++ "\\r"
  else if c == '\t' then acc ++ "\\t"
  else if c == '\x08' then acc ++ "\\b"
  else if c == '\x0c' then acc ++ "\\f"
  else if c.toNat < 0x20 then
    ((acc ++ "\\u00").push (hexChar (c.toNat / 16))).push (hexChar (c.toNat % 16))
  else acc.push c

/-- Writes a string with its quotes behind `acc`. -/
def writeString (acc s : String) : String :=
  (s.toList.foldl writeChar (acc.push '\x22')).push '\x22'

mutual

/-- Writes a value on one line behind `acc`. -/
def writeCompact (acc : String) : Json → String
  | .null => acc ++ "null"
  | .bool true => acc ++ "true"
  | .bool false => acc ++ "false"
  | .int n => acc ++ toString n
  | .decimal literal => acc ++ literal
  | .str s => writeString acc s
  | .arr items => (writeCompactItems true (acc.push '[') items).push ']'
  | .obj members => (writeCompactMembers true (acc.push '\x7b') members).push '\x7d'
  | .unpaired => acc ++ "null"
  | .misnamed v => writeCompact acc v
  | .broken => acc ++ "null"

/-- Writes items with commas between them. -/
def writeCompactItems (isFirst : Bool) (acc : String) : List Json → String
  | [] => acc
  | v :: items =>
    writeCompactItems false (writeCompact (if isFirst then acc else acc.push ',') v) items

/-- Writes members with commas between them. -/
def writeCompactMembers (isFirst : Bool) (acc : String) : List (String × Json) → String
  | [] => acc
  | (key, v) :: members =>
    let acc := writeString (if isFirst then acc else acc.push ',') key
    writeCompactMembers false (writeCompact (acc.push ':') v) members

end

/-- A value on one line. -/
def compact (v : Json) : String :=
  writeCompact "" v

/-- Starts a new line behind `acc`, `depth` levels deep. -/
def writeBreak (acc : String) (depth : Nat) : String :=
  (List.replicate (2 * depth) ' ').foldl String.push (acc.push '\n')

mutual

/-- Writes a value over several lines behind `acc`, `depth` levels deep. -/
def writePretty (depth : Nat) (acc : String) : Json → String
  | .arr [] => acc ++ "[]"
  | .arr (v :: items) =>
    let acc := writePretty (depth + 1) (writeBreak (acc.push '[') (depth + 1)) v
    (writeBreak (writePrettyItems (depth + 1) acc items) depth).push ']'
  | .obj [] => (acc.push '\x7b').push '\x7d'
  | .obj ((key, v) :: members) =>
    let acc := writeString (writeBreak (acc.push '\x7b') (depth + 1)) key
    let acc := writePretty (depth + 1) (acc ++ ": ") v
    (writeBreak (writePrettyMembers (depth + 1) acc members) depth).push '\x7d'
  | v => writeCompact acc v

/-- Writes the further items of an array. -/
def writePrettyItems (depth : Nat) (acc : String) : List Json → String
  | [] => acc
  | v :: items =>
    writePrettyItems depth (writePretty depth (writeBreak (acc.push ',') depth) v) items

/-- Writes the further members of an object. -/
def writePrettyMembers (depth : Nat) (acc : String) : List (String × Json) → String
  | [] => acc
  | (key, v) :: members =>
    let acc := writeString (writeBreak (acc.push ',') depth) key
    writePrettyMembers depth (writePretty depth (acc ++ ": ") v) members

end

/-- A value over several lines. -/
def pretty (v : Json) : String :=
  writePretty 0 "" v

end Stencil.Json
