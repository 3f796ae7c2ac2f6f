/-! # JSON values

Values of the JSON data format. Numbers are whole numbers or kept as they were written, since
nothing here computes with fractions. A value that was read from a damaged text says where the
damage is.
-/

namespace Stencil

/-- A JSON value. -/
inductive Json where
  | null
  | bool (b : Bool)
  | int (n : Int)
  /-- A number that is not written as a whole number. -/
  | decimal (literal : String)
  | str (s : String)
  | arr (items : List Json)
  /-- The members in order; a key can stand more than once. -/
  | obj (members : List (String × Json))
  /-- A string whose escapes do not name characters. -/
  | unpaired
  /-- The value of a member whose key has escapes that do not name characters. -/
  | misnamed (v : Json)
  /-- The place where a text stops being JSON. -/
  | broken
  deriving Repr

namespace Json

mutual

/-- The text that a value was read from is JSON up to its end. -/
def isSound : Json → Bool
  | .broken => false
  | .arr items => allSound items
  | .obj members => allMembersSound members
  | .misnamed v => v.isSound
  | .null | .bool _ | .int _ | .decimal _ | .str _ | .unpaired => true

/-- All items are sound. -/
def allSound : List Json → Bool
  | [] => true
  | v :: items => v.isSound && allSound items

/-- The values of all members are sound. -/
def allMembersSound : List (String × Json) → Bool
  | [] => true
  | (_, v) :: members => v.isSound && allMembersSound members

end

/-- An object with its members in the order of their keys. -/
def object (members : List (String × Json)) : Json :=
  .obj (members.mergeSort fun a b => a.1 ≤ b.1)

/-- A number of things. -/
def nat (n : Nat) : Json := .int n

/-- A text. -/
def text (s : List Char) : Json := .str (String.ofList s)

/-- The value of a member of an object. -/
def get? (v : Json) (key : String) : Option Json :=
  match v with
  | .obj members => members.lookup key
  | _ => none

end Json

end Stencil
