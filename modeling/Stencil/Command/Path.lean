import Stencil.Text.Blank

/-! # Paths

A path is kept as it is written and compared by its components, so two spellings of one path are
the same path.
-/

namespace Stencil

/-- A path. -/
structure Path where
  /-- The path as it is written. -/
  text : String
  deriving DecidableEq, Repr

namespace Path

/-- A step of a path. -/
inductive Component where
  /-- To the root of all files. -/
  | root
  /-- To the current directory. -/
  | current
  /-- To the directory above. -/
  | parent
  /-- To the file or directory of that name. -/
  | name (s : String)
  deriving DecidableEq, Repr

namespace Component

/-- The order of components: names come last, in their own order. -/
def le : Component → Component → Bool
  | .root, _ => true
  | _, .root => false
  | .current, _ => true
  | _, .current => false
  | .parent, _ => true
  | _, .parent => false
  | .name a, .name b => decide (a ≤ b)

/-- The component that a piece stands for behind other pieces. An empty piece and a dot say
nothing there. -/
def ofPiece? (piece : String) : Option Component :=
  if piece == "" || piece == "." then none
  else if piece == ".." then some .parent
  else some (.name piece)

/-- The component that a piece stands for in front of other pieces. -/
def ofFirstPiece (piece : String) : Component :=
  if piece == "" then .root else (ofPiece? piece).getD .current

end Component

/-- The pieces of a path between its separators. -/
def pieces (p : Path) : List String :=
  (Text.pieces (· == '/') p.text.toList).map String.ofList

/-- The components of a path. -/
def components (p : Path) : List Component :=
  match p.pieces with
  | [] => []
  | [""] => []
  | first :: rest => .ofFirstPiece first :: rest.filterMap Component.ofPiece?

/-- Two spellings of one path. -/
def same (p q : Path) : Bool :=
  p.components == q.components

/-- The order of lists of components: the first difference decides. -/
def leComponents : List Component → List Component → Bool
  | [], _ => true
  | _ :: _, [] => false
  | a :: as, b :: bs => if a = b then leComponents as bs else a.le b

/-- The order of paths, component by component. -/
def le (p q : Path) : Bool :=
  leComponents p.components q.components

/-- The path of the current directory. -/
def here : Path := ⟨"."⟩

/-- The path leads to the current directory and nowhere else. -/
def isHere (p : Path) : Bool :=
  p.components == [.current]

/-- A path with one more piece. -/
def join (p : Path) (piece : String) : Path :=
  ⟨(if p.text.endsWith "/" then p.text else p.text ++ "/") ++ piece⟩

/-- The path of an entry of a directory. Those of the current directory go by their names alone. -/
def entry (p : Path) (name : String) : Path :=
  if p.isHere then ⟨name⟩ else p.join name

end Path

end Stencil
