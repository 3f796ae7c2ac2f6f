import Stencil.Dom
import Stencil.Read.Progress

/-! # Parsing

The whole way from the text of a template to its tree and what there is to report about it.
-/

namespace Stencil

/-- A template that has been read. -/
structure Template where
  root : Root
  errors : List ParseError
  warnings : List Legacy.Warning
  deriving Repr

namespace State

/-- Reads on until the template is complete. -/
def run (o : Options) (source : List Char) (s : State) : State :=
  if _h : s.isDone = true then s else run o source (s.step o source)
termination_by s.size
decreasing_by exact size_step_lt o source (by simpa using _h)

/-- The template that a complete reading amounts to. -/
def result (o : Options) (source : List Char) (s : State) : Template where
  root :=
    { children := Siblings.settle o source s.flags.pre false s.roots.reverse
      loc := (Cursor.ofText source).locationTo s.cursor }
  errors := s.errors.reverse
  warnings := s.warnings.reverse

end State

/-- Reads a template. -/
def parse (o : Options) (source : List Char) : Template :=
  ((State.initial source).run o source).result o source

end Stencil
