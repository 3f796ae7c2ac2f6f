import Stencil.Cursor
import Stencil.ErrorCode
import Stencil.Legacy

/-! # Readings

The result of reading one piece of a template: what was read, where reading goes on, and what there
is to report about it.
-/

namespace Stencil

/-- What there is to report, in the order it was noticed. -/
structure Log where
  errors : List ParseError
  warnings : List Legacy.Warning
  deriving DecidableEq, Repr

namespace Log

/-- Nothing to report. -/
def empty : Log := ⟨[], []⟩

/-- Errors and nothing else. -/
def ofErrors (errors : List ParseError) : Log := ⟨errors, []⟩

/-- Warnings and nothing else. -/
def ofWarnings (warnings : List Legacy.Warning) : Log := ⟨[], warnings⟩

/-- One error at a position. -/
def error (code : ErrorCode) (p : Position) : Log := ofErrors [.at code p]

instance : Append Log where
  append a b := ⟨a.errors ++ b.errors, a.warnings ++ b.warnings⟩

end Log

/-- Something read from a template. -/
structure Reading (α : Type) where
  value : α
  /-- Where reading goes on. -/
  cursor : Cursor
  log : Log
  deriving Repr

end Stencil
