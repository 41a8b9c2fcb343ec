/-!
# Nesting of braces and interpolations

A right brace closes a brace or resumes a template. Which one is told by counting, for the code
outside every template and for each open interpolation, the braces opened there and not yet closed.
The count of the innermost interpolation is on top.
-/

namespace EcmaLex

/-- Counts of open braces: in the innermost open interpolation, then in those around it, outermost
code last. -/
structure Nesting where
  top : UInt32
  outer : List UInt32
  deriving DecidableEq, Repr

namespace Nesting

/-- No interpolation and no brace is open. -/
def empty : Nesting := { top := 0, outer := [] }

/-- One for the outermost code and one for each open interpolation. -/
def depth (nesting : Nesting) : Nat :=
  nesting.outer.length + 1

def inInterpolation (nesting : Nesting) : Bool :=
  !nesting.outer.isEmpty

/-- Whether a right brace here resumes the enclosing template. -/
def atInterpolationEnd (nesting : Nesting) : Bool :=
  nesting.inInterpolation && nesting.top == 0

/-- Enters an interpolation. -/
def enter (nesting : Nesting) : Nesting :=
  { top := 0, outer := nesting.top :: nesting.outer }

/-- Leaves the innermost interpolation, if there is one. -/
def leave (nesting : Nesting) : Nesting :=
  match nesting.outer with
  | [] => nesting
  | top :: outer => { top, outer }

/-- Opens a brace. -/
def openBrace (nesting : Nesting) : Nesting :=
  { nesting with top := nesting.top + 1 }

/-- Closes a brace. There must be one to close in the innermost interpolation. -/
def closeBrace? (nesting : Nesting) : Option Nesting :=
  if nesting.top = 0 then none else some { nesting with top := nesting.top - 1 }

/-- Closes a brace if there is one to close. -/
def closeBrace (nesting : Nesting) : Nesting :=
  nesting.closeBrace?.getD nesting

@[simp] theorem leave_enter (nesting : Nesting) : nesting.enter.leave = nesting := rfl

@[simp] theorem depth_enter (nesting : Nesting) : nesting.enter.depth = nesting.depth + 1 := rfl

@[simp] theorem atInterpolationEnd_enter (nesting : Nesting) :
    nesting.enter.atInterpolationEnd = true := rfl

end Nesting

end EcmaLex
