/-!
# Edits

An `Edit` is the new text of a source together with the list of what was changed in it. Each
`Change` knows the line, in the text before the edit, that it concerns.
-/

set_option autoImplicit false
set_option relaxedAutoImplicit false

namespace CalculatorCatalog

/-- One change to a source. -/
inductive Change where
  | categoryRenamed (line : Nat) (oldName newName : String)
  | blockRemoved (line : Nat)
  deriving DecidableEq, Repr

/-- The line that a change concerns. -/
def Change.line : Change → Nat
  | .categoryRenamed line _ _ => line
  | .blockRemoved line => line

/-- The change in words. -/
def Change.phrase : Change → String
  | .categoryRenamed line oldName newName => s!"line {line}: {oldName} -> {newName}"
  | .blockRemoved line => s!"line {line}: removed block"

/-- The new text of a source and what was changed. -/
structure Edit where
  content : String
  changes : List Change
  deriving DecidableEq, Repr

end CalculatorCatalog
