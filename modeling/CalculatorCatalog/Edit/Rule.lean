import CalculatorCatalog.Edit.Blocks
import CalculatorCatalog.Edit.Categories

/-!
# Rules

A `Rule` names one of the edits that can be made to many sources alike, with what it needs to know.
-/

set_option autoImplicit false
set_option relaxedAutoImplicit false

namespace CalculatorCatalog.Edit

/-- An edit that can be made to any source. -/
inductive Rule where
  /-- Give the categories of an enumeration their new names. -/
  | renameCategories (namespaceName : String)
  /-- Remove the calls of a constructor that have a key. -/
  | removeBlocks (constructor key : String)
  deriving DecidableEq, Repr

/-- Makes the edit. -/
def Rule.apply : Rule → String → Edit
  | .renameCategories namespaceName, content => Edit.renameCategories namespaceName content
  | .removeBlocks constructor key, content => Edit.removeBlocks constructor key content

end CalculatorCatalog.Edit
