import CalculatorCatalog.Edit.Rule
import CalculatorCatalog.Files.Output

/-!
# Editing files

`Tree.editFile` applies a rule to a file and writes the file back if its text has changed. On a dry
run nothing is written, but the changes are the same.
-/

set_option autoImplicit false
set_option relaxedAutoImplicit false

namespace CalculatorCatalog

/-- What applying a rule to a file has changed. -/
structure FileEdit where
  path : Path
  changes : List Change
  written : Bool
  deriving DecidableEq, Repr

/-- Whether a rule has changed anything in a file. -/
def FileEdit.isChanged (edit : FileEdit) : Bool :=
  !edit.changes.isEmpty

namespace Files.Tree

/-- Applies a rule to a file. -/
def editFile (tree : Tree) (rule : Edit.Rule) (dryRun : Bool) (path : Path) :
    Tree × Except Failure FileEdit :=
  match tree.readText path with
  | .error fault => (tree, .error ⟨.readSource, path, fault⟩)
  | .ok content =>
    let edit := rule.apply content
    if edit.content = content then (tree, .ok ⟨path, [], false⟩)
    else if dryRun then (tree, .ok ⟨path, edit.changes, false⟩)
    else match tree.writeText path edit.content with
      | .ok written => (written, .ok ⟨path, edit.changes, true⟩)
      | .error fault => (tree, .error ⟨.writeSource, path, fault⟩)

/-- Whether a path leads to a regular file. -/
def isFile (tree : Tree) (path : Path) : Bool :=
  match tree.entry path with
  | .ok (.file _) => true
  | _ => false

end Files.Tree

end CalculatorCatalog
