import CalculatorCatalog.Dictionary.Basic
import CalculatorCatalog.Naming

/-!
# Filling in missing label texts

`Dictionary.backfill` enters a text for every key of a list that has no entry yet. It never changes
an entry that is there, and never replaces a section that is no mapping. For each key there is one
`Outcome`, in the order of the keys; a key that is repeated is entered once.
-/

set_option autoImplicit false
set_option relaxedAutoImplicit false

namespace CalculatorCatalog

open CalculatorCatalog.Naming CalculatorCatalog.Files

/-- What became of a key for which a text was to be entered. -/
inductive Outcome where
  | inserted (key label : String) (source : LabelSource)
  /-- There is an entry already. -/
  | present (key : String)
  /-- The key is not a section and a short key. -/
  | malformed (key : String)
  /-- The section holds something that is no mapping. -/
  | conflict (key sectionName : String)
  deriving DecidableEq, Repr

/-- The key that an outcome is about. -/
def Outcome.key : Outcome → String
  | .inserted key _ _ => key
  | .present key => key
  | .malformed key => key
  | .conflict key _ => key

/-- Whether a text was entered. -/
def Outcome.isInserted : Outcome → Bool
  | .inserted _ _ _ => true
  | _ => false

/-- Whether a text was entered that comes from the given source. -/
def Outcome.isFrom (wanted : LabelSource) : Outcome → Bool
  | .inserted _ _ source => source = wanted
  | _ => false

/-- Whether there was an entry already. -/
def Outcome.isPresent : Outcome → Bool
  | .present _ => true
  | _ => false

/-- Whether the key could not be entered. -/
def Outcome.isRejected : Outcome → Bool
  | .malformed _ => true
  | .conflict _ _ => true
  | _ => false

namespace Dictionary

/-- Enters a text for one key unless there is an entry. -/
def backfillKey (dictionary : Dictionary) (text : String) : Dictionary × Outcome :=
  match LabelKey.parse? text with
  | none => (dictionary, .malformed text)
  | some key =>
    if dictionary.contains key then (dictionary, .present text)
    else
      let (label, source) := chooseLabel key.short
      match dictionary.insertEntry key (.string label) with
      | none => (dictionary, .conflict text key.sectionName)
      | some extended => (extended, .inserted text label source)

/-- Enters a text for every key of a list that has no entry. -/
def backfill (dictionary : Dictionary) : List String → Dictionary × List Outcome
  | [] => (dictionary, [])
  | text :: texts =>
    let (dictionary, outcome) := dictionary.backfillKey text
    let (dictionary, outcomes) := dictionary.backfill texts
    (dictionary, outcome :: outcomes)

/-- Whether outcomes mean that the dictionary has changed. -/
def isChangedBy (outcomes : List Outcome) : Bool :=
  outcomes.any Outcome.isInserted

/-- Writes a dictionary to a file if it has changed, and says whether it was written. -/
def saveIfChanged (dictionary : Dictionary) (outcomes : List Outcome) (tree : Tree) (path : Path) :
    Tree × Except Failure Bool :=
  if isChangedBy outcomes then
    match dictionary.save tree path with
    | (tree, none) => (tree, .ok true)
    | (tree, some failure) => (tree, .error failure)
  else (tree, .ok false)

end Dictionary

end CalculatorCatalog
