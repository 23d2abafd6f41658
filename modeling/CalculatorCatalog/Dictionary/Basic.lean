import CalculatorCatalog.Files.Output
import CalculatorCatalog.Json.Printer
import CalculatorCatalog.Json.Reader

/-!
# The dictionary of label texts

A `Dictionary` maps sections to mappings from short keys to texts. It is read from a JSON object and
written back as one, so a section can hold any value, and whatever is not to be touched is kept as
it is. A `LabelKey` is the dotted key by which a definition refers to a text; `Dictionary.resolve`
looks one up, and `Dictionary.insertEntry` adds one without ever replacing a section that is no
mapping.
-/

set_option autoImplicit false
set_option relaxedAutoImplicit false

namespace CalculatorCatalog

open CalculatorCatalog.Files

/-! ### Label keys -/

/-- A section and a short key in it. -/
structure LabelKey where
  sectionName : String
  short : String
  deriving DecidableEq, Repr

namespace LabelKey

/-- The key in its dotted form. -/
def dotted (key : LabelKey) : String :=
  key.sectionName ++ "." ++ key.short

/-- Reads a dotted key: two parts that are not empty, divided by the only dot. -/
def parse? (text : String) : Option LabelKey :=
  match text.toList.takeWhile (· != '.'), text.toList.dropWhile (· != '.') with
  | c :: sectionName, _ :: d :: short =>
    if (d :: short).contains '.' then none
    else some ⟨String.ofList (c :: sectionName), String.ofList (d :: short)⟩
  | _, _ => none

end LabelKey

/-! ### Dictionaries -/

/-- The sections of a dictionary with what they hold, in the order in which they are written. -/
structure Dictionary where
  sections : List (String × Json)
  deriving Repr, BEq

/-- What looking up a key gives. -/
inductive Resolution where
  | found (text : String)
  /-- An entry is there, but its text is empty. -/
  | empty
  | absent
  /-- The key is not a section and a short key. -/
  | malformed
  deriving DecidableEq, Repr

/-- Whether a text was found. -/
def Resolution.isFound : Resolution → Bool
  | .found _ => true
  | _ => false

/-- Why a dictionary cannot be used. -/
inductive DictionaryError where
  | unreadable (failure : Failure)
  | unparsable (path : Path) (fault : Json.Fault)
  /-- The file holds a value that is no object. -/
  | notObject (path : Path)
  deriving DecidableEq, Repr

namespace Dictionary

/-- The dictionary without sections. -/
def empty : Dictionary := ⟨[]⟩

/-- The dictionary that a JSON object describes. -/
def ofJson? : Json → Option Dictionary
  | .object members => some ⟨members⟩
  | _ => none

/-- What is wrong with a value that is no object. -/
def notObjectPhrase : String := "Root of the dictionary must be an object"

/-- The entry of a key, whatever its value. -/
def entry? (dictionary : Dictionary) (key : LabelKey) : Option Json :=
  match Json.member? key.sectionName dictionary.sections with
  | some (.object members) => Json.member? key.short members
  | _ => none

/-- Looks up a key. -/
def resolveKey (dictionary : Dictionary) (key : LabelKey) : Resolution :=
  match dictionary.entry? key with
  | some (.string text) => if text = "" then .empty else .found text
  | _ => .absent

/-- Looks up a dotted key. -/
def resolve (dictionary : Dictionary) (text : String) : Resolution :=
  match LabelKey.parse? text with
  | none => .malformed
  | some key => dictionary.resolveKey key

/-- Whether there is an entry for a key, whatever its value. -/
def contains (dictionary : Dictionary) (key : LabelKey) : Bool :=
  (dictionary.entry? key).isSome

/-- The entries of a section, none if it is not there yet; `none` if it holds something else. -/
def section? (dictionary : Dictionary) (name : String) : Option (List (String × Json)) :=
  match Json.member? name dictionary.sections with
  | none => some []
  | some (.object members) => some members
  | some _ => none

/-- Gives a section its entries. -/
def setSection (dictionary : Dictionary) (name : String) (entries : List (String × Json)) :
    Dictionary :=
  ⟨Json.insert name (.object entries) dictionary.sections⟩

/-- Gives a key a value, in a section that is created if need be; `none` if the section holds
something that is no mapping. -/
def insertEntry (dictionary : Dictionary) (key : LabelKey) (value : Json) : Option Dictionary :=
  (dictionary.section? key.sectionName).map fun entries ↦
    dictionary.setSection key.sectionName (Json.insert key.short value entries)

/-- The dictionary as it is written. -/
def toText (dictionary : Dictionary) : String :=
  Json.pretty (.object dictionary.sections) ++ "\n"

end Dictionary

/-! ### Files -/

/-- The error as it is reported, from what failed to why. -/
def DictionaryError.chain : DictionaryError → List String
  | .unreadable failure => failure.chain
  | .unparsable path fault => ["Failed to parse dictionary: " ++ path.text, fault.message]
  | .notObject path => ["Invalid dictionary: " ++ path.text, Dictionary.notObjectPhrase]

namespace Dictionary

/-- Reads a dictionary from a file. -/
def load (tree : Tree) (path : Path) : Except DictionaryError Dictionary := do
  let text ← (tree.readText path).mapError fun fault ↦ .unreadable ⟨.readDictionary, path, fault⟩
  let value ← (Json.read text).mapError (.unparsable path)
  match ofJson? value with
  | some dictionary => return dictionary
  | none => .error (.notObject path)

/-- Writes a dictionary to a file, in directories that are created if need be. -/
def save (dictionary : Dictionary) (tree : Tree) (path : Path) : Tree × Option Failure :=
  tree.save .writeDictionary path dictionary.toText

end Dictionary

end CalculatorCatalog
