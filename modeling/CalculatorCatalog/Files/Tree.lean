import CalculatorCatalog.Files.Path
import CalculatorCatalog.Text.Utf8

/-!
# File trees

A `Tree` holds the files and directories below a working directory. An entry is found at its
*address*, the list of names that lead to it; `Tree.address` follows the text of a path to an
address name by name, as far as the directories on the way exist. Reading, writing and creating
give either the new tree or a `Fault`. A tree also holds the `Refusal`s of the system: addresses at
which nothing can be written or created, whatever is there.

Beyond the working directory there are directories that hold nothing: the ones above it, at
addresses of double dots, and the root, at the address of a slash.
-/

set_option autoImplicit false
set_option relaxedAutoImplicit false

namespace CalculatorCatalog.Files

open CalculatorCatalog.Text

/-- Why the system does not open anything for writing at an address. It says so before anything
changes. -/
inductive Refusal where
  | permissionDenied
  | readOnlySystem
  | noSpace
  | inputOutput
  deriving DecidableEq, Repr

/-- The refusal as it is reported. -/
def Refusal.message : Refusal → String
  | .permissionDenied => "Permission denied (os error 13)"
  | .readOnlySystem => "Read-only file system (os error 30)"
  | .noSpace => "No space left on device (os error 28)"
  | .inputOutput => "Input/output error (os error 5)"

/-- Why a file operation fails. -/
inductive Fault where
  | notFound
  | alreadyExists
  | notDirectory
  | isDirectory
  | nameTooLong
  | invalidText
  | nulByte
  | refused (refusal : Refusal)
  deriving DecidableEq, Repr

/-- The fault as it is reported. -/
def Fault.message : Fault → String
  | .notFound => "No such file or directory (os error 2)"
  | .alreadyExists => "File exists (os error 17)"
  | .notDirectory => "Not a directory (os error 20)"
  | .isDirectory => "Is a directory (os error 21)"
  | .nameTooLong => "File name too long (os error 36)"
  | .invalidText => "stream did not contain valid UTF-8"
  | .nulByte => "file name contained an unexpected NUL byte"
  | .refused refusal => refusal.message

/-- What a file holds: a text, or bytes that are no text. -/
inductive Content where
  | text (text : String)
  | bytes (bytes : List UInt8)
  deriving DecidableEq, Repr

/-- The content that bytes make up: a text if they are valid UTF-8. -/
def Content.ofBytes (raw : ByteArray) : Content :=
  match String.fromUTF8? raw with
  | some decoded => .text decoded
  | none => .bytes raw.toList

/-- The bytes of a content. -/
def Content.toBytes : Content → ByteArray
  | .text decoded => decoded.toUTF8
  | .bytes raw => ⟨raw.toArray⟩

/-- A file or a directory. -/
inductive Entry where
  | file (content : Content)
  | directory
  deriving DecidableEq, Repr

/-- The names that lead from the working directory to an entry. -/
abbrev Address : Type := List String

/-- The files and directories below a working directory. -/
structure Tree where
  entries : List (Address × Entry)
  /-- The addresses at which nothing can be written or created, and why. What is there can be read
  all the same. -/
  refusals : List (Address × Refusal)
  deriving DecidableEq, Repr

namespace Tree

/-- The tree of an empty working directory. -/
def empty : Tree := ⟨[], []⟩

/-! ### Addresses -/

/-- Whether an address is that of a directory that holds no entries of the tree. -/
def isOutside (address : Address) : Bool :=
  address = ["/"] || address.all (· == "..")

/-- The entry at an address. The working directory is always there. -/
def get? (tree : Tree) (address : Address) : Option Entry :=
  if isOutside address then some .directory else tree.entries.lookup address

/-- Puts an entry at an address, in the place of the one that was there. -/
def put (tree : Tree) (address : Address) (entry : Entry) : Tree :=
  if tree.entries.any (·.1 = address) then
    { tree with
      entries := tree.entries.map fun old ↦ if old.1 = address then (address, entry) else old }
  else { tree with entries := tree.entries ++ [(address, entry)] }

/-- Removes the entry at an address and all below it. -/
def remove (tree : Tree) (address : Address) : Tree :=
  { tree with entries := tree.entries.filter fun entry ↦ !address.isPrefixOf entry.1 }

/-- Why nothing can be written at an address, if the system refuses it. -/
def refusal? (tree : Tree) (address : Address) : Option Refusal :=
  tree.refusals.lookup address

/-- Puts an entry at an address unless the system refuses it. -/
def tryPut (tree : Tree) (address : Address) (entry : Entry) : Except Fault Tree :=
  match tree.refusal? address with
  | some refusal => .error (.refused refusal)
  | none => .ok (tree.put address entry)

/-- The longest name of an entry, in bytes. -/
def maxName : Nat := 255

/-- The length, in bytes, from which a path is refused whole. -/
def maxPath : Nat := 4096

/-- The address of the directory above. -/
def above (address : Address) : Address :=
  if address = ["/"] then address
  else if address.all (· == "..") then address ++ [".."]
  else address.dropLast

/-- Follows segments from an address on. All but the last must lead through directories. -/
def follow (tree : Tree) (address : Address) : List String → Except Fault Address
  | [] => .ok address
  | segment :: segments =>
    match tree.get? address with
    | none => .error .notFound
    | some (.file _) => .error .notDirectory
    | some .directory =>
      if segment = "" ∨ segment = "." then follow tree address segments
      else if segment = ".." then follow tree (above address) segments
      else if maxName < byteLength segment.toList then .error .nameTooLong
      else follow tree (address ++ [segment]) segments

/-- Follows the segments of a path from the working directory, or from the root if the first one is
empty. -/
def followPath (tree : Tree) (segments : List String) : Except Fault Address :=
  match segments with
  | "" :: segments => follow tree ["/"] segments
  | segments => follow tree [] segments

/-- Refuses the texts that are no path: one with a NUL character, the empty one, one that is too
long. -/
def checked (path : Path) : Except Fault Path :=
  if path.text.toList.contains '\x00' then .error .nulByte
  else if path.text = "" then .error .notFound
  else if maxPath ≤ byteLength path.text.toList then .error .nameTooLong
  else .ok path

/-- The address that a path leads to. There need not be an entry. -/
def address (tree : Tree) (path : Path) : Except Fault Address := do
  followPath tree (← checked path).segments

/-- The entry that a path leads to. -/
def entry (tree : Tree) (path : Path) : Except Fault Entry := do
  match tree.get? (← tree.address path) with
  | some entry => .ok entry
  | none => .error .notFound

/-- Whether a path leads to a file or directory. -/
def isPresent (tree : Tree) (path : Path) : Bool :=
  (tree.entry path).toOption.isSome

/-- Whether a path leads to a directory. -/
def isDirectory (tree : Tree) (path : Path) : Bool :=
  (tree.entry path).toOption = some .directory

/-! ### Reading -/

/-- The content of a file. -/
def read (tree : Tree) (path : Path) : Except Fault Content := do
  match ← tree.entry path with
  | .file content => .ok content
  | .directory => .error .isDirectory

/-- The text of a file. -/
def readText (tree : Tree) (path : Path) : Except Fault String := do
  match ← tree.read path with
  | .text text => .ok text
  | .bytes _ => .error .invalidText

/-- The names of the entries of a directory, in ascending order. -/
def names (tree : Tree) (address : Address) : List String :=
  let children := tree.entries.filterMap fun entry ↦
    match entry.1.getLast? with
    | some name => if entry.1.dropLast = address then some name else none
    | none => none
  children.mergeSort fun first second ↦ decide (first ≤ second)

/-! ### Creating -/

/-- What the last segment of a path asks for when something is to be created there. -/
inductive Target where
  /-- A name in a directory that is there. -/
  | name (directory : Address) (name : String)
  /-- A directory that is there. -/
  | present

/-- Follows segments to a directory that is there. -/
def directoryAt (tree : Tree) (segments : List String) : Except Fault Address := do
  let address ← followPath tree segments
  match tree.get? address with
  | some .directory => return address
  | some (.file _) => .error .notDirectory
  | none => .error .notFound

/-- Follows all segments but the last and looks at the last one. -/
def target (tree : Tree) (segments : List String) : Except Fault Target := do
  match segments.getLast? with
  | none => return .present
  | some last =>
    if last = "" ∨ last = "." ∨ last = ".." then
      let _ ← tree.directoryAt segments
      return .present
    else return .name (← tree.directoryAt segments.dropLast) last

/-- The address of a name in a directory. -/
def addressIn (directory : Address) (name : String) : Except Fault Address :=
  if maxName < byteLength name.toList then .error .nameTooLong else .ok (directory ++ [name])

/-- Drops the empty segments that slashes at the end of a path leave, as long as others are left. -/
def withoutEndSlashes (segments : List String) : List String :=
  match segments.reverse.dropWhile (· == "") with
  | [] => [""]
  | rest => rest.reverse

/-- The address at which a file is to be written; `whenPresent` is the fault if the path leads to a
directory by dots. A name with a slash after it is the name of a directory, however long it is. -/
def fileAddress (tree : Tree) (path : Path) (whenPresent : Fault) : Except Fault Address := do
  let path ← checked path
  match ← tree.target (withoutEndSlashes path.segments) with
  | .present => .error whenPresent
  | .name directory name =>
    if path.segments.getLast? = some "" then .error .isDirectory else addressIn directory name

/-- Writes a file, in the place of the one that was there. -/
def write (tree : Tree) (path : Path) (content : Content) : Except Fault Tree := do
  let address ← tree.fileAddress path .isDirectory
  match tree.get? address with
  | some .directory => .error .isDirectory
  | _ => tree.tryPut address (.file content)

/-- Writes a text as a file. -/
def writeText (tree : Tree) (path : Path) (text : String) : Except Fault Tree :=
  tree.write path (.text text)

/-- Creates a file where nothing is. -/
def createNew (tree : Tree) (path : Path) (content : Content) : Except Fault Tree := do
  let address ← tree.fileAddress path .alreadyExists
  match tree.get? address with
  | some _ => .error .alreadyExists
  | none => tree.tryPut address (.file content)

/-- Creates a directory where nothing is. -/
def makeDirectory (tree : Tree) (path : Path) : Except Fault Tree := do
  let path ← checked path
  match ← tree.target (withoutEndSlashes path.segments) with
  | .present => .error .alreadyExists
  | .name directory name =>
    let address ← addressIn directory name
    match tree.get? address with
    | some _ => .error .alreadyExists
    | none => tree.tryPut address .directory

/-- A path and the paths of the directories above it, nearest first. The text gets shorter from one
to the next, so that `count` need not exceed its length. -/
def ancestors : Nat → Path → List Path
  | 0, path => [path]
  | count + 1, path =>
    match path.parent? with
    | none => [path]
    | some parent => path :: ancestors count parent

/-- Creates a directory and those above it as far as they are missing; the list holds its path and
the paths above it, nearest first. A directory that is there is fine; a file is not. What has been
created stays even if a later one cannot be. -/
def makeAll (tree : Tree) : List Path → Tree × Option Fault
  | [] => (tree, none)
  | path :: above =>
    if path.components.isEmpty then (tree, none)
    else match tree.makeDirectory path with
      | .ok made => (made, none)
      | .error .notFound =>
        match makeAll tree above with
        | (tree, some fault) => (tree, some fault)
        | (tree, none) =>
          match tree.makeDirectory path with
          | .ok made => (made, none)
          | .error fault => (tree, if tree.isDirectory path then none else some fault)
      | .error fault => (tree, if tree.isDirectory path then none else some fault)

/-- Creates a directory and the missing ones above it. -/
def makeDirectories (tree : Tree) (path : Path) : Tree × Option Fault :=
  tree.makeAll (ancestors path.text.length path)

/-! ### Comparing -/

/-- The entries that are new or not what they were, in the order in which they came to be. -/
def changesSince (tree before : Tree) : List (Address × Entry) :=
  tree.entries.filter fun (address, entry) ↦ before.get? address != some entry

end Tree

end CalculatorCatalog.Files
