import CalculatorCatalog.Number.Binary64

/-!
# JSON values

A `Json` value keeps the order of the members of an object. The type itself admits repeated member
names, because a report may write them; `Json.Distinct` is the predicate that excludes them, and
`Json.insert`, through which objects are read, never introduces one: it gives an old name its new
value in its old place and appends a new name.

Whole numbers are kept exactly where they fit 64 bits; all other numbers are `Number.Binary64`.
-/

set_option autoImplicit false
set_option relaxedAutoImplicit false

namespace CalculatorCatalog

open CalculatorCatalog.Number

/-- A JSON value. -/
inductive Json where
  | null
  | bool (value : Bool)
  | integer (value : Int)
  | float (value : Binary64)
  | string (value : String)
  | array (items : List Json)
  | object (members : List (String × Json))
  deriving Repr, BEq

namespace Json

/-- The value of a member, if there is one of that name. -/
def member? {α : Type} (name : String) : List (String × α) → Option α
  | [] => none
  | (other, value) :: members => if other = name then some value else member? name members

/-- Gives a member a value: in its place if the name is there, at the end otherwise. -/
def insert {α : Type} (name : String) (value : α) : List (String × α) → List (String × α)
  | [] => [(name, value)]
  | (other, old) :: members =>
    if other = name then (other, value) :: members else (other, old) :: insert name value members

/-- A string, or null for none. -/
def ofOption : Option String → Json
  | none => .null
  | some text => .string text

/-- An array of strings. -/
def ofStrings (texts : List String) : Json :=
  .array (texts.map .string)

mutual

/-- No object in the value has two members of one name. -/
def Distinct : Json → Prop
  | .array items => DistinctItems items
  | .object members => (members.map (·.1)).Nodup ∧ DistinctMembers members
  | _ => True

/-- `Distinct` for all values of an array. -/
def DistinctItems : List Json → Prop
  | [] => True
  | value :: items => Distinct value ∧ DistinctItems items

/-- `Distinct` for the values of all members of an object. -/
def DistinctMembers : List (String × Json) → Prop
  | [] => True
  | (_, value) :: members => Distinct value ∧ DistinctMembers members

end

/-- Inserting keeps what other names stand for. -/
theorem member?_insert {α : Type} (name other : String) (value : α)
    (members : List (String × α)) :
    member? other (insert name value members) =
      if other = name then some value else member? other members := by
  induction members with
  | nil =>
    by_cases h : name = other
    · simp [insert, member?, h]
    · simp [insert, member?, h, Ne.symm h]
  | cons head members ih =>
    obtain ⟨first, old⟩ := head
    by_cases h : first = name
    · subst h
      by_cases h2 : other = first
      · simp [insert, member?, h2]
      · simp [insert, member?, h2, Ne.symm h2]
    · by_cases h2 : first = other
      · subst h2
        simp [insert, member?, h]
      · simp [insert, member?, h, h2, ih]

end Json

end CalculatorCatalog
