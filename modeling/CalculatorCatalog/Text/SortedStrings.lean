/-!
# Sorted sets of strings

A set of strings is kept as a list that ascends strictly in the order of code points, which is also
the order of the bytes. `insertSorted` adds one string and `sortedSet` collects a list.
-/

set_option autoImplicit false
set_option relaxedAutoImplicit false

namespace CalculatorCatalog.Text

/-- Adds a string to an ascending list, unless it is there already. -/
def insertSorted (value : String) : List String → List String
  | [] => [value]
  | other :: rest =>
    if value < other then value :: other :: rest
    else if value = other then other :: rest
    else other :: insertSorted value rest

/-- The strings of a list, ascending and each once. -/
def sortedSet (values : List String) : List String :=
  values.foldr insertSorted []

/-- A string is among those of the extended list if it is the new one or was there before. -/
theorem mem_insertSorted (value other : String) (values : List String) :
    other ∈ insertSorted value values ↔ other = value ∨ other ∈ values := by
  induction values with
  | nil => simp [insertSorted]
  | cons first rest ih =>
    unfold insertSorted
    split
    · simp
    · split
      · rename_i h
        subst h
        simp
      · simp only [List.mem_cons, ih]
        constructor
        · rintro (h | h | h) <;> simp [h]
        · rintro (h | h | h) <;> simp [h]

/-- Collecting a list neither loses nor adds a string. -/
theorem mem_sortedSet (value : String) (values : List String) :
    value ∈ sortedSet values ↔ value ∈ values := by
  induction values with
  | nil => simp [sortedSet]
  | cons first rest ih =>
    simp only [sortedSet, List.foldr_cons] at ih ⊢
    rw [mem_insertSorted, ih]
    simp

/-- An ascending list stays ascending. -/
theorem pairwise_insertSorted {values : List String} (h : values.Pairwise (· < ·))
    (value : String) :
    (insertSorted value values).Pairwise (· < ·) := by
  induction values with
  | nil => simp [insertSorted]
  | cons first rest ih =>
    obtain ⟨hfirst, hrest⟩ := List.pairwise_cons.mp h
    unfold insertSorted
    split
    · rename_i hless
      refine List.pairwise_cons.mpr ⟨fun other hother ↦ ?_, h⟩
      obtain rfl | hother := List.mem_cons.mp hother
      · exact hless
      · exact String.lt_trans hless (hfirst other hother)
    · split
      · exact h
      · rename_i hless hne
        refine List.pairwise_cons.mpr ⟨fun other hother ↦ ?_, ih hrest⟩
        obtain rfl | hother := (mem_insertSorted value other rest).mp hother
        · exact String.not_le.mp fun hle ↦ hne (String.le_antisymm hle (String.not_lt.mp hless))
        · exact hfirst other hother

/-- What is collected ascends. -/
theorem pairwise_sortedSet (values : List String) : (sortedSet values).Pairwise (· < ·) := by
  induction values with
  | nil => exact List.Pairwise.nil
  | cons first rest ih => exact pairwise_insertSorted ih first

/-- No string is collected twice. -/
theorem nodup_sortedSet (values : List String) : (sortedSet values).Nodup := by
  refine List.Pairwise.imp ?_ (pairwise_sortedSet values)
  rintro value other hless rfl
  exact String.lt_irrefl value hless

end CalculatorCatalog.Text
