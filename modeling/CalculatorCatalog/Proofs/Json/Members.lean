import CalculatorCatalog.Json.Value
import Mathlib.Data.List.Nodup

/-!
# Members of objects

What `Json.member?` finds and what `Json.insert` makes of a list of members. A name that is new is
added at the end; a name that is there keeps its place, so the names of the members stay as they
are (`map_fst_insert`) and remain distinct (`nodup_insert`).
-/

set_option autoImplicit false
set_option relaxedAutoImplicit false

namespace CalculatorCatalog.Json

variable {α : Type} {name : String} {members : List (String × α)}

theorem mem_of_member? {value : α} (h : member? name members = some value) :
    (name, value) ∈ members := by
  induction members with
  | nil => cases h
  | cons first members ih =>
    rw [member?] at h
    split_ifs at h with hname
    · obtain rfl := Option.some.inj h
      rw [← hname]
      exact List.mem_cons_self
    · exact List.mem_cons_of_mem _ (ih h)

/-- Where names are distinct, every member is found under its name. -/
theorem member?_eq_some_of_mem (hnodup : (members.map (·.1)).Nodup) {value : α}
    (h : (name, value) ∈ members) : member? name members = some value := by
  induction members with
  | nil => cases h
  | cons first members ih =>
    rw [List.map_cons, List.nodup_cons] at hnodup
    rw [member?]
    obtain rfl | h := List.mem_cons.mp h
    · exact if_pos rfl
    · have hfirst : first.1 ≠ name := by
        rintro rfl
        exact hnodup.1 (List.mem_map.mpr ⟨_, h, rfl⟩)
      rw [if_neg hfirst, ih hnodup.2 h]

theorem member?_eq_none_iff : member? name members = none ↔ name ∉ members.map (·.1) := by
  induction members with
  | nil => simp [member?]
  | cons first members ih =>
    rw [member?, List.map_cons, List.mem_cons, not_or, ← ih]
    split_ifs with hname
    · simp [hname]
    · simp [Ne.symm hname]

/-- The first of two lists that has a member of the name says what it stands for. -/
theorem member?_append (name : String) (first second : List (String × α)) :
    member? name (first ++ second) = (member? name first).or (member? name second) := by
  induction first with
  | nil => rfl
  | cons member first ih =>
    rw [List.cons_append, member?, member?]
    split_ifs with hname
    · rfl
    · exact ih

/-- Where the members of one name are taken out, the others are found as before. -/
theorem member?_filter_ne (short : String) :
    member? name (members.filter (·.1 ≠ short)) =
      if name = short then none else member? name members := by
  induction members with
  | nil => simp [member?]
  | cons first members ih =>
    rw [List.filter_cons]
    by_cases hfirst : first.1 = short
    · rw [if_neg (by simpa using hfirst), ih, member?, hfirst]
      by_cases hname : name = short
      · rw [if_pos hname, if_pos hname]
      · rw [if_neg (Ne.symm hname)]
    · rw [if_pos (by simpa using hfirst), member?, member?, ih]
      by_cases hname : first.1 = name
      · rw [if_pos hname, if_pos hname, if_neg (hname ▸ hfirst)]
      · rw [if_neg hname, if_neg hname]

/-- A new name is added at the end. -/
theorem insert_of_member?_eq_none (h : member? name members = none) (value : α) :
    insert name value members = members ++ [(name, value)] := by
  induction members with
  | nil => rfl
  | cons first members ih =>
    rw [member?] at h
    split_ifs at h with hname
    rw [insert, if_neg hname, ih h, List.cons_append]

/-- A name that is there gets its new value in its place. -/
theorem insert_of_mem (h : name ∈ members.map (·.1)) (hnodup : (members.map (·.1)).Nodup)
    (value : α) :
    insert name value members =
      members.map fun member ↦ (member.1, if member.1 = name then value else member.2) := by
  induction members with
  | nil => cases h
  | cons first members ih =>
    rw [List.map_cons, List.nodup_cons] at hnodup
    rw [insert, List.map_cons]
    split_ifs with hname
    · congr 1
      rw [List.map_congr_left (g := id), List.map_id]
      intro member hmember
      have hother : member.1 ≠ name := by
        rintro rfl
        exact hnodup.1 (hname ▸ List.mem_map_of_mem hmember)
      simp [hother]
    · have hrest : name ∈ members.map (·.1) :=
        (List.mem_cons.mp h).resolve_left (Ne.symm hname)
      rw [ih hrest hnodup.2]

/-- The members after an insertion are the new one and others that were there. -/
theorem eq_or_mem_of_mem_insert {value : α} {member : String × α}
    (h : member ∈ insert name value members) : member = (name, value) ∨ member ∈ members := by
  induction members with
  | nil => exact .inl (List.mem_singleton.mp h)
  | cons first members ih =>
    rw [insert] at h
    split_ifs at h with hname
    · obtain rfl | h := List.mem_cons.mp h
      · exact .inl (by rw [hname])
      · exact .inr (List.mem_cons_of_mem _ h)
    · obtain rfl | h := List.mem_cons.mp h
      · exact .inr List.mem_cons_self
      · exact (ih h).imp_right (List.mem_cons_of_mem _)

theorem map_fst_insert (name : String) (value : α) (members : List (String × α)) :
    (insert name value members).map (·.1) =
      if name ∈ members.map (·.1) then members.map (·.1) else members.map (·.1) ++ [name] := by
  induction members with
  | nil => rfl
  | cons first members ih =>
    rw [insert]
    by_cases hname : first.1 = name
    · simp [hname]
    · rw [if_neg hname, List.map_cons, List.map_cons, ih]
      simp only [List.mem_cons, Ne.symm hname, false_or]
      split_ifs <;> rfl

theorem nodup_insert (h : (members.map (·.1)).Nodup) (name : String) (value : α) :
    ((insert name value members).map (·.1)).Nodup := by
  rw [map_fst_insert]
  split_ifs with hname
  · exact h
  · rw [← List.concat_eq_append]
    exact List.Nodup.concat hname h

end CalculatorCatalog.Json
