import CalculatorCatalog.Files.Selection
import Mathlib.Data.String.Basic
import Mathlib.Tactic.SplitIfs

/-!
# Selected paths without repeats

Paths are in the order of their components, and two of them are equal in that order exactly if they
have the same components (`Path.compare_eq_iff`). Of the paths that the includes name and the
ignores leave, a selection therefore holds exactly one for each list of components
(`pairwise_files_select`, `exists_mem_files_select`).
-/

set_option autoImplicit false
set_option relaxedAutoImplicit false

namespace CalculatorCatalog

namespace Path

/-! ### The order of paths -/

instance : Std.TransCmp Component.compare :=
  inferInstanceAs (Std.TransCmp (compareLex (compareOn Component.rank) (compareOn Component.text)))

instance : Std.LawfulEqCmp Component.compare where
  eq_of_compare {first second} h := by
    rw [Component.compare, Ordering.then_eq_eq, Std.compare_eq_iff_eq, Std.compare_eq_iff_eq] at h
    obtain ⟨hrank, htext⟩ := h
    cases first <;> cases second <;> simp_all [Component.rank, Component.text]

theorem compareComponents_eq_compareLex (components components' : List Component) :
    compareComponents components components' =
      List.compareLex Component.compare components components' := by
  induction components generalizing components' with
  | nil => cases components' <;> rfl
  | cons component components ih =>
    cases components' with
    | nil => rfl
    | cons component' components' =>
      rw [compareComponents, ih, List.compareLex]
      cases component.compare component' <;> rfl

theorem compare_eq_iff {first second : Path} :
    first.compare second = .eq ↔ first.components = second.components := by
  rw [compare, compareComponents_eq_compareLex]
  exact Std.LawfulEqCmp.compare_eq_iff_eq

theorem compare_trans {first second third : Path} (h : first.compare second = .lt)
    (h' : second.compare third = .lt) : first.compare third = .lt := by
  rw [compare, compareComponents_eq_compareLex] at h h' ⊢
  exact Std.TransCmp.lt_trans h h'

theorem pairwise_sort (paths : List Path) :
    (sort paths).Pairwise fun first second ↦ first.compare second ≠ .gt := by
  have hle : ∀ first second : Path, (first.compare second != .gt) =
      (List.compareLex Component.compare first.components second.components).isLE := by
    intro first second
    rw [compare, compareComponents_eq_compareLex]
    cases List.compareLex Component.compare first.components second.components <;> rfl
  unfold sort
  refine (List.pairwise_mergeSort ?_ ?_ paths).imp (by simp)
  · intro first second third h h'
    rw [hle] at h h' ⊢
    exact Std.TransCmp.isLE_trans h h'
  · intro first second
    have hswap : List.compareLex Component.compare second.components first.components =
        (List.compareLex Component.compare first.components second.components).swap :=
      Std.OrientedCmp.eq_swap
    rw [hle, hle, hswap]
    cases List.compareLex Component.compare first.components second.components <;> rfl

theorem mem_sort {paths : List Path} {path : Path} : path ∈ sort paths ↔ path ∈ paths :=
  List.mem_mergeSort

end Path

namespace Files

/-! ### Repeats -/

theorem exists_withoutRepeats_cons (first : Path) (paths : List Path) :
    ∃ rest, withoutRepeats (first :: paths) = first :: rest := by
  induction paths generalizing first with
  | nil => exact ⟨[], rfl⟩
  | cons second paths ih =>
    obtain ⟨rest, hrest⟩ := ih second
    rw [withoutRepeats, hrest]
    split_ifs
    · exact ⟨rest, rfl⟩
    · exact ⟨second :: rest, rfl⟩

theorem withoutRepeats_of_eq {first second : Path} {paths rest : List Path}
    (h : first.compare second = .eq) (hrest : withoutRepeats (second :: paths) = second :: rest) :
    withoutRepeats (first :: second :: paths) = first :: rest := by
  rw [withoutRepeats, if_pos h, hrest]

theorem withoutRepeats_of_ne {first second : Path} (paths : List Path)
    (h : first.compare second ≠ .eq) :
    withoutRepeats (first :: second :: paths) = first :: withoutRepeats (second :: paths) := by
  rw [withoutRepeats, if_neg h]

theorem mem_of_mem_withoutRepeats {paths : List Path} {path : Path}
    (h : path ∈ withoutRepeats paths) : path ∈ paths := by
  induction paths with
  | nil => exact h
  | cons first paths ih =>
    cases paths with
    | nil => exact h
    | cons second paths =>
      obtain ⟨rest, hrest⟩ := exists_withoutRepeats_cons second paths
      rw [hrest] at ih
      by_cases heq : first.compare second = .eq
      · rw [withoutRepeats_of_eq heq hrest] at h
        obtain rfl | h := List.mem_cons.mp h
        · exact List.mem_cons_self
        · exact List.mem_cons_of_mem first (ih (List.mem_cons_of_mem second h))
      · rw [withoutRepeats_of_ne paths heq, hrest] at h
        obtain rfl | h := List.mem_cons.mp h
        · exact List.mem_cons_self
        · exact List.mem_cons_of_mem first (ih h)

/-- Of the paths with the same components, one is left. -/
theorem exists_mem_withoutRepeats {paths : List Path} {path : Path} (h : path ∈ paths) :
    ∃ left ∈ withoutRepeats paths, left.components = path.components := by
  induction paths generalizing path with
  | nil => cases h
  | cons first paths ih =>
    cases paths with
    | nil =>
      obtain rfl := List.mem_singleton.mp h
      exact ⟨path, h, rfl⟩
    | cons second paths =>
      obtain ⟨rest, hrest⟩ := exists_withoutRepeats_cons second paths
      rw [hrest] at ih
      by_cases heq : first.compare second = .eq
      · rw [withoutRepeats_of_eq heq hrest]
        obtain rfl | h := List.mem_cons.mp h
        · exact ⟨path, List.mem_cons_self, rfl⟩
        · obtain ⟨left, hleft, hsame⟩ := ih h
          obtain rfl | hleft := List.mem_cons.mp hleft
          · exact ⟨first, List.mem_cons_self, (Path.compare_eq_iff.mp heq).trans hsame⟩
          · exact ⟨left, List.mem_cons_of_mem first hleft, hsame⟩
      · rw [withoutRepeats_of_ne paths heq, hrest]
        obtain rfl | h := List.mem_cons.mp h
        · exact ⟨path, List.mem_cons_self, rfl⟩
        · obtain ⟨left, hleft, hsame⟩ := ih h
          exact ⟨left, List.mem_cons_of_mem first hleft, hsame⟩

/-- What is left of sorted paths ascends strictly. -/
theorem pairwise_withoutRepeats {paths : List Path}
    (h : paths.Pairwise fun first second ↦ first.compare second ≠ .gt) :
    (withoutRepeats paths).Pairwise fun first second ↦ first.compare second = .lt := by
  induction paths with
  | nil => exact .nil
  | cons first paths ih =>
    cases paths with
    | nil => exact List.pairwise_singleton _ _
    | cons second paths =>
      obtain ⟨rest, hrest⟩ := exists_withoutRepeats_cons second paths
      have hascends := ih h.of_cons
      rw [hrest] at hascends
      by_cases heq : first.compare second = .eq
      · have hsame : ∀ path, first.compare path = second.compare path := by
          intro path
          rw [Path.compare, Path.compare, Path.compare_eq_iff.mp heq]
        rw [withoutRepeats_of_eq heq hrest]
        rw [List.pairwise_cons] at hascends ⊢
        exact ⟨fun path hpath ↦ (hsame path).trans (hascends.1 path hpath), hascends.2⟩
      · have hlt : first.compare second = .lt := by
          have hle := List.rel_of_pairwise_cons h List.mem_cons_self
          cases hcompare : first.compare second <;> simp_all
        rw [withoutRepeats_of_ne paths heq, hrest, List.pairwise_cons, List.forall_mem_cons]
        refine ⟨⟨hlt, fun path hpath ↦ ?_⟩, hascends⟩
        exact Path.compare_trans hlt (List.rel_of_pairwise_cons hascends hpath)

/-! ### What is selected -/

variable {tree : Tree} {base : Path} {includes ignores : List String}

/-- The paths of the files that an inclusion names, and of those below the directories that it
names. -/
def foundBy (tree : Tree) (base : Path) (inclusion : String) : List Path :=
  (((includedPaths tree base inclusion).map tree.walkFiles).filterMap Except.toOption).flatten

/-- The paths that an inclusion finds and no ignore takes away. -/
def keptBy (tree : Tree) (base : Path) (ignores : List String) (inclusion : String) : List Path :=
  (foundBy tree base inclusion).filter fun path ↦ !ignores.any (isIgnoredBy base path)

theorem files_select (tree : Tree) (base : Path) (includes ignores : List String) :
    (select tree base includes ignores).files =
      withoutRepeats (Path.sort (includes.flatMap (keptBy tree base ignores))) := by
  have hkept : includes.flatMap (keptBy tree base ignores) =
      ((((includes.flatMap (includedPaths tree base)).map tree.walkFiles).filterMap
        Except.toOption).flatten).filter fun path ↦ !ignores.any (isIgnoredBy base path) := by
    induction includes with
    | nil => rfl
    | cons inclusion includes ih =>
      rw [List.flatMap_cons, ih, keptBy, foundBy, List.flatMap_cons, List.map_append,
        List.filterMap_append, List.flatten_append, List.filter_append]
  rw [hkept]
  rfl

/-- A selected path has been kept. -/
theorem exists_mem_keptBy {path : Path} (h : path ∈ (select tree base includes ignores).files) :
    ∃ inclusion ∈ includes, path ∈ keptBy tree base ignores inclusion := by
  rw [files_select] at h
  exact List.mem_flatMap.mp (Path.mem_sort.mp (mem_of_mem_withoutRepeats h))

/-- For every path that is kept, one with the same components is selected. -/
theorem exists_mem_files_select {path : Path} {inclusion : String}
    (hinclusion : inclusion ∈ includes) (h : path ∈ keptBy tree base ignores inclusion) :
    ∃ selected ∈ (select tree base includes ignores).files,
      selected.components = path.components := by
  have hmem := List.mem_flatMap.mpr ⟨inclusion, hinclusion, h⟩
  rw [files_select]
  exact exists_mem_withoutRepeats (Path.mem_sort.mpr hmem)

/-- No two selected paths have the same components. -/
theorem pairwise_files_select (tree : Tree) (base : Path) (includes ignores : List String) :
    (select tree base includes ignores).files.Pairwise fun first second ↦
      first.components ≠ second.components := by
  rw [files_select]
  refine (pairwise_withoutRepeats (Path.pairwise_sort _)).imp fun {first second} hlt hsame ↦ ?_
  rw [Path.compare_eq_iff.mpr hsame] at hlt
  cases hlt

end Files

end CalculatorCatalog
