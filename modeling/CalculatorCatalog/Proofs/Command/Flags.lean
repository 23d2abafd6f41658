import CalculatorCatalog.Command.Arguments
import CalculatorCatalog.Proofs.Files.Addresses

/-!
# Asking for a dry run

A command is a dry run exactly if `--dry-run` is among the arguments before the first `--`
(`isDryRun_iff`). Wherever it stands there, it is read as the option and never as a value, and no
other argument asks for it (`take_eq_ok`).
-/

set_option autoImplicit false
set_option relaxedAutoImplicit false

namespace CalculatorCatalog

open CalculatorCatalog.Files

/-- Whether a command is a dry run. -/
def Command.isDryRun : Command → Bool
  | .analyze _ dryRun _ => dryRun
  | .backfill _ dryRun => dryRun
  | .generate _ dryRun => dryRun
  | .renameCategories _ dryRun => dryRun
  | .removeField _ _ _ dryRun => dryRun
  | .init _ => false

namespace Arguments

/-! ### Shapes -/

theorem shape_eq_endOfOptions_iff {argument : String} :
    shape argument = .endOfOptions ↔ argument = "--" := by
  constructor
  · intro h
    rw [← String.toList_inj]
    unfold shape at h
    split at h
    · rename_i hdashes
      exact hdashes
    · unfold longShape at h
      split at h <;> cases h
    · cases h
    · cases h
  · rintro rfl
    rfl

theorem shape_eq_dryRun_iff {argument : String} :
    shape argument = .long "dry-run" none ↔ argument = "--dry-run" := by
  constructor
  · intro h
    rw [← String.toList_inj]
    unfold shape at h
    split at h
    · cases h
    · rename_i text _ hdashes
      unfold longShape at h
      split at h
      · rename_i hrest
        have hname : text.takeWhile (· != '=') = "dry-run".toList := by
          rw [← (Shape.long.inj h).1, String.toList_ofList]
        rw [hdashes, ← List.takeWhile_append_dropWhile (p := (· != '=')) (l := text), hrest, hname]
        rfl
      · simp at h
    · cases h
    · cases h
  · rintro rfl
    rfl

/-! ### What arguments change -/

/-- The marks of a dry run and of the end of the options are the same. -/
structure Draft.SameMarks (draft draft' : Draft) : Prop where
  dryRun_eq : draft'.dryRun = draft.dryRun
  ended_eq : draft'.ended = draft.ended

namespace Draft

variable {draft draft' : Draft}

theorem SameMarks.trans {draft'' : Draft} (h : draft.SameMarks draft')
    (h' : draft'.SameMarks draft'') : draft.SameMarks draft'' :=
  ⟨h'.dryRun_eq.trans h.dryRun_eq, h'.ended_eq.trans h.ended_eq⟩

theorem sameMarks_setValue {option : ValueOption} {value : String}
    (h : draft.setValue option value = .ok draft') : draft.SameMarks draft' := by
  cases option with
  | file =>
    simp only [setValue] at h
    split_ifs at h
    cases h
    exact ⟨rfl, rfl⟩
  | root | dictionary | modulesRoot | output =>
    obtain ⟨_, -, h⟩ := bind_eq_ok_iff.mp h
    cases h
    exact ⟨rfl, rfl⟩

theorem sameMarks_settle (h : draft.settle = .ok draft') : draft.SameMarks draft' := by
  unfold settle at h
  split at h
  · cases h
    exact ⟨rfl, rfl⟩
  · cases h
  · exact ⟨(sameMarks_setValue h).dryRun_eq, (sameMarks_setValue h).ended_eq⟩

theorem setFlag_eq_ok {option : FlagOption} (h : draft.setFlag option = .ok draft') :
    draft'.dryRun = (draft.dryRun || decide (option = .dryRun)) ∧ draft'.ended = draft.ended := by
  obtain ⟨settled, hsettled, h⟩ := bind_eq_ok_iff.mp h
  obtain ⟨hdryRun, hended⟩ := sameMarks_settle hsettled
  cases option with
  | help => cases h
  | verbose =>
    simp only at h
    split_ifs at h
    cases h
    exact ⟨by simp [hdryRun], hended⟩
  | dryRun =>
    simp only at h
    split_ifs at h
    cases h
    exact ⟨by simp, hended⟩

/-- No single letter asks for a dry run. -/
theorem sameMarks_setFlags {letters : List Char} (h : draft.setFlags letters = .ok draft') :
    draft.SameMarks draft' := by
  induction letters generalizing draft with
  | nil =>
    cases h
    exact ⟨rfl, rfl⟩
  | cons letter letters ih =>
    unfold setFlags at h
    split at h
    · cases h
    · rename_i option hoption
      obtain ⟨between, hbetween, h⟩ := bind_eq_ok_iff.mp h
      have hnot : option ≠ .dryRun := by
        rintro rfl
        unfold shortOption? at hoption
        split_ifs at hoption <;> cases hoption
      obtain ⟨hdryRun, hended⟩ := setFlag_eq_ok hbetween
      exact SameMarks.trans ⟨by simpa [hnot] using hdryRun, hended⟩ (ih h)

theorem sameMarks_takePlain {command : CommandName} {argument : String}
    (h : draft.takePlain command argument = .ok draft') : draft.SameMarks draft' := by
  unfold takePlain at h
  split_ifs at h
  obtain ⟨settled, hsettled, h⟩ := bind_eq_ok_iff.mp h
  cases h
  exact ⟨(sameMarks_settle hsettled).dryRun_eq, (sameMarks_settle hsettled).ended_eq⟩

end Draft

theorem longOption?_dryRun (command : CommandName) :
    longOption? command "dry-run" = if command = .init then none else some (.flag .dryRun) := by
  cases command <;> rfl

theorem eq_dryRun_of_longOption? {command : CommandName} {name : String}
    (h : longOption? command name = some (.flag .dryRun)) : name = "dry-run" := by
  unfold longOption? at h
  split_ifs at h with _ _ _ _ _ hdryRun <;> simp_all

namespace Draft

variable {draft draft' : Draft} {command : CommandName}

/-- A long option asks for a dry run if it has that name and no value. -/
theorem takeLong_eq_ok {name : String} {value : Option String}
    (h : draft.takeLong command name value = .ok draft') :
    draft'.dryRun = (draft.dryRun || decide (name = "dry-run" ∧ value = none)) ∧
      draft'.ended = draft.ended := by
  have hother : ∀ {option}, longOption? command name = some (.value option) →
      name ≠ "dry-run" := by
    rintro option hoption rfl
    rw [longOption?_dryRun] at hoption
    split_ifs at hoption
    cases hoption
  unfold takeLong at h
  split at h
  · cases h
  · cases h
  · rename_i option hoption
    obtain ⟨hdryRun, hended⟩ := setFlag_eq_ok h
    have hname : option = .dryRun ↔ name = "dry-run" := by
      constructor
      · rintro rfl
        exact eq_dryRun_of_longOption? hoption
      · rintro rfl
        rw [longOption?_dryRun] at hoption
        split_ifs at hoption
        cases hoption
        rfl
    exact ⟨by simpa [hname] using hdryRun, hended⟩
  · rename_i option value hoption
    obtain ⟨settled, hsettled, h⟩ := bind_eq_ok_iff.mp h
    have hmarks := (sameMarks_settle hsettled).trans (sameMarks_setValue h)
    exact ⟨by simp [hmarks.dryRun_eq], hmarks.ended_eq⟩
  · rename_i option hoption
    obtain ⟨settled, hsettled, h⟩ := bind_eq_ok_iff.mp h
    cases h
    obtain ⟨hdryRun, hended⟩ := sameMarks_settle hsettled
    exact ⟨by simp [hdryRun, hother hoption], hended⟩

/-- An argument before the end of the options asks for a dry run if it is `--dry-run`, and ends the
options if it is `--`. -/
theorem take_eq_ok {argument : String} (h : take command draft argument = .ok draft') :
    draft'.dryRun = (draft.dryRun || (!draft.ended && decide (argument = "--dry-run"))) ∧
      draft'.ended = (draft.ended || decide (argument = "--")) := by
  unfold take at h
  split_ifs at h with hended
  · obtain ⟨hdryRun', hended'⟩ := sameMarks_takePlain h
    simp [hdryRun', hended', hended]
  have hdashes := @shape_eq_endOfOptions_iff argument
  have hdryRun := @shape_eq_dryRun_iff argument
  split at h
  · rename_i hshape
    obtain rfl := hdashes.mp hshape
    cases h
    simp [hended]
  · rename_i name value hshape
    obtain ⟨hdryRun', hended'⟩ := takeLong_eq_ok h
    rw [hshape] at hdashes hdryRun
    simp_all
  · rename_i letters hshape
    obtain ⟨hdryRun', hended'⟩ := sameMarks_setFlags h
    rw [hshape] at hdashes hdryRun
    simp_all
  · rename_i hshape
    rw [hshape] at hdashes hdryRun
    have hmarks : draft.SameMarks draft' := by
      split at h
      · cases h
        exact ⟨rfl, rfl⟩
      · exact sameMarks_takePlain h
    simp_all [hmarks.dryRun_eq, hmarks.ended_eq]

/-- Several arguments ask for a dry run if one of them before the first `--` does. -/
theorem foldlM_take_eq_ok {arguments : List String}
    (h : arguments.foldlM (take command) draft = .ok draft') :
    draft'.dryRun = (draft.dryRun ||
      (!draft.ended && decide ("--dry-run" ∈ arguments.takeWhile (· != "--")))) := by
  induction arguments generalizing draft with
  | nil =>
    cases h
    simp
  | cons argument arguments ih =>
    rw [List.foldlM_cons] at h
    obtain ⟨between, hbetween, h⟩ := bind_eq_ok_iff.mp h
    obtain ⟨hdryRun, hended⟩ := take_eq_ok hbetween
    rw [ih h, hdryRun, hended]
    by_cases hend : argument = "--"
    · simp [hend]
    · rw [List.takeWhile_cons_of_pos (by simpa using hend)]
      cases draft.dryRun <;> cases draft.ended <;> simp [hend, eq_comm]

/-- Setting up a configuration takes no such option. -/
theorem take_init_eq_ok {argument : String} (h : take .init draft argument = .ok draft') :
    draft'.dryRun = draft.dryRun := by
  obtain ⟨hdryRun, -⟩ := take_eq_ok h
  cases hended : draft.ended with
  | true => simpa [hended] using hdryRun
  | false =>
    have hne : argument ≠ "--dry-run" := by
      rintro rfl
      unfold take at h
      rw [hended, shape_eq_dryRun_iff.mpr rfl] at h
      simp [takeLong, longOption?_dryRun] at h
    simpa [hne] using hdryRun

theorem foldlM_take_init_eq_ok {arguments : List String}
    (h : arguments.foldlM (take .init) draft = .ok draft') : draft'.dryRun = draft.dryRun := by
  induction arguments generalizing draft with
  | nil =>
    cases h
    rfl
  | cons argument arguments ih =>
    rw [List.foldlM_cons] at h
    obtain ⟨between, hbetween, h⟩ := bind_eq_ok_iff.mp h
    rw [ih h, take_init_eq_ok hbetween]

theorem isDryRun_of_command {name : CommandName} {result : Command}
    (h : draft.command name = .ok result) :
    result.isDryRun = (draft.dryRun && decide (name ≠ .init)) := by
  cases name with
  | removeField =>
    simp only [Draft.command] at h
    split at h
    · cases h
      simp [Command.isDryRun]
    · cases h
  | analyze | backfill | generate | renameCategories | init =>
    cases h
    simp [Command.isDryRun]

end Draft

theorem isDryRun_of_parseCommand {name : CommandName} {arguments : List String} {command : Command}
    (h : parseCommand name arguments = .ok command) :
    command.isDryRun = decide ("--dry-run" ∈ arguments.takeWhile (· != "--")) := by
  obtain ⟨draft, hdraft, h⟩ := bind_eq_ok_iff.mp h
  obtain ⟨settled, hsettled, h⟩ := bind_eq_ok_iff.mp h
  have hasked := Draft.foldlM_take_eq_ok hdraft
  rw [Draft.isDryRun_of_command h, (Draft.sameMarks_settle hsettled).dryRun_eq]
  by_cases hinit : name = .init
  · subst hinit
    rw [Draft.foldlM_take_init_eq_ok hdraft] at hasked
    simpa [Draft.empty] using hasked
  · simpa [Draft.empty, hinit] using hasked

/-- The command that the arguments give is a dry run exactly if `--dry-run` is among those before
the first `--`. -/
theorem isDryRun_iff {arguments : List String} {command : Command}
    (h : parse arguments = .ok (some command)) :
    command.isDryRun = true ↔ "--dry-run" ∈ arguments.takeWhile (· != "--") := by
  unfold parse at h
  split at h
  · cases h
  · rename_i first rest
    have hdashes := @shape_eq_endOfOptions_iff first
    have hdryRun := @shape_eq_dryRun_iff first
    split at h
    · split at h <;> cases h
    · cases h
    · cases h
    · rename_i hshape
      simp only [hshape, reduceCtorEq, false_iff] at hdashes hdryRun
      split_ifs at h with hhelp
      split at h
      · rename_i name hname
        have hparse : parseCommand name rest = .ok command := by
          cases hresult : parseCommand name rest with
          | error problem =>
            rw [hresult] at h
            cases h
          | ok result =>
            rw [hresult] at h
            cases h
            rfl
        rw [isDryRun_of_parseCommand hparse, List.takeWhile_cons_of_pos (by simpa using hdashes)]
        simp [Ne.symm hdryRun]
      · cases h

end Arguments

end CalculatorCatalog
