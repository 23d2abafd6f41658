import CalculatorCatalog.Command.Run

/-!
# What summaries list

A summary tells a dry run from a real one; what is left without that is the work that it lists
(`Summary.work`). A dry run foresees the real run if both list the same work (`Foresees`).

The lists in a summary are reports of what has happened to one item after the other. If one report
can only list less than another one, then equal lists mean that the two agree on every item
(`eq_of_filterMap_eq`).
-/

set_option autoImplicit false
set_option relaxedAutoImplicit false

namespace CalculatorCatalog

open CalculatorCatalog.Files

/-! ### Lists of what is reported -/

section Reported

variable {α γ : Type} {report report' : α → Option γ} {events : List α}

theorem filterMap_cons_eq_append (report : α → Option γ) (event : α) (events : List α) :
    (event :: events).filterMap report = (report event).toList ++ events.filterMap report := by
  rw [List.filterMap_cons]
  cases report event <;> rfl

theorem length_filterMap_le
    (h : ∀ event ∈ events, (report event).isSome → (report' event).isSome) :
    (events.filterMap report).length ≤ (events.filterMap report').length := by
  rw [List.length_filterMap_eq_countP, List.length_filterMap_eq_countP]
  exact List.countP_mono_left h

/-- If one report lists nothing that the other one leaves out, and the two lists are the same, then
they report the same of every event. -/
theorem eq_of_filterMap_eq
    (h : ∀ event ∈ events, (report event).isSome → (report' event).isSome)
    (heq : events.filterMap report = events.filterMap report') :
    ∀ event ∈ events, report event = report' event := by
  induction events with
  | nil => simp
  | cons event events ih =>
    rw [List.forall_mem_cons] at h ⊢
    rw [filterMap_cons_eq_append, filterMap_cons_eq_append] at heq
    have hsame : report event = report' event := by
      cases hevent : report event with
      | none =>
        cases hevent' : report' event with
        | none => rfl
        | some item =>
          -- The first list would be shorter.
          have hle := length_filterMap_le h.2
          have hlength := congrArg List.length heq
          simp only [hevent, hevent', Option.toList_none, Option.toList_some, List.nil_append,
            List.cons_append, List.length_cons] at hlength
          omega
      | some item =>
        obtain ⟨item', hitem'⟩ := Option.isSome_iff_exists.mp (h.1 (by simp [hevent]))
        rw [hevent, hitem'] at heq
        rw [hitem', (List.cons.inj heq).1]
    rw [hsame] at heq
    exact ⟨hsame, ih h.2 (List.append_cancel_left heq)⟩

end Reported

/-! ### The work that a summary lists -/

/-- An edit without the mark that it has been written. -/
def FileEdit.unwritten (edit : FileEdit) : FileEdit :=
  { edit with written := false }

/-- A summary without what tells a dry run from a real one. -/
def Summary.work : Summary → Summary
  | .analyzed definitions withNorms missingKeys _ =>
    .analyzed definitions withNorms missingKeys none
  | .backfilled outcomes dictionary _ _ => .backfilled outcomes dictionary false false
  | .generated files existing skipped _ => .generated files existing skipped false
  | .edited rule changed checked _ =>
    .edited rule (changed.map fun (shown, edit) ↦ (shown, edit.unwritten)) checked false
  | .initialized path created => .initialized path created

/-- A dry run of a command lists the work of the real run. -/
def Foresees (tree : Tree) (command : Bool → Command) : Prop :=
  (run tree (command true)).2.map (·.summary.work) =
    (run tree (command false)).2.map (·.summary.work)

theorem foresees_iff_project {tree : Tree} {command : Bool → Command} {options : CommonOptions}
    {body : Project → Bool → Run}
    (hcommand : ∀ dryRun, run tree (command dryRun) =
      withProject tree options fun project ↦ body project dryRun) :
    Foresees tree command ↔ ∀ project, Project.ofOptions tree options.project = .ok project →
      (body project true).2.map (·.summary.work) = (body project false).2.map (·.summary.work) := by
  rw [Foresees, hcommand, hcommand, withProject, withProject]
  cases Project.ofOptions tree options.project with
  | error error => simp
  | ok project => simp

end CalculatorCatalog
