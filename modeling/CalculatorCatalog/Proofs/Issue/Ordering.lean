import CalculatorCatalog.Issue
import Mathlib.Data.List.Basic
import Mathlib.Data.String.Basic

/-!
# The order of issues

Issues are compared lexicographically, so the comparison is reflexive, oriented and transitive
(`instTransCmp`). It is not an order on the issues themselves: two issues compare equal as soon as
they agree on place, rule and message (`compare_eq_iff`), and their other fields may differ. Sorting
keeps the issues that compare equal in the order in which they were collected (`filter_sort`).
`sort_exact` says from this for which lists of issues the sorted report does not depend on the order
of collection: exactly for those whose issues are told apart by the comparison.
-/

set_option autoImplicit false
set_option relaxedAutoImplicit false

namespace CalculatorCatalog.Issue

/-! ### The comparison -/

instance instTransCmp : Std.TransCmp Issue.compare :=
  inferInstanceAs (Std.TransCmp (compareLex (compareOn fun issue : Issue ↦ issue.place.key.1) <|
    compareLex (compareOn fun issue ↦ issue.place.key.2.1) <|
    compareLex (compareOn fun issue ↦ issue.place.key.2.2) <|
    compareLex (compareOn ruleRank) (compareOn message)))

theorem compare_eq_swap (first second : Issue) :
    first.compare second = (second.compare first).swap :=
  Std.OrientedCmp.eq_swap

/-- Rules are told apart by their rank. -/
theorem rule_eq_iff {first second : Issue} :
    first.rule = second.rule ↔ first.ruleRank = second.ruleRank := by
  cases first <;> cases second <;> simp [rule, ruleRank]

/-- Issues compare equal if they concern the same place, break the same rule and are about the same
thing. -/
theorem compare_eq_iff {first second : Issue} :
    first.compare second = .eq ↔
      first.place.key = second.place.key ∧ first.rule = second.rule ∧
        first.message = second.message := by
  rw [compare, rule_eq_iff, Prod.ext_iff, Prod.ext_iff]
  simp only [Ordering.then_eq_eq, Std.compare_eq_iff_eq, and_assoc]

/-! ### Sorting -/

theorem sort_eq (issues : List Issue) :
    sort issues = issues.mergeSort fun first second ↦ (first.compare second).isLE := by
  rw [sort]
  congr 1
  funext first second
  cases first.compare second <;> rfl

theorem perm_sort (issues : List Issue) : (sort issues).Perm issues :=
  List.mergeSort_perm issues _

theorem isLE_trans (first second third : Issue) (h : (first.compare second).isLE = true)
    (h' : (second.compare third).isLE = true) : (first.compare third).isLE = true :=
  Std.TransCmp.isLE_trans h h'

theorem isLE_total (first second : Issue) :
    ((first.compare second).isLE || (second.compare first).isLE) = true := by
  rw [compare_eq_swap second]
  cases first.compare second <;> rfl

theorem pairwise_sort (issues : List Issue) :
    (sort issues).Pairwise fun first second ↦ (first.compare second).isLE = true := by
  rw [sort_eq]
  exact List.pairwise_mergeSort isLE_trans isLE_total issues

/-- Issues that compare equal are in the report as they were collected. -/
theorem filter_sort (issue : Issue) (issues : List Issue) :
    (sort issues).filter (fun other ↦ other.compare issue = .eq) =
      issues.filter fun other ↦ other.compare issue = .eq := by
  have halike : (issues.filter fun other ↦ other.compare issue = .eq).Pairwise
      fun first second ↦ (first.compare second).isLE = true := by
    refine List.pairwise_of_forall_mem_list fun first hfirst second hsecond ↦ ?_
    have hfirst : first.compare issue = .eq := by simpa using (List.mem_filter.mp hfirst).2
    have hsecond : second.compare issue = .eq := by simpa using (List.mem_filter.mp hsecond).2
    rw [Std.TransCmp.congr_left hfirst, compare_eq_swap, hsecond]
    rfl
  have hkept : (issues.filter fun other ↦ other.compare issue = .eq).Sublist (sort issues) := by
    rw [sort_eq]
    exact List.sublist_mergeSort isLE_trans isLE_total halike List.filter_sublist
  have hsublist := hkept.filter fun other ↦ other.compare issue = .eq
  rw [List.filter_filter] at hsublist
  simp only [Bool.and_self] at hsublist
  exact (hsublist.eq_of_length ((perm_sort issues).filter _).length_eq.symm).symm

/-- Issues that compare equal are equal. -/
def ToldApart (issues : List Issue) : Prop :=
  ∀ first ∈ issues, ∀ second ∈ issues, first.compare second = .eq → first = second

/-- The sorted report is the same in whatever order the issues were collected. -/
def SortsAlike (issues : List Issue) : Prop :=
  ∀ collected : List Issue, collected.Perm issues → sort collected = sort issues

/-- Two sorted reports of issues that are told apart are equal. -/
theorem sortsAlike_of_toldApart {issues : List Issue} (h : ToldApart issues) :
    SortsAlike issues := by
  intro collected hperm
  refine List.Perm.eq_of_pairwise ?_ (pairwise_sort collected) (pairwise_sort issues)
    ((perm_sort collected).trans (hperm.trans (perm_sort issues).symm))
  intro first second hfirst hsecond hle hge
  refine h first ((perm_sort collected |>.trans hperm).mem_iff.mp hfirst) second
    ((perm_sort issues).mem_iff.mp hsecond) ?_
  exact Std.OrientedCmp.isLE_antisymm hle hge

/-- Of two different issues that compare equal, the one that is collected first comes first. -/
theorem toldApart_of_sortsAlike {issues : List Issue} (h : SortsAlike issues) :
    ToldApart issues := by
  intro first hfirst second hsecond heq
  by_contra hne
  obtain ⟨others, hothers⟩ : ∃ others, issues.Perm (first :: second :: others) := by
    have hrest : second ∈ issues.erase first := (List.mem_erase_of_ne (Ne.symm hne)).mpr hsecond
    exact ⟨(issues.erase first).erase second,
      (List.perm_cons_erase hfirst).trans ((List.perm_cons_erase hrest).cons first)⟩
  have hself : first.compare first = .eq := Std.ReflCmp.compare_self
  have hback : second.compare first = .eq := Std.OrientedCmp.eq_comm.mp heq
  have horder := congrArg (List.filter fun other ↦ other.compare first = .eq)
    ((h _ hothers.symm).trans (h _ ((List.Perm.swap first second others).trans hothers.symm)).symm)
  rw [filter_sort, filter_sort] at horder
  simp only [List.filter_cons, hself, hback, decide_true, if_true] at horder
  exact hne (List.cons.inj horder).1

/-- The comparison of issues is reflexive, oriented and transitive; issues compare equal exactly if
they agree on place, rule and message. The sorted report of a list of issues does not depend on the
order in which they were collected exactly if no two different ones compare equal. -/
theorem sort_exact (issues : List Issue) :
    (∀ issue : Issue, issue.compare issue = .eq) ∧
      (∀ first second : Issue, first.compare second = (second.compare first).swap) ∧
      (∀ first second third : Issue, (first.compare second).isLE = true →
        (second.compare third).isLE = true → (first.compare third).isLE = true) ∧
      (∀ first second : Issue, first.compare second = .eq ↔
        first.place.key = second.place.key ∧ first.rule = second.rule ∧
          first.message = second.message) ∧
      (SortsAlike issues ↔ ToldApart issues) :=
  ⟨fun _ ↦ Std.ReflCmp.compare_self, compare_eq_swap, isLE_trans, fun _ _ ↦ compare_eq_iff,
    toldApart_of_sortsAlike, sortsAlike_of_toldApart⟩

/-- The issue of one key without a text, for any role that the key can have. -/
def missingInRole (role : LabelRole) : Issue :=
  .missingLabel ⟨⟨"m.dart", 1, 2⟩, "[CalculatorDefinition("⟩ "a" "t.a" role

/-- Two issues that differ in nothing but the role of the key compare equal, and sorting leaves them
in the order in which they are given. -/
theorem not_sortsAlike_missingInRoles :
    (missingInRole .title).compare (missingInRole .result) = .eq ∧
      missingInRole .title ≠ missingInRole .result ∧
      sort [missingInRole .title, missingInRole .result] ≠
        sort [missingInRole .result, missingInRole .title] := by
  have heq (role other : LabelRole) : (missingInRole role).compare (missingInRole other) = .eq :=
    compare_eq_iff.mpr ⟨rfl, rfl, rfl⟩
  have hne : missingInRole .title ≠ missingInRole .result := by decide
  refine ⟨heq .title .result, hne, fun hsort ↦ ?_⟩
  have horder := congrArg (List.filter fun other ↦ other.compare (missingInRole .title) = .eq) hsort
  rw [filter_sort, filter_sort] at horder
  simp only [List.filter_cons, heq, decide_true, if_true] at horder
  exact hne (List.cons.inj horder).1

end CalculatorCatalog.Issue
