import CalculatorCatalog.Command.Console
import CalculatorCatalog.Proofs.Text.Search
import Mathlib.Data.List.Infix

/-!
# What the console shows of issues

An issue is printed as a heading and the lines that belong to it. `heading?` reads a heading back
from a printed line: `heading?_eq_some_iff` says that it reads exactly the lines that are headings,
each in one way. No other line that a command prints begins like a heading (`BeginsNoHeading`), so
the headings among all printed lines are those of the issues, in their order (`headings_lines`).
What is to be known of the printed issues is then read off their headings.
-/

set_option autoImplicit false
set_option relaxedAutoImplicit false

namespace CalculatorCatalog

/-- The rules that issues break. -/
def Issue.rules : List String :=
  ["missing-translation", "malformed-key", "dropped-declaration", "missing-input",
    "write-conflict", "write-failed", "section-conflict", "generation-skipped"]

theorem Issue.rule_mem_rules (issue : Issue) : issue.rule ∈ Issue.rules := by
  cases issue <;> simp [rule, rules]

namespace Console

open CalculatorCatalog.Text

/-! ### Headings -/

/-- What the first line of an issue shows. -/
structure Heading where
  severity : Severity
  message : String
  rule : String
  deriving DecidableEq, Repr

/-- The line that shows a heading. -/
def Heading.line (color : Bool) (heading : Heading) : String :=
  headingLine color heading.severity heading.message heading.rule

/-- What the first line of an issue is to show. -/
def headingOf (issue : Issue) : Heading :=
  ⟨issue.severity, issue.message, issue.rule⟩

def severities : List Severity := [.error, .warning]

/-- How a heading begins, up to its message. -/
def headingStart (color : Bool) (severity : Severity) : List Char :=
  (severityWord color severity ++ ": \x22").toList

/-- How a heading ends after its message. -/
def headingEnd (color : Bool) (rule : String) : List Char :=
  ("\x22  " ++ painted color "2;36" rule).toList

theorem Heading.toList_line (color : Bool) (heading : Heading) :
    (heading.line color).toList =
      headingStart color heading.severity ++
        (heading.message.toList ++ headingEnd color heading.rule) := by
  simp [line, headingLine, headingStart, headingEnd]

/-- Reads the message of a heading of the given severity and rule. -/
def message? (color : Bool) (severity : Severity) (rule line : String) : Option String := do
  let text ← afterWord? (headingStart color severity) line.toList
  let message ← afterWord? (headingEnd color rule).reverse text.reverse
  return String.ofList message.reverse

/-- Reads a line as a heading. -/
def heading? (color : Bool) (line : String) : Option Heading :=
  severities.findSome? fun severity ↦ Issue.rules.findSome? fun rule ↦
    (message? color severity rule line).map fun message ↦ ⟨severity, message, rule⟩

/-- The headings among lines. -/
def headings (color : Bool) (lines : List String) : List Heading :=
  lines.filterMap (heading? color)

theorem headings_append (color : Bool) (first second : List String) :
    headings color (first ++ second) = headings color first ++ headings color second :=
  List.filterMap_append

theorem headings_cons_of_some {color : Bool} {line : String} {heading : Heading}
    (h : heading? color line = some heading) (lines : List String) :
    headings color (line :: lines) = heading :: headings color lines :=
  List.filterMap_cons_some h

theorem headings_cons_of_none {color : Bool} {line : String} (h : heading? color line = none)
    (lines : List String) : headings color (line :: lines) = headings color lines :=
  List.filterMap_cons_none h

theorem mem_severities (severity : Severity) : severity ∈ severities := by
  cases severity <;> decide

theorem message?_eq_some_iff {color : Bool} {severity : Severity} {rule line message : String} :
    message? color severity rule line = some message ↔
      line = headingLine color severity message rule := by
  have hline : (headingLine color severity message rule).toList =
      headingStart color severity ++ (message.toList ++ headingEnd color rule) :=
    Heading.toList_line color ⟨severity, message, rule⟩
  rw [← String.toList_inj, hline]
  unfold message?
  simp only [Option.bind_eq_bind, Option.bind_eq_some_iff, afterWord?_eq_some_iff, Option.pure_def,
    Option.some.injEq]
  constructor
  · rintro ⟨text, hstart, shown, hend, rfl⟩
    rw [hstart, List.reverse_eq_iff.mp hend, List.reverse_append, List.reverse_reverse,
      String.toList_ofList]
  · intro h
    refine ⟨message.toList ++ headingEnd color rule, h, message.toList.reverse, ?_, ?_⟩
    · rw [List.reverse_append]
    · rw [List.reverse_reverse, String.ofList_toList]

/-- Headings of two severities begin differently. -/
theorem severity_eq_of_headingStart {color : Bool} {severity severity' : Severity}
    (h : headingStart color severity <+: headingStart color severity') : severity = severity' := by
  cases color <;> cases severity <;> cases severity' <;> revert h <;> decide

/-- Headings of two rules end differently. -/
theorem rule_eq_of_headingEnd {color : Bool} {rule rule' : String} (hrule : rule ∈ Issue.rules)
    (hrule' : rule' ∈ Issue.rules) (h : headingEnd color rule <:+ headingEnd color rule') :
    rule = rule' := by
  have hall : ∀ color, ∀ rule ∈ Issue.rules, ∀ rule' ∈ Issue.rules,
      headingEnd color rule <:+ headingEnd color rule' → rule = rule' := by
    decide +kernel
  exact hall color rule hrule rule' hrule' h

/-- A line is a heading in one way only. -/
theorem Heading.line_injective {color : Bool} {heading heading' : Heading}
    (hrule : heading.rule ∈ Issue.rules) (hrule' : heading'.rule ∈ Issue.rules)
    (h : heading.line color = heading'.line color) : heading = heading' := by
  obtain ⟨severity, message, rule⟩ := heading
  obtain ⟨severity', message', rule'⟩ := heading'
  have htext := congrArg String.toList h
  simp only [toList_line] at htext
  have hseverity : severity = severity' := by
    obtain hstart | hstart := List.prefix_or_prefix_of_prefix
      (List.prefix_append (headingStart color severity) _) ⟨_, htext.symm⟩
    · exact severity_eq_of_headingStart hstart
    · exact (severity_eq_of_headingStart hstart).symm
  subst hseverity
  have hrest := List.append_cancel_left htext
  obtain rfl : rule = rule' := by
    obtain hend | hend := List.suffix_or_suffix_of_suffix
      (List.suffix_append message.toList (headingEnd color rule)) ⟨_, hrest.symm⟩
    · exact rule_eq_of_headingEnd hrule hrule' hend
    · exact (rule_eq_of_headingEnd hrule' hrule hend).symm
  obtain rfl := String.toList_inj.mp (List.append_cancel_right hrest)
  rfl

/-- What is read as a heading is the line of that heading. -/
theorem heading?_eq_some_iff {color : Bool} {line : String} {heading : Heading} :
    heading? color line = some heading ↔
      heading.rule ∈ Issue.rules ∧ line = heading.line color := by
  have hread : ∀ {heading : Heading}, heading? color line = some heading →
      heading.rule ∈ Issue.rules ∧ line = heading.line color := by
    intro heading h
    obtain ⟨severity, -, h⟩ := List.exists_of_findSome?_eq_some h
    obtain ⟨rule, hrule, h⟩ := List.exists_of_findSome?_eq_some h
    obtain ⟨message, hmessage, rfl⟩ := Option.map_eq_some_iff.mp h
    exact ⟨hrule, message?_eq_some_iff.mp hmessage⟩
  refine ⟨hread, ?_⟩
  rintro ⟨hrule, rfl⟩
  have hsome : (heading? color (heading.line color)).isSome = true := by
    refine List.findSome?_isSome_iff.mpr ⟨heading.severity, mem_severities _, ?_⟩
    refine List.findSome?_isSome_iff.mpr ⟨heading.rule, hrule, ?_⟩
    have hmessage : message? color heading.severity heading.rule (heading.line color) =
        some heading.message := message?_eq_some_iff.mpr rfl
    rw [hmessage]
    rfl
  obtain ⟨heading', hheading'⟩ := Option.isSome_iff_exists.mp hsome
  obtain ⟨hrule', hline⟩ := hread hheading'
  rw [hheading', Heading.line_injective hrule hrule' hline]

/-! ### Lines that are no headings -/

/-- No line that begins with `start` is a heading. -/
def BeginsNoHeading (color : Bool) (start : String) : Prop :=
  ∀ severity ∈ severities, ¬ headingStart color severity <+: start.toList ∧
    ¬ start.toList <+: headingStart color severity

instance (color : Bool) (start : String) : Decidable (BeginsNoHeading color start) :=
  inferInstanceAs (Decidable (∀ severity ∈ severities, _ ∧ _))

theorem BeginsNoHeading.of_isPrefix {color : Bool} {start line : String}
    (h : BeginsNoHeading color start) (hbegins : start.toList <+: line.toList) :
    BeginsNoHeading color line := by
  intro severity hseverity
  obtain ⟨hstart, hpart⟩ := h severity hseverity
  refine ⟨fun hheading ↦ ?_, fun hheading ↦ hpart (hbegins.trans hheading)⟩
  exact (List.prefix_or_prefix_of_prefix hheading hbegins).elim hstart hpart

theorem BeginsNoHeading.append {color : Bool} {start : String} (h : BeginsNoHeading color start)
    (more : String) : BeginsNoHeading color (start ++ more) :=
  h.of_isPrefix (by rw [String.toList_append]; exact List.prefix_append _ _)

theorem BeginsNoHeading.heading?_eq_none {color : Bool} {line : String}
    (h : BeginsNoHeading color line) : heading? color line = none := by
  refine Option.eq_none_iff_forall_ne_some.mpr fun heading hheading ↦ ?_
  obtain ⟨-, rfl⟩ := heading?_eq_some_iff.mp hheading
  refine (h heading.severity (mem_severities _)).1 ?_
  rw [Heading.toList_line]
  exact List.prefix_append _ _

/-- Headings begin with a letter or with the code of a style. -/
theorem beginsNoHeading_of_toList {color : Bool} {line : String} {c : Char} {rest : List Char}
    (hline : line.toList = c :: rest) (hc : c ∉ ['e', 'w', '\x1b']) :
    BeginsNoHeading color line := by
  have hfirst : ∀ color, ∀ severity ∈ severities,
      (headingStart color severity).head?.all (· ∈ ['e', 'w', '\x1b']) ∧
        headingStart color severity ≠ [] := by
    decide
  intro severity hseverity
  obtain ⟨hhead, hne⟩ := hfirst color severity hseverity
  obtain ⟨d, start, hstart⟩ := List.exists_cons_of_ne_nil hne
  rw [hstart, List.head?_cons, Option.all_some, decide_eq_true_eq] at hhead
  have hdiffers : d ≠ c := fun h ↦ hc (h ▸ hhead)
  rw [hline, hstart, List.cons_prefix_cons, List.cons_prefix_cons]
  exact ⟨fun h ↦ hdiffers h.1, fun h ↦ hdiffers h.1.symm⟩

/-- What is indented is no heading. -/
theorem beginsNoHeading_indent {color : Bool} : BeginsNoHeading color "  " := by
  cases color <;> decide

theorem beginsNoHeading_spaces (color : Bool) (width : Nat) :
    BeginsNoHeading color (spaces width ++ " ") := by
  have hline : (spaces width ++ " ").toList = ' ' :: List.replicate width ' ' := by
    rw [spaces, String.toList_append, String.toList_ofList, ← List.replicate_succ,
      List.replicate_succ']
    rfl
  exact beginsNoHeading_of_toList hline (by decide)

/-- A number at the right end of its column. -/
theorem beginsNoHeading_alignRight (color : Bool) (width number : Nat) :
    BeginsNoHeading color (alignRight width (toString number)) := by
  rw [alignRight, spaces]
  generalize width - (toString number).length = gap
  cases gap with
  | zero =>
    obtain ⟨digit, digits, hdigits⟩ :=
      List.exists_cons_of_ne_nil (Nat.toDigits_ne_nil (n := number) (b := 10))
    have hdigit : digit.isDigit = true := by
      refine Nat.isDigit_of_mem_toDigits (b := 10) (n := number) (by decide) le_rfl ?_
      rw [hdigits]
      exact List.mem_cons_self
    have hline : (String.ofList (List.replicate 0 ' ') ++ toString number).toList =
        digit :: digits := by
      rw [← hdigits]
      simp
    refine beginsNoHeading_of_toList hline ?_
    simp only [List.mem_cons, List.not_mem_nil, or_false]
    rintro (rfl | rfl | rfl) <;> exact absurd hdigit (by decide)
  | succ gap =>
    have hline : (String.ofList (List.replicate (gap + 1) ' ') ++ toString number).toList =
        ' ' :: (List.replicate gap ' ' ++ (toString number).toList) := by
      rw [String.toList_append, String.toList_ofList, List.replicate_succ, List.cons_append]
    exact beginsNoHeading_of_toList hline (by decide)

/-- Text in the style of frames begins a heading only if it does so without the style. -/
theorem beginsNoHeading_blue {color : Bool} {text : String} (h : BeginsNoHeading color text) :
    BeginsNoHeading color (blue color text) := by
  cases color with
  | false => exact h
  | true =>
    have hstyle : BeginsNoHeading true "\x1b[34m" := by decide
    refine hstyle.of_isPrefix ?_
    simp only [blue, painted, if_true, String.toList_ofList, List.append_assoc]
    exact List.prefix_append _ _

/-! ### The lines of issues -/

theorem heading?_empty (color : Bool) : heading? color "" = none := by
  cases color <;> decide

/-- The lines that show a place have no headings. -/
theorem headings_placeLines (color : Bool) (width : Nat) (severity : Severity)
    (place : Issue.Place) : headings color (placeLines color width severity place) = [] := by
  have hmargin := beginsNoHeading_spaces color width
  refine List.filterMap_eq_nil_iff.mpr fun line hline ↦ BeginsNoHeading.heading?_eq_none ?_
  cases place with
  | file path =>
    obtain rfl := List.mem_singleton.mp hline
    exact beginsNoHeading_indent.of_isPrefix (by simp)
  | source excerpt =>
    simp only [placeLines, List.mem_cons, List.not_mem_nil, or_false] at hline
    obtain rfl | rfl | rfl | rfl := hline
    · exact beginsNoHeading_indent.of_isPrefix (by simp)
    · exact hmargin.of_isPrefix (by simp)
    · have hnumber := beginsNoHeading_alignRight color width excerpt.location.line
      exact (beginsNoHeading_blue hnumber).of_isPrefix (by simp)
    · exact hmargin.of_isPrefix (by simp)

/-- The lines that show an issue have one heading, that of the issue. -/
theorem headings_issueLines (color : Bool) (width : Nat) (issue : Issue) :
    headings color (issueLines color width issue) = [headingOf issue] := by
  have hheading : heading? color (headingLine color issue.severity issue.message issue.rule) =
      some (headingOf issue) := heading?_eq_some_iff.mpr ⟨issue.rule_mem_rules, rfl⟩
  have hmargin := beginsNoHeading_spaces color width
  have hsign (word : String) (text : String) :
      heading? color (spaces width ++ " " ++ blue color "=" ++ " " ++ word ++ " " ++ text) =
        none :=
    (hmargin.of_isPrefix (by simp)).heading?_eq_none
  rw [issueLines, headings_append, headings_append, headings_append,
    headings_cons_of_some hheading, headings_placeLines, headings_cons_of_none (hsign _ _),
    headings_cons_of_none (heading?_empty color)]
  cases issue.hint? with
  | none => rfl
  | some hint =>
    simp only
    rw [headings_cons_of_none (hsign _ _)]
    rfl

/-- The lines that show issues have their headings, in the order of the issues. -/
theorem headings_issuesLines (color : Bool) (issues : List Issue) :
    headings color (issuesLines color issues) = issues.map headingOf := by
  have hcount : heading? color (countLine color issues) = none := by
    have hmark : BeginsNoHeading color (red color failureMark) := by cases color <;> decide
    exact (hmark.of_isPrefix (by simp [countLine])).heading?_eq_none
  unfold issuesLines
  split_ifs with hempty
  · rw [List.isEmpty_iff.mp hempty]
    rfl
  · have hissue : (fun issue ↦ (issueLines color (numberWidth issues) issue).filterMap
        (heading? color)) = fun issue ↦ [headingOf issue] :=
      funext (headings_issueLines color (numberWidth issues))
    rw [headings_append, headings_cons_of_none hcount, headings, List.filterMap_flatMap, hissue,
      ← List.map_eq_flatMap]
    exact List.append_nil _

/-! ### The lines of summaries -/

section Summaries

variable {color : Bool}

theorem beginsNoHeading_successLine (text : String) :
    BeginsNoHeading color (successLine color text) := by
  have hmark : BeginsNoHeading color (green color successMark) := by cases color <;> decide
  exact hmark.of_isPrefix (by simp [successLine])

theorem beginsNoHeading_countItem (label : String) (count : Nat) :
    ∀ line ∈ countItem label count, BeginsNoHeading color line := by
  unfold countItem
  split_ifs
  · exact List.forall_mem_nil _
  · refine List.forall_mem_singleton.mpr ?_
    exact beginsNoHeading_indent.of_isPrefix (by simp)

/-- Lines that are shown on demand. -/
theorem beginsNoHeading_listed {lines : List String}
    (h : ∀ line ∈ lines, BeginsNoHeading color line) (isListed : Bool) :
    ∀ line ∈ if isListed then lines else [], BeginsNoHeading color line := by
  cases isListed with
  | false => exact List.forall_mem_nil _
  | true => exact h

/-- A line for what has been done or is still to be done. -/
theorem beginsNoHeading_verb {pending done : String}
    (hpending : BeginsNoHeading color (pendingVerb color pending))
    (hdone : BeginsNoHeading color (doneVerb color done)) (dryRun : Bool) (text : String) :
    BeginsNoHeading color
      ((if dryRun then pendingVerb color pending else doneVerb color done) ++ text) := by
  cases dryRun with
  | false => exact hdone.append text
  | true => exact hpending.append text

theorem beginsNoHeading_analyzedLines (definitions withNorms missingKeys : Nat)
    (report : Option String) :
    ∀ line ∈ analyzedLines color definitions withNorms missingKeys report,
      BeginsNoHeading color line := by
  have hpending : BeginsNoHeading color (pendingVerb color "Would write") := by
    cases color <;> decide
  have hdone : BeginsNoHeading color (doneVerb color "Wrote") := by cases color <;> decide
  refine List.forall_mem_cons.mpr ⟨beginsNoHeading_successLine _, List.forall_mem_singleton.mpr ?_⟩
  cases report with
  | none => exact hpending.append _
  | some path => exact (hdone.append _).append _

theorem beginsNoHeading_insertionLine? {outcome : Outcome} {line : String}
    (hline : insertionLine? color outcome = some line) : BeginsNoHeading color line := by
  cases outcome with
  | inserted key label source =>
    obtain rfl := Option.some.inj hline
    exact beginsNoHeading_indent.of_isPrefix (by simp)
  | present | malformed | conflict => cases hline

theorem beginsNoHeading_backfilledLines (verbose dryRun : Bool) (outcomes : List Outcome)
    (dictionary : String) :
    ∀ line ∈ backfilledLines color verbose outcomes dictionary dryRun,
      BeginsNoHeading color line := by
  have hpending : BeginsNoHeading color (pendingVerb color "Would insert") := by
    cases color <;> decide
  have hdone : BeginsNoHeading color (doneVerb color "Inserted") := by cases color <;> decide
  have hinsertions : ∀ line ∈ outcomes.filterMap (insertionLine? color),
      BeginsNoHeading color line := by
    intro line hline
    obtain ⟨outcome, -, hshown⟩ := List.mem_filterMap.mp hline
    exact beginsNoHeading_insertionLine? hshown
  unfold backfilledLines
  dsimp only
  split
  · exact List.forall_mem_singleton.mpr (beginsNoHeading_successLine _)
  · simp only [String.append_assoc]
    refine List.forall_mem_append.mpr ⟨List.forall_mem_append.mpr ⟨List.forall_mem_append.mpr
      ⟨beginsNoHeading_listed hinsertions _, ?_⟩, beginsNoHeading_countItem _ _⟩,
      beginsNoHeading_countItem _ _⟩
    refine List.forall_mem_cons.mpr ⟨beginsNoHeading_verb hpending hdone dryRun _,
      List.forall_mem_cons.mpr ⟨?_, List.forall_mem_singleton.mpr ?_⟩⟩
    · exact beginsNoHeading_indent.of_isPrefix (by simp)
    · exact beginsNoHeading_indent.of_isPrefix (by simp)

theorem beginsNoHeading_generatedLines (verbose dryRun : Bool) (files : List String)
    (existing skipped : Nat) :
    ∀ line ∈ generatedLines color verbose files existing skipped dryRun,
      BeginsNoHeading color line := by
  have hpending : BeginsNoHeading color (pendingVerb color "Would create") := by
    cases color <;> decide
  have hdone : BeginsNoHeading color (doneVerb color "Created") := by cases color <;> decide
  have hfiles : ∀ line ∈ files.map fun file ↦ "  " ++ green color "+" ++ " " ++ file,
      BeginsNoHeading color line :=
    List.forall_mem_map.mpr fun file _ ↦ beginsNoHeading_indent.of_isPrefix (by simp)
  refine List.forall_mem_append.mpr ⟨List.forall_mem_append.mpr ⟨?_,
    beginsNoHeading_countItem _ _⟩, beginsNoHeading_countItem _ _⟩
  split
  · exact List.forall_mem_singleton.mpr (beginsNoHeading_successLine _)
  · refine List.forall_mem_append.mpr ⟨beginsNoHeading_listed hfiles _,
      List.forall_mem_singleton.mpr ?_⟩
    simp only [String.append_assoc]
    exact beginsNoHeading_verb hpending hdone dryRun _

theorem beginsNoHeading_editLines (detailed : Bool) (edit : String × FileEdit) :
    ∀ line ∈ editLines color detailed edit, BeginsNoHeading color line := by
  refine List.forall_mem_cons.mpr ⟨beginsNoHeading_indent.of_isPrefix (by simp),
    beginsNoHeading_listed ?_ detailed⟩
  exact List.forall_mem_map.mpr fun change _ ↦ beginsNoHeading_indent.of_isPrefix (by simp)

theorem beginsNoHeading_editedLines (verbose dryRun : Bool) (rule : String)
    (changed : List (String × FileEdit)) (checked : Nat) :
    ∀ line ∈ editedLines color verbose rule changed checked dryRun,
      BeginsNoHeading color line := by
  have hpending : BeginsNoHeading color (pendingVerb color "Would rewrite") := by
    cases color <;> decide
  have hdone : BeginsNoHeading color (doneVerb color "Rewrote") := by cases color <;> decide
  unfold editedLines
  split
  · exact List.forall_mem_singleton.mpr (beginsNoHeading_successLine _)
  · refine List.forall_mem_append.mpr ⟨?_, List.forall_mem_singleton.mpr ?_⟩
    · intro line hline
      obtain ⟨edit, -, hshown⟩ := List.mem_flatMap.mp hline
      exact beginsNoHeading_editLines _ edit line hshown
    · simp only [String.append_assoc]
      exact beginsNoHeading_verb hpending hdone dryRun _

theorem beginsNoHeading_initializedLine (path : Path) (created : Bool) :
    BeginsNoHeading color (initializedLine color path created) := by
  have hmark : BeginsNoHeading color (red color failureMark) := by cases color <;> decide
  cases created with
  | true => exact beginsNoHeading_successLine _
  | false => exact ((hmark.append _).append _).append _

/-- The lines for what a command has done have no headings. -/
theorem headings_summaryLines (color verbose : Bool) (summary : Summary) :
    headings color (summaryLines color verbose summary) = [] := by
  refine List.filterMap_eq_nil_iff.mpr fun line hline ↦ BeginsNoHeading.heading?_eq_none ?_
  cases summary with
  | analyzed => exact beginsNoHeading_analyzedLines _ _ _ _ line hline
  | backfilled => exact beginsNoHeading_backfilledLines _ _ _ _ line hline
  | generated => exact beginsNoHeading_generatedLines _ _ _ _ _ line hline
  | edited => exact beginsNoHeading_editedLines _ _ _ _ _ line hline
  | initialized path created =>
    obtain rfl := List.mem_singleton.mp hline
    exact beginsNoHeading_initializedLine path created

end Summaries

/-- The headings that a command prints are those of its issues, in their order. -/
theorem headings_lines (color verbose : Bool) (result : Result) :
    headings color (lines color verbose result) = result.issues.map headingOf := by
  rw [lines, headings_append, headings_issuesLines, headings_summaryLines, List.append_nil]

end Console

end CalculatorCatalog
