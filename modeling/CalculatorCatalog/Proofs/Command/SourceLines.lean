import CalculatorCatalog.Project
import CalculatorCatalog.Proofs.Definition.Offsets
import CalculatorCatalog.Proofs.Text.Positions

/-!
# The source lines of definitions

The declarations of a module are shown with lines of its source, and these are found in two ways. A
declaration that could not be used carries the line that the index of the source finds at its
opener, without any of the carriage returns at its end. A definition carries the line with its
number, without the carriage return that belongs to a line break and with every other one.

So the two are the same text unless there are carriage returns to spare: one before the end of the
source, or two before a line break. `showsOneText_iff` says that a module is shown with one text for
each line exactly when no definition opens on such a line (`EndsCleanly`).
-/

set_option autoImplicit false
set_option relaxedAutoImplicit false

namespace CalculatorCatalog

open CalculatorCatalog.Files CalculatorCatalog.Text

namespace Source

/-! ### Lines by number -/

/-- What ends a line: the end of the text, or a line break with at most one carriage return. -/
def IsLineEnd (tail : List Char) : Prop :=
  tail = [] ∨ (∃ later, tail = '\n' :: later) ∨ ∃ later, tail = '\r' :: '\n' :: later

/-- The line with the given number has no carriage return before what ends it. -/
def EndsCleanly (text : List Char) (number : Nat) : Prop :=
  ∃ lines line tail, text = lines ++ (line ++ tail) ∧ AreLines lines ∧
    1 + lines.count '\n' = number ∧ '\n' ∉ line ∧ line.getLast? ≠ some '\r' ∧ IsLineEnd tail

theorem AreLines.of_cons {c : Char} {lines : List Char} (h : AreLines (c :: lines)) :
    AreLines lines := by
  cases lines with
  | nil => exact .inl rfl
  | cons c' lines =>
    rcases h with h | h
    · cases h
    · exact .inr (by rwa [List.getLast?_cons_cons] at h)

/-- Behind whole lines, what follows them is found by their number. -/
theorem afterLines_append {lines : List Char} (h : AreLines lines) (text : List Char) :
    afterLines (lines.count '\n') (lines ++ text) = text := by
  induction lines with
  | nil => rw [List.count_nil, List.nil_append, afterLines]
  | cons c lines ih =>
    by_cases hc : c = '\n'
    · subst hc
      rw [List.count_cons_self, List.cons_append, afterLines, if_pos rfl, ih h.of_cons]
    · -- Another line break is still to come, as these are whole lines.
      obtain ⟨count, hcount⟩ : ∃ count, lines.count '\n' = count + 1 := by
        refine Nat.exists_eq_add_one.mpr (List.count_pos_iff.mpr ?_)
        rcases h with h | h
        · cases h
        · exact (List.mem_cons.mp (List.mem_of_getLast? h)).resolve_left (Ne.symm hc)
      rw [List.count_cons_of_ne hc, hcount, List.cons_append, afterLines, if_neg hc, ← hcount,
        ih h.of_cons]

section Numbers

variable {text lines line tail : List Char} {number : Nat}

/-- A line is found by its number, with what follows it. -/
theorem afterLines_eq (htext : text = lines ++ (line ++ tail)) (hlines : AreLines lines)
    (hnumber : 1 + lines.count '\n' = number) : afterLines (number - 1) text = line ++ tail := by
  rw [htext, ← hnumber, Nat.add_sub_cancel_left, afterLines_append hlines]

/-- The text of a line loses one carriage return to its line break, if it has one. -/
theorem lineText_eq (htext : text = lines ++ (line ++ tail)) (hlines : AreLines lines)
    (hnumber : 1 + lines.count '\n' = number) (hline : '\n' ∉ line)
    (htail : tail = [] ∨ ∃ later, tail = '\n' :: later) :
    lineText text number = if tail = [] then line else trimReturn line := by
  rw [lineText, afterLines_eq htext hlines hnumber]
  simp only [takeWhile_append_of_lineBreak hline htail]
  obtain rfl | ⟨later, rfl⟩ := htail
  · simp only [List.append_nil, lt_irrefl, if_false, if_true]
  · have hshorter : line.length < (line ++ '\n' :: later).length := by simp
    rw [if_pos hshorter, if_neg (List.cons_ne_nil _ _)]

/-- With all carriage returns at its end taken away, a line that ends cleanly is the same as with
only the one taken away that belongs to its line break. -/
theorem EndsCleanly.lineText_eq (h : EndsCleanly text number) :
    lineText text number =
      trimReturns ((afterLines (number - 1) text).takeWhile (· != '\n')) := by
  obtain ⟨lines, line, tail, htext, hlines, hnumber, hline, hlast, hend⟩ := h
  rw [afterLines_eq htext hlines hnumber]
  have htrim := trimReturns_append hlast 0
  rw [List.replicate_zero, List.append_nil] at htrim
  obtain rfl | ⟨later, rfl⟩ | ⟨later, rfl⟩ := hend
  · rw [Source.lineText_eq htext hlines hnumber hline (.inl rfl), if_pos rfl,
      takeWhile_append_of_lineBreak hline (.inl rfl), htrim]
  · rw [Source.lineText_eq htext hlines hnumber hline (.inr ⟨later, rfl⟩),
      if_neg (List.cons_ne_nil _ _), takeWhile_append_of_lineBreak hline (.inr ⟨later, rfl⟩), htrim,
      trimReturn, if_neg hlast]
  · -- The carriage return of the line break is a part of what is cut out up to the line break.
    have hreturn : line ++ '\r' :: '\n' :: later = line ++ ['\r'] ++ '\n' :: later := by simp
    have hopen : '\n' ∉ line ++ ['\r'] := by simp [hline]
    rw [hreturn] at htext
    rw [Source.lineText_eq htext hlines hnumber hopen (.inr ⟨later, rfl⟩),
      if_neg (List.cons_ne_nil _ _), hreturn,
      takeWhile_append_of_lineBreak hopen (.inr ⟨later, rfl⟩), ← List.replicate_one,
      trimReturns_append hlast, List.replicate_one, trimReturn, if_pos (List.getLast?_concat ..),
      List.dropLast_concat]

/-- A line that is the same text either way ends cleanly. -/
theorem endsCleanly_of_lineText_eq (htext : text = lines ++ (line ++ tail))
    (hlines : AreLines lines) (hnumber : 1 + lines.count '\n' = number) (hline : '\n' ∉ line)
    (htail : tail = [] ∨ ∃ later, tail = '\n' :: later)
    (h : lineText text number = trimReturns line) : EndsCleanly text number := by
  rw [lineText_eq htext hlines hnumber hline htail] at h
  obtain ⟨shown, count, rfl, hlast⟩ := exists_returns line
  rw [trimReturns_append hlast] at h
  have hshown : '\n' ∉ shown := fun hmem ↦ hline (List.mem_append_left _ hmem)
  refine ⟨lines, shown, List.replicate count '\r' ++ tail, ?_, hlines, hnumber, hshown, hlast, ?_⟩
  · rw [htext, List.append_assoc]
  · obtain rfl | ⟨later, rfl⟩ := htail
    · -- At the end of the text no carriage return is taken away, so there is none.
      obtain rfl : count = 0 := by simpa using h
      exact .inl rfl
    · match count with
      | 0 => exact .inr (.inl ⟨later, rfl⟩)
      | 1 => exact .inr (.inr ⟨later, rfl⟩)
      | count + 2 =>
        -- Before a line break one carriage return is taken away, and there are more.
        rw [if_neg (List.cons_ne_nil _ _), List.replicate_succ', ← List.append_assoc, trimReturn,
          if_pos (List.getLast?_concat ..), List.dropLast_concat] at h
        simp at h

end Numbers

/-! ### Places on one line -/

namespace LineAt

variable {text : List Char} {offset : Nat}

/-- The number of the line that a place is on. -/
def number (place : LineAt text offset) : Nat :=
  1 + (place.lines ++ place.line).count '\n'

theorem count_lines (place : LineAt text offset) :
    1 + place.lines.count '\n' = place.number := by
  rw [number, List.count_append, List.count_eq_zero_of_not_mem place.notMem_line, Nat.add_zero]

theorem text_eq_whole (place : LineAt text offset) :
    text = place.lines ++ (place.line ++ place.rest ++ place.tail) := by
  conv_lhs => rw [place.text_eq]
  simp only [List.append_assoc]

theorem notMem_whole (place : LineAt text offset) : '\n' ∉ place.line ++ place.rest := by
  rw [List.mem_append, not_or]
  exact ⟨place.notMem_line, place.notMem_rest⟩

/-- The line around a place is the one with its number. -/
theorem whole_eq (place : LineAt text offset) :
    place.line ++ place.rest = (afterLines (place.number - 1) text).takeWhile (· != '\n') := by
  rw [afterLines_eq place.text_eq_whole place.areLines place.count_lines,
    takeWhile_append_of_lineBreak place.notMem_whole place.tail_eq]

end LineAt

section Excerpts

variable {file : String} {text : List Char} {offset : Nat} {excerpt : Excerpt}

/-- What is shown of the line at a place depends on the number of the line alone. -/
theorem sourceLine_of_excerptAt? (h : excerptAt? file text offset = some excerpt) :
    excerpt.sourceLine = String.ofList (trimReturns
      ((afterLines (excerpt.location.line - 1) text).takeWhile (· != '\n'))) := by
  obtain ⟨place, hlocation, hshown⟩ := excerptAt?_eq_some_iff.mp h
  rw [isShownAs_iff.mp hshown, place.whole_eq, hlocation]
  rfl

/-- The line with the number of a place is what is shown at the place if it ends cleanly, and only
then. -/
theorem lineText_eq_sourceLine_iff (h : excerptAt? file text offset = some excerpt) :
    String.ofList (lineText text excerpt.location.line) = excerpt.sourceLine ↔
      EndsCleanly text excerpt.location.line := by
  rw [sourceLine_of_excerptAt? h]
  constructor
  · intro heq
    obtain ⟨place, hlocation, -⟩ := excerptAt?_eq_some_iff.mp h
    have hnumber : excerpt.location.line = place.number := by
      rw [hlocation]
      rfl
    rw [hnumber, ← place.whole_eq] at heq
    rw [hnumber]
    exact endsCleanly_of_lineText_eq place.text_eq_whole place.areLines place.count_lines
      place.notMem_whole place.tail_eq (String.ofList_injective heq)
  · intro hclean
    rw [hclean.lineText_eq]

end Excerpts

end Source

namespace Definition

/-! ### What is read from spans -/

/-- Whether a definition can be read from a span. -/
def Span.declares : Span → Bool
  | .closed _ _ inner _ => Definition.declares inner
  | .unterminated _ => false

theorem declares_iff (place : Nat → Excerpt) {span : Span} :
    span.declares = true ↔ ∃ definition, definitionOfSpan place span = .ok definition := by
  cases span with
  | unterminated offset => simp [Span.declares, definitionOfSpan]
  | closed offset innerOffset inner following =>
    rw [Span.declares, Definition.declares, definitionOfSpan, readDefinition]
    cases firstValue? (stringAttribute "id") (maskNested inner) with
    | none => simp [Except.mapError]
    | some id =>
      cases firstValue? (stringAttribute "titleKey") (maskNested inner) with
      | none => simp [Except.mapError]
      | some titleKey => simp [Except.mapError]

/-- The definitions that are read from spans are, one by one, those of the spans that declare
one. -/
theorem forall₂_successes {place : Nat → Excerpt} {holds : Span → Definition → Prop}
    {found : List Span} (h : ∀ span ∈ found, ∀ definition,
      definitionOfSpan place span = .ok definition → holds span definition) :
    List.Forall₂ holds (found.filter Span.declares)
      (successes (found.map (definitionOfSpan place))) := by
  induction found with
  | nil => exact .nil
  | cons span found ih =>
    rw [List.forall_mem_cons] at h
    rw [List.map_cons, successes]
    cases hspan : definitionOfSpan place span with
    | ok definition =>
      rw [List.filter_cons_of_pos ((declares_iff place).mpr ⟨definition, hspan⟩)]
      exact .cons (h.1 definition hspan) (ih h.2)
    | error dropped =>
      have hnone : ¬span.declares = true := by
        rw [declares_iff place, hspan]
        simp
      rw [List.filter_cons_of_neg hnone]
      exact ih h.2

theorem error_mem_of_mem_failures {ε α : Type} {results : List (Except ε α)} {error : ε}
    (h : error ∈ failures results) : .error error ∈ results := by
  obtain ⟨result, hresult, heq⟩ := List.mem_filterMap.mp h
  cases result with
  | ok value => cases heq
  | error other =>
    obtain rfl := Option.some.inj heq
    exact hresult

section Dropped

variable {file content : String} {dropped : Dropped}

/-- What was dropped carries what the index finds at some offset. -/
theorem exists_excerptAt?_of_mem_dropped (h : dropped ∈ (extract file content).dropped) :
    ∃ offset, Source.excerptAt? file content.toList offset = some dropped.excerpt := by
  obtain ⟨-, hdefinitions, hfields⟩ := flatMap_extractSpan_eq
    (Source.excerptAt file content.toList) (definitionSpans content)
  cases hkind : dropped.kind with
  | definition =>
    have hmem : dropped ∈ (extract file content).dropped.filter (·.kind = .definition) :=
      List.mem_filter.mpr ⟨h, decide_eq_true hkind⟩
    rw [extract_eq, hdefinitions] at hmem
    obtain ⟨span, hspan, hread⟩ := List.mem_map.mp (error_mem_of_mem_failures hmem)
    refine ⟨span.offset, ?_⟩
    rw [← Source.excerptByLines?_eq, excerpt_of_definitionOfSpan hread]
    exact (opensAt_of_mem_definitionSpans hspan).excerptByLines?_eq isNamed_definitionConstructor _
  | field =>
    have hmem : dropped ∈ (extract file content).dropped.filter (·.kind = .field) :=
      List.mem_filter.mpr ⟨h, decide_eq_true hkind⟩
    rw [extract_eq, hfields] at hmem
    obtain ⟨field, hfield, hread⟩ := List.mem_map.mp (error_mem_of_mem_failures hmem)
    obtain ⟨span, hspan, hfield⟩ := List.mem_flatMap.mp hfield
    refine ⟨field.offset, ?_⟩
    rw [← Source.excerptByLines?_eq, excerpt_of_fieldOfSpan hread]
    exact (opensAt_of_mem_fieldSpans hspan hfield).excerptByLines?_eq isNamed_fieldConstructor _

end Dropped

end Definition

namespace Project

/-! ### What a module is shown with -/

/-- The declarations of a module are shown with one text for each line. -/
structure ShowsOneText (project : Project) (tree : Tree) (file : ModuleFile) (content : String) :
    Prop where
  /-- The definitions are, one by one, those of the spans that declare one, and each is stored with
  the line that the index of the source finds at the opener of its span. -/
  definitions : List.Forall₂ (fun span scanned ↦
      Source.excerptByLines? (project.shown file.path) content.toList span.offset =
        some scanned.excerpt)
    ((Definition.definitionSpans content).filter Definition.Span.declares)
    (project.scanModule tree file).definitions
  /-- What was dropped on the line of a definition is shown with the same text. -/
  dropped : ∀ scanned ∈ (project.scanModule tree file).definitions,
    ∀ dropped ∈ (project.scanModule tree file).dropped,
      dropped.excerpt.location.line = scanned.definition.location.line →
        dropped.excerpt.sourceLine = scanned.sourceLine

/-- A definition with its module and the line with its number. -/
def store (file : ModuleFile) (content : String) (definition : Definition) : ScannedDefinition :=
  ⟨file.module, definition,
    String.ofList (Source.lineText content.toList definition.location.line)⟩

theorem scanModule_of_readText {project : Project} {tree : Tree} {file : ModuleFile}
    {content : String} (h : tree.readText file.path = .ok content) :
    project.scanModule tree file =
      ⟨(Definition.extract (project.shown file.path) content).definitions.map (store file content),
        (Definition.extract (project.shown file.path) content).dropped, []⟩ := by
  rw [scanModule, h]
  rfl

theorem forall₂_iff_forall {α β : Type} {holds : α → β → Prop} {good : β → Prop} {first : List α}
    {second : List β} (h : List.Forall₂ (fun a b ↦ holds a b ↔ good b) first second) :
    List.Forall₂ holds first second ↔ ∀ b ∈ second, good b := by
  induction h with
  | nil => simp
  | cons hhead _ ih => rw [List.forall₂_cons, List.forall_mem_cons, hhead, ih]

/-- A definition is stored with the line that is found at its opener if that line ends cleanly, and
only then. -/
theorem excerptByLines?_eq_store_iff {file : ModuleFile} {content shown : String}
    {span : Definition.Span} {definition : Definition}
    (hspan : span ∈ Definition.definitionSpans content)
    (h : Definition.definitionOfSpan (Source.excerptAt shown content.toList) span =
      .ok definition) :
    Source.excerptByLines? shown content.toList span.offset =
        some (store file content definition).excerpt ↔
      Source.EndsCleanly content.toList definition.location.line := by
  have hexcerpt := (Definition.opensAt_of_mem_definitionSpans hspan).excerptByLines?_eq
    Definition.isNamed_definitionConstructor shown
  have hlocation : definition.location =
      (Source.excerptAt shown content.toList span.offset).location := by
    rw [← Definition.recordLocation_definitionOfSpan, h]
    rfl
  have hline := Source.lineText_eq_sourceLine_iff
    ((Source.excerptByLines?_eq _ _ _).symm.trans hexcerpt)
  rw [hexcerpt, Option.some.injEq, hlocation, ← hline, eq_comm, store, ScannedDefinition.excerpt,
    hlocation]
  constructor
  · intro heq
    have hsource := congrArg Excerpt.sourceLine heq
    exact hsource
  · intro heq
    rw [heq]

section Module

variable {project : Project} {tree : Tree} {file : ModuleFile} {content : String}

/-- The definitions are stored with the lines that are found at their openers exactly if those lines
end cleanly. -/
theorem forall₂_scanModule_iff (h : tree.readText file.path = .ok content) :
    List.Forall₂ (fun span scanned ↦
        Source.excerptByLines? (project.shown file.path) content.toList span.offset =
          some scanned.excerpt)
      ((Definition.definitionSpans content).filter Definition.Span.declares)
      (project.scanModule tree file).definitions ↔
        ∀ definition ∈ (Definition.extract (project.shown file.path) content).definitions,
          Source.EndsCleanly content.toList definition.location.line := by
  obtain ⟨hdefinitions, -, -⟩ := Definition.flatMap_extractSpan_eq
    (Source.excerptAt (project.shown file.path) content.toList) (Definition.definitionSpans content)
  rw [scanModule_of_readText h, List.forall₂_map_right_iff, Definition.extract_eq]
  simp only [hdefinitions]
  exact forall₂_iff_forall (Definition.forall₂_successes fun span hspan definition hread ↦
    excerptByLines?_eq_store_iff hspan hread)

/-- What was dropped on a line that ends cleanly is shown with the text that a definition on this
line is stored with. -/
theorem sourceLine_of_mem_dropped {shown : String} {dropped : Dropped} {definition : Definition}
    (hdropped : dropped ∈ (Definition.extract shown content).dropped)
    (hline : dropped.excerpt.location.line = definition.location.line)
    (hclean : Source.EndsCleanly content.toList definition.location.line) :
    dropped.excerpt.sourceLine = (store file content definition).sourceLine := by
  obtain ⟨offset, hexcerpt⟩ := Definition.exists_excerptAt?_of_mem_dropped hdropped
  rw [Source.sourceLine_of_excerptAt? hexcerpt, hline, store, hclean.lineText_eq]

end Module

/-- The declarations of a module are shown with one text for each line exactly if every definition
opens on a line that ends cleanly. -/
theorem showsOneText_iff (project : Project) (tree : Tree) (file : ModuleFile) (content : String)
    (h : tree.readText file.path = .ok content) :
    project.ShowsOneText tree file content ↔
      ∀ definition ∈ (Definition.extract (project.shown file.path) content).definitions,
        Source.EndsCleanly content.toList definition.location.line := by
  refine ⟨fun hshows ↦ (forall₂_scanModule_iff h).mp hshows.definitions,
    fun hclean ↦ ⟨(forall₂_scanModule_iff h).mpr hclean, ?_⟩⟩
  rw [scanModule_of_readText h]
  intro scanned hscanned dropped hdropped hline
  obtain ⟨definition, hdefinition, rfl⟩ := List.mem_map.mp hscanned
  exact sourceLine_of_mem_dropped hdropped hline (hclean definition hdefinition)

/-- A line with one definition and one that has no title. -/
def twoCalls : String :=
  "[CalculatorDefinition(id: 'a', titleKey: 't.a'), CalculatorDefinition(id: 'b')];"

/-- A tree with one module. -/
def moduleTree (content : String) : Tree :=
  ⟨[(["a.dart"], .file (.text content))], []⟩

/-- The module of such a tree. -/
def onlyModule : ModuleFile :=
  ⟨"a", ⟨"a.dart"⟩⟩

/-- A project in the working directory. -/
def hereProject : Project :=
  ⟨⟨"."⟩, Config.standard⟩

/-- One carriage return before the line break belongs to neither text. -/
theorem showsOneText_return :
    (moduleTree (twoCalls ++ "\r\n")).readText onlyModule.path = .ok (twoCalls ++ "\r\n") ∧
      hereProject.ShowsOneText (moduleTree (twoCalls ++ "\r\n")) onlyModule
        (twoCalls ++ "\r\n") := by
  have hread : (moduleTree (twoCalls ++ "\r\n")).readText onlyModule.path =
      .ok (twoCalls ++ "\r\n") := by decide +kernel
  have hlines : ∀ definition ∈ (Definition.extract (hereProject.shown onlyModule.path)
      (twoCalls ++ "\r\n")).definitions, definition.location.line = 1 := by decide +kernel
  refine ⟨hread, (showsOneText_iff _ _ _ _ hread).mpr fun definition hdefinition ↦ ?_⟩
  rw [hlines definition hdefinition]
  refine ⟨[], twoCalls.toList, _, ?_, .inl rfl, rfl, by decide +kernel, by decide +kernel,
    .inr (.inr ⟨[], rfl⟩)⟩
  have hreturn : "\r\n".toList = ['\r', '\n'] := by decide
  rw [String.toList_append, hreturn, List.nil_append]

/-- Of two carriage returns before the line break, one is shown with the definition and none with
the one that was dropped. -/
theorem not_showsOneText_returns :
    (moduleTree (twoCalls ++ "\r\r\n")).readText onlyModule.path =
        .ok (twoCalls ++ "\r\r\n") ∧
      ¬hereProject.ShowsOneText (moduleTree (twoCalls ++ "\r\r\n")) onlyModule
        (twoCalls ++ "\r\r\n") := by
  refine ⟨by decide +kernel, fun hshows ↦ ?_⟩
  obtain ⟨scanned, hscanned, dropped, hdropped, hline, hne⟩ :
      ∃ scanned ∈ (hereProject.scanModule (moduleTree (twoCalls ++ "\r\r\n"))
        onlyModule).definitions,
      ∃ dropped ∈ (hereProject.scanModule (moduleTree (twoCalls ++ "\r\r\n"))
        onlyModule).dropped,
        dropped.excerpt.location.line = scanned.definition.location.line ∧
          dropped.excerpt.sourceLine ≠ scanned.sourceLine := by decide +kernel
  exact hne (hshows.dropped scanned hscanned dropped hdropped hline)

end Project

end CalculatorCatalog
