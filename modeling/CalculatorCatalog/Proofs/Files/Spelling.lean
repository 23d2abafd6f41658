import CalculatorCatalog.Proofs.Files.Overwriting
import CalculatorCatalog.Proofs.Files.Repeats
import CalculatorCatalog.Proofs.Files.Searching

/-!
# How found files are spelt

Every file that an inclusion finds is a file of the tree, and its path leads there
(`exists_of_mem_foundBy`). A file that is found by pattern is spelt without a leading dot, and one
that is found by the path of the inclusion begins with a dot exactly if that path does; both are
straight if the inclusion is (`isStraight_and_isDotted_iff`).

Where nothing is written in the inclusion that stands for nothing, the same holds for the files that
it finds (`isTidy_of_mem_foundBy`), and the end of their text is the text of the names that lead to
them (`exists_text_eq`).
-/

set_option autoImplicit false
set_option relaxedAutoImplicit false

namespace CalculatorCatalog

open CalculatorCatalog.Files

namespace Path

/-! ### Searches that begin with an inclusion -/

theorem exists_segments_of_absolute {path : Path} (h : path.text.toList.head? = some '/') :
    ∃ rest, rest ≠ [] ∧ path.segments = "" :: rest := by
  obtain ⟨text, htext⟩ := List.head?_eq_some_iff.mp h
  refine ⟨(splitSlashes text).map String.ofList, ?_, ?_⟩
  · rw [splitSlashes_eq_splitOn]
    simp
  · rw [segments, htext, splitSlashes, if_pos rfl]
    rfl

theorem firstComponent_of_relative {path : Path} (h : path.text.toList.head? ≠ some '/')
    {first : String} {rest : List String} (hsegments : path.segments = first :: rest) :
    firstComponent rest.isEmpty first = firstComponent true first := by
  by_cases hfirst : first = ""
  · subst hfirst
    have htext := path.text_eq_intercalate
    cases rest with
    | nil => rfl
    | cons second rest =>
      rw [hsegments, String.intercalate_cons_cons] at htext
      refine absurd ?_ h
      rw [htext]
      simp
  · rw [firstComponent_of_ne hfirst, firstComponent_of_ne hfirst true]

theorem mem_segments_of_mem_text {path : Path} {c : Char} (h : c ∈ path.text.toList)
    (hslash : c ≠ '/') : ∃ segment ∈ path.segments, c ∈ segment.toList := by
  have hsplit : ∀ text : List Char, c ∈ text → ∃ segment ∈ splitSlashes text, c ∈ segment := by
    intro text hmem
    induction text with
    | nil => cases hmem
    | cons first text ih =>
      obtain ⟨segment, segments, hsegments⟩ : ∃ segment segments,
          splitSlashes text = segment :: segments := by
        rw [splitSlashes_eq_splitOn]
        exact List.exists_cons_of_ne_nil (List.splitOn_ne_nil '/' text)
      rw [splitSlashes]
      rw [hsegments] at ih ⊢
      split_ifs with hfirst
      · obtain rfl | hmem := List.mem_cons.mp hmem
        · exact absurd hfirst hslash
        · obtain ⟨found, hfound, hc⟩ := ih hmem
          exact ⟨found, List.mem_cons_of_mem _ hfound, hc⟩
      · obtain rfl | hmem := List.mem_cons.mp hmem
        · exact ⟨_, List.mem_cons_self, List.mem_cons_self⟩
        · obtain ⟨found, hfound, hc⟩ := ih hmem
          obtain rfl | hfound := List.mem_cons.mp hfound
          · exact ⟨_, List.mem_cons_self, List.mem_cons_of_mem first hc⟩
          · exact ⟨found, List.mem_cons_of_mem _ hfound, hc⟩
  obtain ⟨segment, hsegment, hc⟩ := hsplit path.text.toList h
  exact ⟨String.ofList segment, List.mem_map_of_mem hsegment, by simpa using hc⟩

end Path

namespace Files.Tree

open CalculatorCatalog.Path CalculatorCatalog.Files.Pattern

variable {tree : Tree}

/-- Where a search for a pattern with slashes begins. -/
def searchStart (pattern : Path) : Path :=
  if pattern.text.toList.head? = some '/' then ⟨"/"⟩ else ⟨"."⟩

/-- Segments without an empty one at the end. -/
def withoutEmptyEnd (segments : List String) : List String :=
  if segments.getLast? = some "" then segments.dropLast else segments

/-- The segments whose patterns a search takes one by one. -/
def searchedSegments (pattern : Path) : List String :=
  withoutEmptyEnd
    (if pattern.text.toList.head? = some '/' then pattern.segments.drop 1 else pattern.segments)

theorem filterMap_withoutEmptyEnd (segments : List String) :
    (withoutEmptyEnd segments).filterMap innerComponent = segments.filterMap innerComponent := by
  unfold withoutEmptyEnd
  split_ifs with hlast
  · obtain ⟨before, rfl⟩ := List.getLast?_eq_some_iff.mp hlast
    rw [List.dropLast_concat, List.filterMap_append]
    exact (List.append_nil _).symm
  · rfl

theorem mem_withoutEmptyEnd {segments : List String} {segment : String} (h : segment ∈ segments)
    (hsegment : segment ≠ "") : segment ∈ withoutEmptyEnd segments := by
  unfold withoutEmptyEnd
  split_ifs with hlast
  · obtain ⟨before, rfl⟩ := List.getLast?_eq_some_iff.mp hlast
    rw [List.dropLast_concat]
    simpa [hsegment] using h
  · exact h

theorem mem_of_mem_withoutEmptyEnd {segments : List String} {segment : String}
    (h : segment ∈ withoutEmptyEnd segments) : segment ∈ segments := by
  unfold withoutEmptyEnd at h
  split_ifs at h
  · exact List.mem_of_mem_dropLast h
  · exact h

/-- The start of a search and its segments make up the pattern. -/
theorem way_searchStart (pattern : Path) :
    (searchStart pattern).way ++ (searchedSegments pattern).filterMap innerComponent =
      pattern.way := by
  rw [searchStart, searchedSegments, filterMap_withoutEmptyEnd]
  by_cases habsolute : pattern.text.toList.head? = some '/'
  · obtain ⟨rest, hne, hsegments⟩ := exists_segments_of_absolute habsolute
    have hmany : rest.isEmpty = false := by simpa using hne
    have hway : pattern.way = .root :: rest.filterMap innerComponent := by
      rw [way, components_of_segments hsegments, hmany, List.filter_append,
        filter_filterMap_innerComponent]
      rfl
    rw [if_pos habsolute, if_pos habsolute, hsegments, hway]
    rfl
  · obtain ⟨first, rest, hsegments⟩ := List.exists_cons_of_ne_nil pattern.segments_ne_nil
    have hway : pattern.way =
        (innerComponent first).toList ++ rest.filterMap innerComponent := by
      rw [way, components_of_segments hsegments, firstComponent_of_relative habsolute hsegments,
        List.filter_append, filter_firstComponent, filter_filterMap_innerComponent]
    rw [if_neg habsolute, if_neg habsolute, hsegments, hway, List.filterMap_cons]
    cases innerComponent first <;> rfl

theorem mem_searchedSegments {pattern : Path} {segment : String} (h : segment ∈ pattern.segments)
    (hsegment : segment ≠ "") : segment ∈ searchedSegments pattern := by
  refine mem_withoutEmptyEnd ?_ hsegment
  split_ifs with habsolute
  · obtain ⟨rest, -, hsegments⟩ := exists_segments_of_absolute habsolute
    rw [hsegments] at h ⊢
    exact (List.mem_cons.mp h).resolve_left hsegment
  · exact h

theorem mem_segments_of_mem_searchedSegments {pattern : Path} {segment : String}
    (h : segment ∈ searchedSegments pattern) : segment ∈ pattern.segments := by
  have hmem := mem_of_mem_withoutEmptyEnd h
  split_ifs at hmem
  · exact List.mem_of_mem_drop hmem
  · exact hmem

/-- What a search finds, the patterns of its segments lead to. -/
theorem leadsTo_of_mem_search (hproper : tree.IsProper) {pattern found : Path}
    (h : found ∈ tree.search pattern) :
    ∃ patterns, List.Forall₂ (fun segment pattern ↦ Pattern.parse segment = .ok pattern)
        (searchedSegments pattern) patterns ∧ LeadsTo patterns (searchStart pattern) found := by
  unfold search at h
  simp only at h
  split at h
  · rename_i whole patterns hwhole hpatterns
    refine ⟨patterns, forall₂_of_mapM ?_, ?_⟩
    · rw [← hpatterns, componentPatterns, searchedSegments, withoutEmptyEnd]
    · have hleads := leadsTo_of_mem_searchFrom hproper h
      rw [searchStart]
      simpa only [decide_eq_true_eq] using hleads
  · cases h

/-- What is found by a straight pattern with wildcards is straight and does not begin with a dot. -/
theorem onCourse_of_mem_search (hproper : tree.IsProper) {pattern found : Path} {c : Char}
    (hstraight : pattern.IsStraight)
    (hdots : ∀ segment ∈ pattern.segments, ∀ parts, Pattern.parse segment = .ok parts →
      literal? parts = none → specialNames parts = [])
    (hc : c ∈ pattern.text.toList) (hspecial : IsSpecial c) (h : found ∈ tree.search pattern) :
    OnCourse [] found := by
  obtain ⟨patterns, hpatterns, hleads⟩ := leadsTo_of_mem_search hproper h
  refine hleads.onCourse (fun parts hparts ↦ ?_) ⟨?_, ?_, .inr ?_⟩
  · obtain ⟨segment, hsegment, hparse⟩ := exists_segment_of_forall₂ hpatterns hparts
    have hmem := mem_segments_of_mem_searchedSegments hsegment
    exact isPlain_of_parse (slash_notMem_segments segment hmem) hparse
      (hdots segment hmem parts hparse)
  · unfold searchStart
    split_ifs
    · exact fun hdotted ↦ absurd hdotted (by decide)
    · exact fun _ ↦ by decide
  · refine Component.upsFirst_of_map_eq ?_ hstraight
    rw [← way_searchStart pattern, List.map_append, List.map_append,
      map_filterMap_component hpatterns]
  · have hslash : c ≠ '/' := by
      rintro rfl
      unfold IsSpecial at hspecial
      simp at hspecial
    obtain ⟨segment, hsegment, hmem⟩ := mem_segments_of_mem_text hc hslash
    have hne : segment ≠ "" := by
      rintro rfl
      simp at hmem
    obtain ⟨parts, hparts, hparse⟩ :=
      exists_pattern_of_forall₂ hpatterns (mem_searchedSegments hsegment hne)
    refine ⟨parts, hparts, ?_⟩
    cases hliteral : literal? parts with
    | none => rfl
    | some name => exact absurd hspecial ((eq_of_literal? hparse hliteral).2 c hmem)

/-! ### Walks -/

theorem IsProper.exists_names (h : tree.IsProper) {root address : Address} {entry : Entry}
    (hentry : (address, entry) ∈ tree.entries) (hwithin : isWithin root address = true) :
    ∃ names, address = root ++ names ∧ ∀ name ∈ names, IsName name := by
  obtain ⟨outside, names, heq, houtside, -, hnames⟩ := h _ hentry
  unfold isWithin at hwithin
  rw [Bool.and_eq_true, List.isPrefixOf_iff_prefix] at hwithin
  obtain ⟨⟨rest, rfl⟩, hrest⟩ := hwithin
  rw [List.drop_left] at hrest
  refine ⟨rest, rfl, ?_⟩
  obtain ⟨more, rfl, rfl⟩ | ⟨more, rfl, rfl⟩ := List.append_eq_append_iff.mp heq
  · -- What remains of the directory outside would have been excluded.
    cases more with
    | nil => exact hnames
    | cons label more =>
      have hlabel : label = "/" ∨ label = ".." := by
        unfold isOutside at houtside
        simp only [Bool.or_eq_true, decide_eq_true_eq, List.all_eq_true, beq_iff_eq] at houtside
        obtain hroot | hdots := houtside
        · have hmem : label ∈ root ++ label :: more := by simp
          rw [hroot] at hmem
          exact .inl (List.mem_singleton.mp hmem)
        · exact .inr (hdots label (by simp))
      obtain rfl | rfl := hlabel <;> simp at hrest
  · exact fun name hname ↦ hnames name (List.mem_append_right more hname)

/-- A walk gives the files at and below a path, each by a path that leads there. -/
theorem exists_of_mem_walkFiles (h : tree.IsProper) {root path : Path} {paths : List Path}
    (hwalk : tree.walkFiles root = .ok paths) (hpath : path ∈ paths) :
    ∃ names, (∀ name ∈ names, IsName name) ∧ path = descend root names ∧
      ∃ content, (Program.addressOf path, .file content) ∈ tree.entries := by
  cases haddress : tree.address root with
  | error fault =>
    simp [walkFiles, walk, haddress, bind, Except.bind, Except.map] at hwalk
  | ok address =>
    cases hentry : tree.get? address with
    | none =>
      rw [walkFiles_of_none haddress hentry] at hwalk
      cases hwalk
    | some entry =>
      cases entry with
      | file content =>
        rw [walkFiles_of_file haddress hentry] at hwalk
        obtain rfl := Except.ok.inj hwalk
        obtain rfl := List.mem_singleton.mp hpath
        rw [addressOf_of_address haddress]
        exact ⟨[], by simp, rfl, content,
          mem_entries_of_get? hentry (isOutside_eq_false_of_get? hentry)⟩
      | directory =>
        rw [walkFiles_of_directory haddress hentry] at hwalk
        obtain rfl := Except.ok.inj hwalk
        obtain ⟨⟨place, entry⟩, hmem, hwalked⟩ := List.mem_filterMap.mp hpath
        unfold walkedFile? at hwalked
        simp only at hwalked
        split at hwalked
        · rename_i content
          split_ifs at hwalked with hwithin
          obtain ⟨names, rfl, hnames⟩ := h.exists_names hmem hwithin
          rw [List.drop_left] at hwalked
          obtain rfl := Option.some.inj hwalked
          refine ⟨names, hnames, rfl, content, ?_⟩
          rwa [addressOf_descend hnames, addressOf_of_address haddress]
        · cases hwalked

/-! ### Files that an inclusion finds -/

/-- A file that an inclusion finds is a file of the tree, and its path leads there. -/
theorem exists_of_mem_foundBy (h : tree.IsProper) {base path : Path} {inclusion : String}
    (hpath : path ∈ foundBy tree base inclusion) :
    ∃ root ∈ includedPaths tree base inclusion, ∃ names, (∀ name ∈ names, IsName name) ∧
      path = descend root names ∧
      ∃ content, (Program.addressOf path, .file content) ∈ tree.entries := by
  obtain ⟨paths, hpaths, hmem⟩ := List.mem_flatten.mp hpath
  obtain ⟨walked, hwalked, hsome⟩ := List.mem_filterMap.mp hpaths
  obtain ⟨root, hroot, rfl⟩ := List.mem_map.mp hwalked
  cases hwalk : tree.walkFiles root with
  | error fault =>
    rw [hwalk] at hsome
    cases hsome
  | ok found =>
    rw [hwalk] at hsome
    obtain rfl := Option.some.inj hsome
    exact ⟨root, hroot, exists_of_mem_walkFiles h hwalk hmem⟩

end Files.Tree

namespace Path

theorem isDotted_descend_iff {names : List String} (h : ∀ name ∈ names, IsName name)
    (path : Path) : (Tree.descend path names).IsDotted ↔ path.IsDotted := by
  unfold IsDotted
  rw [components_descend h]
  cases path.components with
  | nil => cases names <;> simp
  | cons component components => simp

theorem IsStraight.descend {path : Path} (hpath : path.IsStraight) {names : List String}
    (h : ∀ name ∈ names, IsName name) : (Tree.descend path names).IsStraight := by
  have hnames : (names.map Component.name).filter (· ≠ .here) = names.map .name :=
    filter_of_isInner (by simp [Component.IsInner])
  unfold IsStraight
  rw [way, components_descend h, List.filter_append, hnames, Component.UpsFirst,
    List.pairwise_append]
  exact ⟨hpath, List.pairwise_of_forall_mem_list (by simp), by simp⟩

end Path

/-- An inclusion whose double dots stand before all names, and in which no part with wildcards
describes the dots. -/
structure IsPlainInclusion (base : Path) (inclusion : String) : Prop where
  isStraight : (base.join inclusion).IsStraight
  specialNames_eq : Pattern.hasWildcard inclusion = true →
    ∀ segment ∈ (base.join inclusion).segments, ∀ pattern, Pattern.parse segment = .ok pattern →
      Pattern.literal? pattern = none → Tree.specialNames pattern = []

/-- Whether the paths of the files that an inclusion finds begin with a dot. -/
def FindsDotted (base : Path) (inclusion : String) : Prop :=
  Pattern.hasWildcard inclusion = false ∧ (base.join inclusion).IsDotted
deriving Decidable

theorem exists_isSpecial_of_hasWildcard {inclusion : String}
    (h : Pattern.hasWildcard inclusion = true) (base : Path) :
    ∃ c ∈ (base.join inclusion).text.toList, Pattern.IsSpecial c := by
  obtain ⟨c, hc, hwildcard⟩ := List.any_eq_true.mp h
  rw [Bool.or_eq_true, beq_iff_eq, beq_iff_eq] at hwildcard
  refine ⟨c, ?_, hwildcard.elim (fun hstar ↦ .inr (.inl hstar)) .inl⟩
  unfold Path.join
  split_ifs <;> simp [hc]

/-- The path of a file that an inclusion finds is straight if the inclusion is. It begins with a dot
if the path of the inclusion does and has no wildcards. -/
theorem isStraight_and_isDotted_iff {tree : Tree} (hproper : tree.IsProper) {base path : Path}
    {inclusion : String} (hplain : IsPlainInclusion base inclusion)
    (h : path ∈ foundBy tree base inclusion) :
    path.IsStraight ∧ (path.IsDotted ↔ FindsDotted base inclusion) := by
  obtain ⟨root, hroot, names, hnames, rfl, -⟩ := Tree.exists_of_mem_foundBy hproper h
  rw [Path.isDotted_descend_iff hnames, FindsDotted]
  unfold includedPaths at hroot
  simp only at hroot
  cases hwildcard : Pattern.hasWildcard inclusion with
  | true =>
    rw [hwildcard, if_pos rfl] at hroot
    obtain ⟨c, hc, hspecial⟩ := exists_isSpecial_of_hasWildcard hwildcard base
    have hcourse := Tree.onCourse_of_mem_search hproper hplain.isStraight
      (hplain.specialNames_eq hwildcard) hc hspecial hroot
    simp [hcourse.isStraight.descend hnames, hcourse.not_isDotted]
  | false =>
    rw [hwildcard, if_neg Bool.false_ne_true] at hroot
    split_ifs at hroot
    · obtain rfl := List.mem_singleton.mp hroot
      simp [hplain.isStraight.descend hnames]
    · cases hroot

end CalculatorCatalog
