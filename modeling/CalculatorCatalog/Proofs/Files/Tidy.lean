import CalculatorCatalog.Proofs.Files.Spelling

/-!
# Tidy paths

A path is tidy if its segments are its components as they are spelt (`Path.IsTidy`): it has no
repeated slashes, no slash at the end and no dots between names. A path to which a name is added
stays tidy, and so a tidy inclusion finds files by tidy paths (`isTidy_of_mem_foundBy`). The names
that lead from a directory to a file are then what the text of its path ends in (`exists_text_eq`).
-/

set_option autoImplicit false
set_option relaxedAutoImplicit false

namespace CalculatorCatalog

open CalculatorCatalog.Files

namespace Path

/-- The segment by which a component is spelt; the root is what stands before the first slash. -/
def Component.spelling : Component → String
  | .root => ""
  | .here => "."
  | .up => ".."
  | .name value => value

/-- A path in which every segment stands for something. The root has a slash nevertheless. -/
def IsTidy (path : Path) : Prop :=
  path.text = "/" ∨ path.segments = path.components.map Component.spelling
deriving Decidable

/-! ### Adding names -/

theorem spelling_of_innerComponent {segment : String} {component : Component}
    (h : innerComponent segment = some component) : component.spelling = segment := by
  unfold innerComponent at h
  split_ifs at h with hidle hup
  · rw [← Option.some.inj h, hup]
    rfl
  · rw [← Option.some.inj h]
    rfl

theorem innerComponent_spelling {path : Path} {component : Component}
    (h : component ∈ path.components) (hinner : component.IsInner) :
    innerComponent component.spelling = some component := by
  obtain rfl | ⟨value, rfl⟩ := hinner
  · rfl
  · exact innerComponent_of_name (isName_of_mem_components h).ne

/-- A tidy path does not end in a slash, unless it is the root. -/
theorem components_eq_of_spelling_concat {path : Path} {before : List String}
    (h : path.components.map Component.spelling = before ++ [""]) : before = [] := by
  obtain ⟨lead, inner, heq, hlead, hinner⟩ := path.exists_components_eq
  obtain rfl | ⟨inner, last, rfl⟩ := List.eq_nil_or_concat' inner
  · have hlength := congrArg List.length h
    rw [heq, List.length_map, List.length_append, List.length_append] at hlength
    obtain rfl | rfl | rfl := hlead <;> simp_all
  · rw [heq, ← List.append_assoc, List.map_append, List.map_singleton] at h
    have hspelling : last.spelling = "" := by
      have hlast := congrArg List.getLast? h
      rw [List.getLast?_concat, List.getLast?_concat] at hlast
      exact Option.some.inj hlast
    have hmem : last ∈ path.components := by
      rw [heq]
      simp
    have hcomponent := innerComponent_spelling hmem (hinner last (by simp))
    rw [hspelling] at hcomponent
    cases hcomponent

theorem segments_join_root {segment : String} (hslash : '/' ∉ segment.toList) :
    ((Path.mk "/").join segment).segments = ["", segment] := by
  have hhead : segment.toList.head? ≠ some '/' := fun hhead ↦ hslash (List.mem_of_head? hhead)
  have hjoin : (Path.mk "/").join segment = ⟨"" ++ "/" ++ segment⟩ := by
    rw [join, if_neg hhead, if_pos (.inr (by decide))]
    rfl
  have hempty : (Path.mk "").segments = [""] := by decide
  rw [hjoin, segments_append_slash, hempty, segments_of_slash_notMem hslash]
  rfl

theorem IsTidy.join {path : Path} (hpath : path.IsTidy) {segment : String} {component : Component}
    (hslash : '/' ∉ segment.toList) (h : innerComponent segment = some component) :
    (path.join segment).IsTidy := by
  have hne : path.text ≠ "" := by
    intro hempty
    obtain ⟨text⟩ := path
    obtain rfl := hempty
    obtain hroot | hsegments := hpath
    · exact absurd hroot (by decide)
    · exact absurd hsegments (by decide)
  have hcomponents := components_join_of_slash_notMem hslash hne
  rw [h, Option.toList_some] at hcomponents
  refine .inr ?_
  rw [hcomponents, List.map_append, List.map_singleton, spelling_of_innerComponent h]
  obtain hroot | htidy := hpath
  · obtain ⟨text⟩ := path
    obtain rfl := hroot
    have hlead : (Path.mk "/").components.map Component.spelling = [""] := by decide
    rw [segments_join_root hslash, hlead]
    rfl
  · have hhead : segment.toList.head? ≠ some '/' := fun hhead ↦ hslash (List.mem_of_head? hhead)
    obtain ⟨before, hbefore, hsegments, hjoin⟩ := segments_join hne
    have hjoin := hjoin segment hhead
    rw [hjoin, segments_of_slash_notMem hslash, ← htidy]
    obtain hsame | hsame := hsegments
    · rw [hsame]
    · rw [htidy] at hsame
      exact absurd (components_eq_of_spelling_concat hsame) hbefore

theorem IsTidy.descend {path : Path} (hpath : path.IsTidy) {names : List String}
    (h : ∀ name ∈ names, IsName name) : (Tree.descend path names).IsTidy := by
  induction names generalizing path with
  | nil => exact hpath
  | cons name names ih =>
    rw [List.forall_mem_cons] at h
    exact ih (hpath.join h.1.slash_notMem (innerComponent_of_name h.1.ne)) h.2

end Path

/-! ### Tidy searches -/

namespace Files

open CalculatorCatalog.Path CalculatorCatalog.Files.Pattern

theorem Tree.isTidy_child {path : Path} (hpath : path.IsTidy) {segment : String}
    {component : Component} (hslash : '/' ∉ segment.toList)
    (h : innerComponent segment = some component) : (child path segment).IsTidy := by
  obtain ⟨-, heq⟩ | ⟨-, heq⟩ := child_cases path segment
  · have hfirst : firstComponent true segment = some component := by
      unfold innerComponent at h
      split_ifs at h with hidle hup
      · rw [hup, ← Option.some.inj h]
        rfl
      · rw [not_or] at hidle
        rw [firstComponent, if_neg hidle.1, if_neg hidle.2, innerComponent_of_name ⟨hidle.1,
          hidle.2, hup⟩, ← Option.some.inj h]
    rw [heq]
    refine .inr ?_
    rw [segments_of_slash_notMem hslash, components_of_slash_notMem hslash, hfirst,
      Option.toList_some, List.map_singleton, spelling_of_innerComponent h]
  · rw [heq]
    exact hpath.join hslash h

/-- A search over plain patterns that all stand for something leads to tidy paths. -/
theorem Pattern.LeadsTo.isTidy {patterns : List Pattern} {path found : Path}
    (h : LeadsTo patterns path found)
    (hplain : ∀ pattern ∈ patterns, pattern.IsPlain ∧ component pattern ≠ none)
    (hpath : path.IsTidy) : found.IsTidy := by
  induction h with
  | found path => exact hpath
  | @literal pattern rest path found name hpattern hrest ih =>
    rw [List.forall_mem_cons] at hplain
    obtain ⟨⟨hplain, hsome⟩, hrest⟩ := hplain
    rw [component_of_literal? hpattern, Option.ne_none_iff_exists'] at hsome
    obtain ⟨component, hcomponent⟩ := hsome
    exact ih hrest (Tree.isTidy_child hpath (hplain.slash_notMem _ hpattern) hcomponent)
  | special hpattern hname hrest ih =>
    rw [(hplain _ List.mem_cons_self).1.specialNames_eq hpattern] at hname
    cases hname
  | entry hpattern hname hsuffix hrest ih =>
    rw [List.forall_mem_cons] at hplain
    refine ih (fun other hother ↦ hplain.2 other (hsuffix.subset hother)) ?_
    exact Tree.isTidy_child hpath hname.slash_notMem (innerComponent_of_name hname.ne)
  | deeper hpattern hname hsuffix hrest ih =>
    rw [List.forall_mem_cons] at hplain
    refine ih (List.forall_mem_cons.mpr
      ⟨hplain.1, fun other hother ↦ hplain.2 other (hsuffix.subset hother)⟩) ?_
    exact Tree.isTidy_child hpath hname.slash_notMem (innerComponent_of_name hname.ne)

theorem Pattern.component_ne_none {segment : String} {pattern : Pattern}
    (hparse : parse segment = .ok pattern) (h : innerComponent segment ≠ none) :
    component pattern ≠ none := by
  cases hliteral : literal? pattern with
  | some name => rwa [component_of_literal? hliteral, (eq_of_literal? hparse hliteral).1]
  | none => simp [component_of_wildcard hliteral]

namespace Tree

variable {tree : Tree}

theorem withoutEmptyEnd_of_forall_ne {segments : List String}
    (h : ∀ segment ∈ segments, segment ≠ "") : withoutEmptyEnd segments = segments :=
  if_neg fun hlast ↦ h "" (List.mem_of_getLast? hlast) rfl

/-- The segments that a search for a tidy pattern takes all stand for something, but for a dot at
the beginning. -/
theorem searchedSegments_cases {pattern : Path}
    (htidy : pattern.segments = pattern.components.map Component.spelling) :
    (∀ segment ∈ searchedSegments pattern, innerComponent segment ≠ none) ∨
      searchStart pattern = ⟨"."⟩ ∧ ∃ segments, searchedSegments pattern = "." :: segments ∧
        ∀ segment ∈ segments, innerComponent segment ≠ none := by
  obtain ⟨lead, inner, heq, hlead, hinner⟩ := pattern.exists_components_eq
  have hsome : ∀ segment ∈ inner.map Component.spelling, innerComponent segment ≠ none := by
    intro segment hsegment
    obtain ⟨component, hcomponent, rfl⟩ := List.mem_map.mp hsegment
    have hmem : component ∈ pattern.components := heq ▸ List.mem_append_right lead hcomponent
    simp [innerComponent_spelling hmem (hinner component hcomponent)]
  have hsearched : ∀ segments, (∀ segment ∈ segments, innerComponent segment ≠ none) →
      ∀ segment ∈ withoutEmptyEnd segments, innerComponent segment ≠ none :=
    fun segments hsegments segment hsegment ↦
      hsegments segment (mem_of_mem_withoutEmptyEnd hsegment)
  rw [heq, List.map_append] at htidy
  unfold searchedSegments searchStart
  rw [htidy]
  by_cases habsolute : pattern.text.toList.head? = some '/'
  · rw [if_pos habsolute]
    refine .inl (hsearched _ ?_)
    obtain rfl | rfl | rfl := hlead
    · exact fun segment hsegment ↦ hsome segment (List.mem_of_mem_drop hsegment)
    · exact hsome
    · exact hsome
  · rw [if_neg habsolute, if_neg habsolute]
    obtain rfl | rfl | rfl := hlead
    · exact .inl (hsearched _ hsome)
    · -- The root is written with a slash before all else.
      have hcomponents := components_of_segments htidy
      rw [firstComponent_of_relative habsolute htidy, heq] at hcomponents
      have hroot : Component.root ∈ (inner.map Component.spelling).filterMap innerComponent := by
        have hmem : Component.root ∈ [Component.root] ++ inner := List.mem_cons_self
        rwa [hcomponents] at hmem
      obtain ⟨segment, -, hsegment⟩ := List.mem_filterMap.mp hroot
      exact absurd hsegment (innerComponent_ne_root segment)
    · refine .inr ⟨rfl, inner.map Component.spelling, withoutEmptyEnd_of_forall_ne ?_, hsome⟩
      refine List.forall_mem_cons.mpr ⟨by decide, fun segment hsegment hempty ↦ ?_⟩
      rw [hempty] at hsegment
      exact hsome "" hsegment rfl

/-- What is found by a tidy pattern is tidy. -/
theorem isTidy_of_mem_search (hproper : tree.IsProper) {pattern found : Path}
    (htidy : pattern.segments = pattern.components.map Component.spelling)
    (hdots : ∀ segment ∈ pattern.segments, ∀ parts, Pattern.parse segment = .ok parts →
      literal? parts = none → specialNames parts = [])
    (h : found ∈ tree.search pattern) : found.IsTidy := by
  obtain ⟨patterns, hpatterns, hleads⟩ := leadsTo_of_mem_search hproper h
  have hstart : (searchStart pattern).IsTidy := by
    unfold searchStart
    split_ifs
    · exact .inl rfl
    · exact .inr (by decide)
  have hplain : ∀ segments patterns, List.Forall₂
      (fun segment pattern ↦ Pattern.parse segment = .ok pattern) segments patterns →
      (∀ segment ∈ segments, segment ∈ pattern.segments ∧ innerComponent segment ≠ none) →
      ∀ parts ∈ patterns, parts.IsPlain ∧ component parts ≠ none := by
    intro segments patterns hread hsegments parts hparts
    obtain ⟨segment, hsegment, hparse⟩ := exists_segment_of_forall₂ hread hparts
    obtain ⟨hmem, hsome⟩ := hsegments segment hsegment
    exact ⟨isPlain_of_parse (slash_notMem_segments segment hmem) hparse
      (hdots segment hmem parts hparse), component_ne_none hparse hsome⟩
  obtain hall | ⟨hdot, segments, hsegments, hall⟩ := searchedSegments_cases htidy
  · refine hleads.isTidy (hplain _ _ hpatterns fun segment hsegment ↦ ?_) hstart
    exact ⟨mem_segments_of_mem_searchedSegments hsegment, hall segment hsegment⟩
  · -- The dot leads from the start back to it.
    have hmem : ∀ segment ∈ segments, segment ∈ pattern.segments := fun segment hsegment ↦
      mem_segments_of_mem_searchedSegments (hsegments ▸ List.mem_cons_of_mem "." hsegment)
    rw [hsegments] at hpatterns
    obtain ⟨dot, rest, hparse, hrest, rfl⟩ := List.forall₂_cons_left_iff.mp hpatterns
    have hread : Pattern.parse "." = .ok [.character '.'] := rfl
    obtain rfl := Except.ok.inj (hparse.symm.trans hread)
    rw [hdot] at hleads hstart
    have hback : LeadsTo rest ⟨"."⟩ found := by
      cases hleads with
      | literal hpattern hrest =>
        obtain rfl := Option.some.inj hpattern
        exact hrest
      | special hpattern => cases hpattern
      | entry hpattern => cases hpattern
      | deeper hpattern => cases hpattern
    exact hback.isTidy (hplain _ _ hrest fun segment hsegment ↦
      ⟨hmem segment hsegment, hall segment hsegment⟩) hstart

end Tree

/-- The paths of the files that a tidy inclusion finds are tidy. -/
theorem isTidy_of_mem_foundBy {tree : Tree} (hproper : tree.IsProper) {base path : Path}
    {inclusion : String} (hplain : IsPlainInclusion base inclusion)
    (htidy : (base.join inclusion).IsTidy) (h : path ∈ foundBy tree base inclusion) :
    path.IsTidy := by
  obtain ⟨root, hroot, names, hnames, rfl, -⟩ := Tree.exists_of_mem_foundBy hproper h
  refine IsTidy.descend ?_ hnames
  unfold includedPaths at hroot
  simp only at hroot
  cases hwildcard : Pattern.hasWildcard inclusion with
  | true =>
    rw [hwildcard, if_pos rfl] at hroot
    refine Tree.isTidy_of_mem_search hproper (htidy.resolve_left fun htext ↦ ?_)
      (hplain.specialNames_eq hwildcard) hroot
    obtain ⟨c, hc, hspecial⟩ := exists_isSpecial_of_hasWildcard hwildcard base
    rw [htext] at hc
    obtain rfl : c = '/' := by simpa using hc
    revert hspecial
    simp [Pattern.IsSpecial]
  | false =>
    rw [hwildcard, if_neg Bool.false_ne_true] at hroot
    split_ifs at hroot
    · obtain rfl := List.mem_singleton.mp hroot
      exact htidy
    · cases hroot

end Files

/-! ### The text of tidy paths -/

namespace Path

theorem map_spelling_of_map_label {components : List Component} {names : List String}
    (h : components.map Component.label = names) (hnames : ∀ name ∈ names, IsName name) :
    components.map Component.spelling = names := by
  rw [← h]
  refine List.map_congr_left fun component hcomponent ↦ ?_
  have hname := hnames component.label (h ▸ List.mem_map_of_mem hcomponent)
  cases component with
  | root => exact absurd hname.slash_notMem (by simp [Component.label])
  | here => exact absurd rfl hname.ne.1
  | up => rfl
  | name value => rfl

/-- The text of a tidy path ends in the names that lead from a directory to its place. Nothing comes
before them if the directory is the working directory and the path does not begin with a dot. -/
theorem exists_text_eq {path : Path} (hstraight : path.IsStraight) (htidy : path.IsTidy)
    {directory : Address} {names : List String}
    (hplace : Program.addressOf path = directory ++ names)
    (hnames : ∀ name ∈ names, IsName name) :
    ∃ before, path.text.toList = before ++ ("/".intercalate names).toList ∧
      (names = [] ∨ before = [] ∨ before.getLast? = some '/') ∧
      (directory = [] → ¬path.IsDotted → names ≠ [] → before = []) := by
  by_cases hempty : names = []
  · subst hempty
    exact ⟨path.text.toList, by simp, .inl rfl, fun _ _ hne ↦ absurd rfl hne⟩
  rw [addressOf_of_isStraight hstraight, List.map_eq_append_iff] at hplace
  obtain ⟨upper, lower, hway, hupper, hlower⟩ := hplace
  have hspelling := map_spelling_of_map_label hlower hnames
  have hroot : path.text ≠ "/" := by
    intro htext
    obtain ⟨text⟩ := path
    obtain rfl := htext
    have hsingle : [Component.root] = upper ++ lower := hway
    obtain ⟨-, rfl⟩ | ⟨-, rfl⟩ := List.append_eq_singleton_iff.mp hsingle.symm
    · subst hlower
      exact absurd (hnames "/" List.mem_cons_self).slash_notMem (by decide)
    · exact hempty hlower.symm
  obtain ⟨lead, hsegments, hlead⟩ : ∃ lead, path.segments = lead ++ names ∧
      (directory = [] → ¬path.IsDotted → lead = []) := by
    rw [htidy.resolve_left hroot]
    obtain ⟨hdotted, heq⟩ | ⟨hdotted, heq⟩ := path.components_cases
    · refine ⟨"." :: upper.map Component.spelling, ?_, fun _ hnot ↦ absurd hdotted hnot⟩
      rw [heq, hway, List.map_cons, List.map_append, hspelling]
      rfl
    · refine ⟨upper.map Component.spelling, ?_, fun hdirectory _ ↦ ?_⟩
      · rw [heq, hway, List.map_append, hspelling]
      · rw [hdirectory, List.map_eq_nil_iff] at hupper
        rw [hupper]
        rfl
  cases hnone : lead with
  | nil =>
    refine ⟨[], ?_, .inr (.inl rfl), fun _ _ _ ↦ rfl⟩
    rw [path.text_eq_intercalate, hsegments, hnone]
    rfl
  | cons first lead =>
    refine ⟨("/".intercalate (first :: lead)).toList ++ ['/'], ?_, .inr (.inr (by simp)), ?_⟩
    · rw [path.text_eq_intercalate, hsegments, hnone,
        String.intercalate_append_of_ne_nil (by simp) hempty]
      simp
    · intro hdirectory hdotted
      rw [hlead hdirectory hdotted] at hnone
      cases hnone

end Path

end CalculatorCatalog
