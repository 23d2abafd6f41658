import CalculatorCatalog.Files.Search
import CalculatorCatalog.Proofs.Files.Matching
import CalculatorCatalog.Proofs.Files.Places

/-!
# The way of a search

A search by pattern takes up names one by one, beginning at a dot that it drops as soon as there is
a name. `LeadsTo` describes how it goes on, whatever the files are, and `leadsTo_of_mem_searchFrom`
says that a search finds nothing else.

A search over patterns that describe no dots stays on course (`LeadsTo.onCourse`): as double dots
come before all names in the patterns, so they do in the paths that are found, and no path that is
found begins with a dot if one of the patterns has wildcards.
-/

set_option autoImplicit false
set_option relaxedAutoImplicit false

namespace CalculatorCatalog

open CalculatorCatalog.Files

namespace Path

/-! ### Adding a segment -/

theorem components_of_slash_notMem {segment : String} (h : '/' ∉ segment.toList) :
    (Path.mk segment).components = (firstComponent true segment).toList := by
  rw [components_of_segments (segments_of_slash_notMem h), List.filterMap_nil, List.append_nil]
  rfl

theorem filter_firstComponent (segment : String) :
    (firstComponent true segment).toList.filter (· ≠ .here) =
      (innerComponent segment).toList := by
  have hinner : (innerComponent segment).toList.filter (· ≠ .here) =
      (innerComponent segment).toList := by
    refine filter_of_isInner fun component hcomponent ↦ ?_
    exact isInner_of_innerComponent (Option.mem_toList.mp hcomponent)
  by_cases hempty : segment = ""
  · rw [hempty]
    rfl
  · by_cases hdot : segment = "."
    · rw [hdot]
      rfl
    · rwa [firstComponent, if_neg hempty, if_neg hdot]

theorem components_join_of_slash_notMem {segment : String} (h : '/' ∉ segment.toList) {path : Path}
    (hpath : path.text ≠ "") :
    (path.join segment).components = path.components ++ (innerComponent segment).toList := by
  have hhead : segment.toList.head? ≠ some '/' := fun hhead ↦ h (List.mem_of_head? hhead)
  rw [components_join hpath hhead, segments_of_slash_notMem h, List.filterMap_cons]
  cases innerComponent segment <;> rfl

theorem way_of_slash_notMem {segment : String} (h : '/' ∉ segment.toList) :
    (Path.mk segment).way = (innerComponent segment).toList := by
  rw [way, components_of_slash_notMem h, filter_firstComponent]

/-- A dot at the beginning is all there is to the path. -/
def IsBare (path : Path) : Prop :=
  path.IsDotted → path.components = [.here]

theorem isBare_of_slash_notMem {segment : String} (h : '/' ∉ segment.toList) :
    (Path.mk segment).IsBare := by
  unfold IsBare IsDotted
  rw [components_of_slash_notMem h]
  cases firstComponent true segment with
  | none => simp
  | some component => simp

end Path

namespace Files.Tree

open CalculatorCatalog.Path

theorem child_cases (path : Path) (name : String) :
    path.components = [.here] ∧ child path name = ⟨name⟩ ∨
      path.components ≠ [.here] ∧ child path name = path.join name := by
  unfold child isHere
  by_cases hhere : path.components = [.here]
  · exact .inl ⟨hhere, by simp [hhere]⟩
  · exact .inr ⟨hhere, by simp [hhere]⟩

/-- A search adds to a path what the next segment stands for. -/
theorem way_child {segment : String} (h : '/' ∉ segment.toList) (path : Path) :
    (child path segment).way = path.way ++ (innerComponent segment).toList := by
  obtain ⟨hhere, heq⟩ | ⟨-, heq⟩ := child_cases path segment
  · rw [heq, way_of_slash_notMem h, way, hhere]
    rfl
  · rw [heq]
    by_cases hpath : path.text = ""
    · obtain ⟨text⟩ := path
      obtain rfl := hpath
      rw [join_of_empty rfl, way_of_slash_notMem h]
      rfl
    · have hfilter := filter_firstComponent segment
      rw [way, components_join_of_slash_notMem h hpath, List.filter_append, way]
      congr 1
      refine filter_of_isInner fun component hcomponent ↦ ?_
      exact isInner_of_innerComponent (Option.mem_toList.mp hcomponent)

theorem isBare_child {segment : String} (h : '/' ∉ segment.toList) {path : Path}
    (hpath : path.IsBare) : (child path segment).IsBare := by
  obtain ⟨-, heq⟩ | ⟨hhere, heq⟩ := child_cases path segment
  · rw [heq]
    exact isBare_of_slash_notMem h
  · rw [heq]
    by_cases hempty : path.text = ""
    · rw [join_of_empty hempty]
      exact isBare_of_slash_notMem h
    · -- Neither the path nor what is added to it begins with a dot.
      have hnot : ¬path.IsDotted := mt hpath hhere
      intro hdotted
      unfold IsDotted at hdotted hnot
      rw [components_join_of_slash_notMem h hempty] at hdotted
      cases hcomponents : path.components with
      | nil =>
        rw [hcomponents, List.nil_append] at hdotted
        have hmem := Option.mem_toList.mp (List.mem_of_head? hdotted)
        obtain hup | ⟨value, hname⟩ := isInner_of_innerComponent hmem
        · cases hup
        · cases hname
      | cons component components =>
        rw [hcomponents] at hdotted hnot
        exact absurd hdotted hnot

end Files.Tree

/-! ### The way of a search -/

namespace Files.Pattern

open CalculatorCatalog.Path

/-- How a search for patterns goes on from a path to the paths that it finds, whatever the files
are: a pattern without wildcards is taken as it is, any other gives way to a name or to the dots
that it describes, and passing through directories adds names. -/
inductive LeadsTo : List Pattern → Path → Path → Prop where
  | found (path : Path) : LeadsTo [] path path
  | literal {pattern : Pattern} {rest : List Pattern} {path found : Path} {name : String}
      (hpattern : literal? pattern = some name)
      (hrest : LeadsTo rest (Tree.child path name) found) : LeadsTo (pattern :: rest) path found
  | special {pattern : Pattern} {rest : List Pattern} {path found : Path} {name : String}
      (hpattern : literal? pattern = none) (hname : name ∈ Tree.specialNames pattern)
      (hrest : LeadsTo rest (path.join name) found) : LeadsTo (pattern :: rest) path found
  | entry {pattern : Pattern} {rest rest' : List Pattern} {path found : Path} {name : String}
      (hpattern : literal? pattern = none) (hname : IsName name) (hsuffix : rest' <:+ rest)
      (hrest : LeadsTo rest' (Tree.child path name) found) : LeadsTo (pattern :: rest) path found
  | deeper {pattern : Pattern} {rest rest' : List Pattern} {path found : Path} {name : String}
      (hpattern : literal? pattern = none) (hname : IsName name) (hsuffix : rest' <:+ rest)
      (hrest : LeadsTo (pattern :: rest') (Tree.child path name) found) :
      LeadsTo (pattern :: rest) path found

end Files.Pattern

namespace Files.Tree

open CalculatorCatalog.Path CalculatorCatalog.Files.Pattern

variable {tree : Tree}

/-- Every entry has a name, and so has all that leads to it from the working directory or from a
directory outside of it. -/
def IsProper (tree : Tree) : Prop :=
  ∀ entry ∈ tree.entries, ∃ outside names, entry.1 = outside ++ names ∧
    isOutside outside = true ∧ names ≠ [] ∧ ∀ name ∈ names, IsName name

theorem IsProper.isName_of_mem_names (h : tree.IsProper) {address : Address} {name : String}
    (hname : name ∈ tree.names address) : IsName name := by
  unfold names at hname
  obtain ⟨entry, hentry, hlast⟩ := List.mem_filterMap.mp (List.mem_mergeSort.mp hname)
  split at hlast
  · rename_i last hgetLast
    split_ifs at hlast
    obtain rfl := Option.some.inj hlast
    obtain ⟨outside, names, heq, -, hne, hnames⟩ := h entry hentry
    rw [heq, List.getLast?_append_of_ne_nil _ hne] at hgetLast
    exact hnames last (List.mem_of_getLast? hgetLast)
  · cases hlast

section Search

variable {onlyDirectories : Bool} {below : List Pattern → Path → List Path}

theorem leadsTo_of_mem_reach
    (hbelow : ∀ patterns path, ∀ found ∈ below patterns path, LeadsTo patterns path found)
    {rest : List Pattern} {path found : Path}
    (h : found ∈ reach tree onlyDirectories below rest path) : LeadsTo rest path found := by
  unfold reach at h
  split_ifs at h with hempty
  · cases h
  · obtain rfl := List.mem_singleton.mp h
    rw [List.isEmpty_iff.mp hempty]
    exact .found found
  · exact hbelow rest path found h

theorem leadsTo_of_mem_compareName
    (hbelow : ∀ patterns path, ∀ found ∈ below patterns path, LeadsTo patterns path found)
    {patterns : List Pattern} {path found : Path}
    (h : found ∈ compareName tree onlyDirectories below patterns path) :
    ∃ rest, rest <:+ patterns.tail ∧ LeadsTo rest path found := by
  unfold compareName at h
  split at h
  · rename_i pattern rest name hname
    split_ifs at h
    · exact ⟨rest, List.suffix_refl rest, leadsTo_of_mem_reach hbelow h⟩
    · cases h
  · cases h

theorem leadsTo_of_mem_visit
    (hbelow : ∀ patterns path, ∀ found ∈ below patterns path, LeadsTo patterns path found)
    {pattern : Pattern} {rest : List Pattern} {path found : Path} {name : String}
    (hpattern : literal? pattern = none) (hname : IsName name)
    (h : found ∈ visit tree onlyDirectories below (pattern :: rest) (child path name)) :
    LeadsTo (pattern :: rest) path found := by
  have hcompare : ∀ patterns, patterns.tail <:+ rest →
      found ∈ compareName tree onlyDirectories below patterns (child path name) →
      LeadsTo (pattern :: rest) path found := by
    intro patterns hsuffix hfound
    obtain ⟨rest', hrest, hleads⟩ := leadsTo_of_mem_compareName hbelow hfound
    exact .entry hpattern hname (hrest.trans hsuffix) hleads
  rw [visit] at h
  by_cases hany : pattern.isDirectories = true
  · rw [if_pos hany] at h
    obtain h | h := List.mem_append.mp h
    · split_ifs at h with hnone hdirectory
      · obtain rfl := List.mem_singleton.mp h
        exact .entry hpattern hname List.nil_suffix (.found _)
      · cases h
      · exact hcompare _ ((List.tail_suffix _).trans (List.dropWhile_suffix _)) h
    · split_ifs at h
      · exact .deeper hpattern hname (List.dropWhile_suffix _) (hbelow _ _ found h)
      · cases h
  · rw [if_neg hany] at h
    exact hcompare (pattern :: rest) (List.suffix_refl rest) h

/-- What a search finds, its patterns lead to. -/
theorem leadsTo_of_mem_searchFrom (hproper : tree.IsProper) {steps : Nat} {patterns : List Pattern}
    {path found : Path} (h : found ∈ tree.searchFrom onlyDirectories steps patterns path) :
    LeadsTo patterns path found := by
  induction steps generalizing patterns path found with
  | zero => cases h
  | succ steps ih =>
    have hbelow : ∀ patterns path, ∀ found ∈ tree.searchFrom onlyDirectories steps patterns path,
        LeadsTo patterns path found := fun _ _ _ ↦ ih
    cases patterns with
    | nil => cases h
    | cons pattern rest =>
      simp only [searchFrom] at h
      split at h
      · rename_i name hpattern
        refine .literal hpattern ?_
        split_ifs at h
        all_goals first | exact leadsTo_of_mem_reach hbelow h | cases h
      · rename_i hpattern
        split_ifs at h
        · obtain h | h := List.mem_append.mp h
          · obtain ⟨name, hname, hfound⟩ := List.mem_flatMap.mp h
            exact .special hpattern hname (leadsTo_of_mem_reach hbelow hfound)
          · obtain ⟨entry, hentry, hfound⟩ := List.mem_flatMap.mp h
            unfold children at hentry
            split at hentry
            · cases hentry
            · obtain ⟨name, hname, rfl⟩ := List.mem_map.mp hentry
              exact leadsTo_of_mem_visit hbelow hpattern (hproper.isName_of_mem_names hname) hfound
        · cases h

end Search

end Files.Tree

/-! ### Dots and double dots -/

namespace Path

theorem Component.upsFirst_append_name_iff {components components' : List Component}
    {value : String} :
    UpsFirst (components ++ .name value :: components') ↔
      UpsFirst components ∧ .up ∉ components' := by
  unfold UpsFirst
  rw [List.pairwise_append, List.pairwise_cons]
  constructor
  · rintro ⟨hfirst, ⟨hname, -⟩, -⟩
    refine ⟨hfirst, fun hup ↦ ?_⟩
    cases hname .up hup rfl
  · rintro ⟨hfirst, hup⟩
    have hne : ∀ component ∈ components', component ≠ .up := by
      rintro component hcomponent rfl
      exact hup hcomponent
    refine ⟨hfirst, ⟨fun later hlater heq ↦ absurd heq (hne later hlater), ?_⟩, ?_⟩
    · exact List.pairwise_of_forall_mem_list fun _ _ later hlater heq ↦
        absurd heq (hne later hlater)
    · intro earlier _ later hlater heq
      obtain rfl | hlater := List.mem_cons.mp hlater
      · cases heq
      · exact absurd heq (hne later hlater)

end Path

namespace Files.Pattern

open CalculatorCatalog.Path

/-- What a pattern stands for in a path; one with wildcards stands for some name. -/
def component (pattern : Pattern) : Option Component :=
  match literal? pattern with
  | some name => innerComponent name
  | none => some (.name "")

theorem component_of_literal? {pattern : Pattern} {name : String}
    (h : literal? pattern = some name) : component pattern = innerComponent name := by
  rw [component, h]

theorem component_of_wildcard {pattern : Pattern} (h : literal? pattern = none) :
    component pattern = some (.name "") := by
  rw [component, h]

/-- A pattern without slashes that does not describe the dots if it has wildcards. -/
structure IsPlain (pattern : Pattern) : Prop where
  slash_notMem : ∀ name, literal? pattern = some name → '/' ∉ name.toList
  specialNames_eq : literal? pattern = none → Tree.specialNames pattern = []

/-- A search has come to a path that has no dot it will keep, with no double dots after a name and
none to come, and has met a pattern with wildcards or is going to. -/
structure OnCourse (patterns : List Pattern) (path : Path) : Prop where
  isBare : path.IsBare
  upsFirst : Component.UpsFirst (path.way ++ patterns.filterMap component)
  ne_nil : path.way ≠ [] ∨ ∃ pattern ∈ patterns, literal? pattern = none

namespace OnCourse

variable {pattern : Pattern} {rest : List Pattern} {path : Path} {name : String}

theorem of_literal (h : OnCourse (pattern :: rest) path) (hpattern : literal? pattern = some name)
    (hslash : '/' ∉ name.toList) : OnCourse rest (Tree.child path name) where
  isBare := Tree.isBare_child hslash h.isBare
  upsFirst := by
    have hups := h.upsFirst
    rw [Tree.way_child hslash, List.append_assoc]
    rw [List.filterMap_cons, component_of_literal? hpattern] at hups
    cases hname : innerComponent name <;>
    · rw [hname] at hups
      exact hups
  ne_nil := by
    obtain hway | ⟨other, hother, hnone⟩ := h.ne_nil
    · rw [Tree.way_child hslash]
      exact .inl (by simp [hway])
    · refine .inr ⟨other, (List.mem_cons.mp hother).resolve_left ?_, hnone⟩
      rintro rfl
      rw [hpattern] at hnone
      cases hnone

theorem upsFirst_of_wildcard (h : OnCourse (pattern :: rest) path)
    (hpattern : literal? pattern = none) :
    Component.UpsFirst path.way ∧ .up ∉ rest.filterMap component := by
  have hups := h.upsFirst
  rwa [List.filterMap_cons_some (component_of_wildcard hpattern),
    Component.upsFirst_append_name_iff] at hups

theorem of_entry (h : OnCourse (pattern :: rest) path) (hpattern : literal? pattern = none)
    (hname : IsName name) {patterns : List Pattern}
    (hpatterns : .up ∉ patterns.filterMap component) :
    OnCourse patterns (Tree.child path name) where
  isBare := Tree.isBare_child hname.slash_notMem h.isBare
  upsFirst := by
    rw [Tree.way_child hname.slash_notMem, innerComponent_of_name hname.ne, List.append_assoc]
    exact Component.upsFirst_append_name_iff.mpr ⟨(h.upsFirst_of_wildcard hpattern).1, hpatterns⟩
  ne_nil := by
    rw [Tree.way_child hname.slash_notMem, innerComponent_of_name hname.ne]
    exact .inl (by simp)

end OnCourse

/-- A search over plain patterns stays on course. -/
theorem LeadsTo.onCourse {patterns : List Pattern} {path found : Path}
    (h : LeadsTo patterns path found) (hplain : ∀ pattern ∈ patterns, IsPlain pattern)
    (hcourse : OnCourse patterns path) : OnCourse [] found := by
  induction h with
  | found path => exact hcourse
  | literal hpattern hrest ih =>
    rw [List.forall_mem_cons] at hplain
    exact ih hplain.2 (hcourse.of_literal hpattern (hplain.1.slash_notMem _ hpattern))
  | special hpattern hname hrest ih =>
    rw [(hplain _ List.mem_cons_self).specialNames_eq hpattern] at hname
    cases hname
  | entry hpattern hname hsuffix hrest ih =>
    rw [List.forall_mem_cons] at hplain
    have hup := (hcourse.upsFirst_of_wildcard hpattern).2
    refine ih (fun other hother ↦ hplain.2 other (hsuffix.subset hother)) ?_
    exact hcourse.of_entry hpattern hname
      fun hmem ↦ hup ((hsuffix.sublist.filterMap component).subset hmem)
  | deeper hpattern hname hsuffix hrest ih =>
    rw [List.forall_mem_cons] at hplain
    have hup := (hcourse.upsFirst_of_wildcard hpattern).2
    refine ih (List.forall_mem_cons.mpr
      ⟨hplain.1, fun other hother ↦ hplain.2 other (hsuffix.subset hother)⟩) ?_
    refine hcourse.of_entry hpattern hname ?_
    rw [List.filterMap_cons_some (component_of_wildcard hpattern), List.mem_cons, not_or]
    exact ⟨by simp, fun hmem ↦ hup ((hsuffix.sublist.filterMap component).subset hmem)⟩

theorem OnCourse.isStraight {path : Path} (h : OnCourse [] path) : path.IsStraight := by
  have hups := h.upsFirst
  rwa [List.filterMap_nil, List.append_nil] at hups

theorem OnCourse.not_isDotted {path : Path} (h : OnCourse [] path) : ¬path.IsDotted := by
  intro hdotted
  refine h.ne_nil.elim (fun hway ↦ hway ?_) (by simp)
  rw [way, h.isBare hdotted]
  rfl

/-! ### Patterns of segments -/

/-- Patterns that have been read from segments, one from each. -/
theorem forall₂_of_mapM {segments : List String} {patterns : List Pattern}
    (h : segments.mapM parse = .ok patterns) :
    List.Forall₂ (fun segment pattern ↦ parse segment = .ok pattern) segments patterns := by
  induction segments generalizing patterns with
  | nil =>
    obtain rfl := Except.ok.inj h
    exact .nil
  | cons segment segments ih =>
    rw [List.mapM_cons, bind_eq_ok_iff] at h
    obtain ⟨pattern, hpattern, h⟩ := h
    obtain ⟨rest, hrest, h⟩ := bind_eq_ok_iff.mp h
    obtain rfl := Except.ok.inj h
    exact .cons hpattern (ih hrest)

theorem exists_segment_of_forall₂ {segments : List String} {patterns : List Pattern}
    (h : List.Forall₂ (fun segment pattern ↦ parse segment = .ok pattern) segments patterns)
    {pattern : Pattern} (hpattern : pattern ∈ patterns) :
    ∃ segment ∈ segments, parse segment = .ok pattern := by
  induction h with
  | nil => cases hpattern
  | cons hparse _ ih =>
    obtain rfl | hpattern := List.mem_cons.mp hpattern
    · exact ⟨_, List.mem_cons_self, hparse⟩
    · obtain ⟨segment, hsegment, hread⟩ := ih hpattern
      exact ⟨segment, List.mem_cons_of_mem _ hsegment, hread⟩

/-- A pattern that has been read from a segment is plain unless it describes the dots. -/
theorem isPlain_of_parse {segment : String} (hslash : '/' ∉ segment.toList) {pattern : Pattern}
    (hparse : parse segment = .ok pattern)
    (hdots : literal? pattern = none → Tree.specialNames pattern = []) : IsPlain pattern where
  slash_notMem name hname := by rwa [(eq_of_literal? hparse hname).1]
  specialNames_eq := hdots

theorem exists_pattern_of_forall₂ {segments : List String} {patterns : List Pattern}
    (h : List.Forall₂ (fun segment pattern ↦ parse segment = .ok pattern) segments patterns)
    {segment : String} (hsegment : segment ∈ segments) :
    ∃ pattern ∈ patterns, parse segment = .ok pattern := by
  induction h with
  | nil => cases hsegment
  | cons hparse _ ih =>
    obtain rfl | hsegment := List.mem_cons.mp hsegment
    · exact ⟨_, List.mem_cons_self, hparse⟩
    · obtain ⟨pattern, hpattern, hread⟩ := ih hsegment
      exact ⟨pattern, List.mem_cons_of_mem _ hpattern, hread⟩

theorem innerComponent_of_wildcard {segment : String} {pattern : Pattern}
    (h : parse segment = .ok pattern) (hpattern : literal? pattern = none) :
    innerComponent segment = some (.name segment) := by
  have hne : ∀ text, (∃ parts, parse text = .ok parts ∧ literal? parts ≠ none) →
      segment ≠ text := by
    rintro text ⟨parts, hparts, hsome⟩ rfl
    rw [Except.ok.inj (h.symm.trans hparts)] at hpattern
    exact hsome hpattern
  exact innerComponent_of_name ⟨hne "" ⟨_, rfl, by decide⟩, hne "." ⟨_, rfl, by decide⟩,
    hne ".." ⟨_, rfl, by decide⟩⟩

/-- Patterns stand for double dots where their segments do. -/
theorem map_filterMap_component {segments : List String} {patterns : List Pattern}
    (h : List.Forall₂ (fun segment pattern ↦ parse segment = .ok pattern) segments patterns) :
    (patterns.filterMap component).map (fun component ↦ decide (component = .up)) =
      (segments.filterMap innerComponent).map fun component ↦ decide (component = .up) := by
  induction h with
  | nil => rfl
  | @cons segment pattern segments patterns hparse _ ih =>
    cases hpattern : literal? pattern with
    | some name =>
      obtain rfl := (eq_of_literal? hparse hpattern).1
      cases hname : innerComponent name with
      | none =>
        rwa [List.filterMap_cons_none ((component_of_literal? hpattern).trans hname),
          List.filterMap_cons_none hname]
      | some other =>
        rw [List.filterMap_cons_some ((component_of_literal? hpattern).trans hname),
          List.filterMap_cons_some hname, List.map_cons, List.map_cons, ih]
    | none =>
      rw [List.filterMap_cons_some (component_of_wildcard hpattern),
        List.filterMap_cons_some (innerComponent_of_wildcard hparse hpattern), List.map_cons,
        List.map_cons, ih]
      simp

end Files.Pattern

namespace Path

theorem Component.upsFirst_of_map_eq {components components' : List Component}
    (h : components.map (fun component ↦ decide (component = .up)) =
      components'.map fun component ↦ decide (component = .up))
    (hups : UpsFirst components) : UpsFirst components' := by
  have hiff : ∀ components, UpsFirst components ↔
      (components.map fun component ↦ decide (component = .up)).Pairwise
        fun earlier later ↦ later = true → earlier = true := by
    intro components
    rw [List.pairwise_map]
    simp only [decide_eq_true_eq]
    exact .rfl
  rwa [hiff, ← h, ← hiff]

end Path

end CalculatorCatalog
