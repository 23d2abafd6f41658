import CalculatorCatalog.Main
import CalculatorCatalog.Proofs.Files.Parents

/-!
# Places

The place of a path is the address that its components lead to one by one, `Program.addressOf`; a
path that can be followed in a tree leads there (`addressOf_of_address`). What a path is joined with
adds its components (`components_join`).

One place can be spelt in several ways. A leading dot makes no difference, and a path whose double
dots all stand at the beginning can be told from its place except for that dot
(`map_ofLabel_addressOf`). For such paths, to have the same components is to have the same place
and to agree in the leading dot (`components_eq_iff`), and to lie below another path is to lie below
its place and to agree in the leading dot (`isBelow_iff`).
-/

set_option autoImplicit false
set_option relaxedAutoImplicit false

namespace CalculatorCatalog

open CalculatorCatalog.Files

namespace Path

/-! ### Components -/

/-- A name that an entry of a directory can have. -/
structure IsName (name : String) : Prop where
  ne : name ≠ "" ∧ name ≠ "." ∧ name ≠ ".."
  slash_notMem : '/' ∉ name.toList

theorem segments_ne_nil (path : Path) : path.segments ≠ [] := by
  rw [segments, splitSlashes_eq_splitOn]
  simp

theorem segments_of_slash_notMem {name : String} (h : '/' ∉ name.toList) :
    (Path.mk name).segments = [name] := by
  have hsegments := segments_intercalate (List.cons_ne_nil name []) (by simpa using h)
  rwa [String.intercalate_singleton] at hsegments

/-- The components of a path: what its first segment stands for, and what the others do. -/
theorem components_of_segments {path : Path} {first : String} {rest : List String}
    (h : path.segments = first :: rest) :
    path.components =
      (firstComponent rest.isEmpty first).toList ++ rest.filterMap innerComponent := by
  have hrest : (rest.map fun segment ↦ (segment, innerComponent segment)).filterMap (·.2) =
      rest.filterMap innerComponent := by
    rw [List.filterMap_map]
    rfl
  rw [components, tagged, h]
  simp only [List.filterMap_cons, hrest]
  cases firstComponent rest.isEmpty first <;> rfl

theorem firstComponent_of_ne {segment : String} (h : segment ≠ "") (alone : Bool) :
    firstComponent alone segment = firstComponent false segment := by
  rw [firstComponent, firstComponent, if_neg h, if_neg h]

theorem eq_of_innerComponent_eq_name {segment name : String}
    (h : innerComponent segment = some (.name name)) :
    name = segment ∧ name ≠ "" ∧ name ≠ "." ∧ name ≠ ".." := by
  unfold innerComponent at h
  split_ifs at h with hidle hup
  · simp at h
  · obtain rfl : segment = name := by simpa using h
    simp only [not_or] at hidle
    exact ⟨rfl, hidle.1, hidle.2, hup⟩

theorem isName_of_mem_components {path : Path} {name : String}
    (h : Component.name name ∈ path.components) : IsName name := by
  obtain ⟨first, rest, hsegments⟩ := List.exists_cons_of_ne_nil path.segments_ne_nil
  have hslash : ∀ segment ∈ path.segments, '/' ∉ segment.toList := slash_notMem_segments
  rw [hsegments, List.forall_mem_cons] at hslash
  rw [components_of_segments hsegments, List.mem_append, Option.mem_toList,
    List.mem_filterMap] at h
  obtain h | ⟨segment, hsegment, h⟩ := h
  · have hinner : innerComponent first = some (.name name) := by
      unfold firstComponent at h
      split_ifs at h <;> first | exact h | simp at h
    obtain ⟨rfl, hne⟩ := eq_of_innerComponent_eq_name hinner
    exact ⟨hne, hslash.1⟩
  · obtain ⟨rfl, hne⟩ := eq_of_innerComponent_eq_name h
    exact ⟨hne, hslash.2 name hsegment⟩

/-! ### Joined paths -/

theorem splitSlashes_append_slash (text text' : List Char) :
    splitSlashes (text ++ '/' :: text') = splitSlashes text ++ splitSlashes text' := by
  induction text with
  | nil => simp [splitSlashes]
  | cons c text ih =>
    rw [List.cons_append, splitSlashes, splitSlashes, ih]
    split_ifs
    · rfl
    · obtain ⟨segment, segments, hsegments⟩ : ∃ segment segments,
          splitSlashes text = segment :: segments := by
        rw [splitSlashes_eq_splitOn]
        exact List.exists_cons_of_ne_nil (List.splitOn_ne_nil '/' text)
      rw [hsegments]
      rfl

theorem segments_append_slash (text text' : String) :
    (Path.mk (text ++ "/" ++ text')).segments =
      (Path.mk text).segments ++ (Path.mk text').segments := by
  have htext : (text ++ "/" ++ text').toList = text.toList ++ '/' :: text'.toList := by simp
  simp only [segments, htext, splitSlashes_append_slash, List.map_append]

theorem join_of_empty {base : Path} (h : base.text = "") (relative : String) :
    base.join relative = ⟨relative⟩ := by
  rw [join, h]
  simp

/-- The segments of a joined path are those of the two parts; a slash at the end of the first one is
not doubled. -/
theorem segments_join {base : Path} (hbase : base.text ≠ "") :
    ∃ before, before ≠ [] ∧ (base.segments = before ∨ base.segments = before ++ [""]) ∧
      ∀ relative : String, relative.toList.head? ≠ some '/' →
        (base.join relative).segments = before ++ (Path.mk relative).segments := by
  by_cases hslash : base.text.toList.getLast? = some '/'
  · obtain ⟨text, htext⟩ := List.getLast?_eq_some_iff.mp hslash
    have hbefore : base.text = String.ofList text ++ "/" := by
      rw [← String.toList_inj, htext]
      simp
    have hempty : (Path.mk "").segments = [""] := by decide
    have hsegments : base.segments = (Path.mk (String.ofList text)).segments ++ [""] := by
      have happend := segments_append_slash (String.ofList text) ""
      rw [← hbefore, String.append_empty, hempty] at happend
      exact happend
    refine ⟨(Path.mk (String.ofList text)).segments, segments_ne_nil _, .inr hsegments, ?_⟩
    intro relative hrelative
    rw [join, if_neg hrelative, if_pos (.inr hslash), hbefore, segments_append_slash]
  · refine ⟨base.segments, segments_ne_nil _, .inl rfl, fun relative hrelative ↦ ?_⟩
    rw [join, if_neg hrelative, if_neg (not_or.mpr ⟨hbase, hslash⟩), segments_append_slash]

/-- A joined path has the components of the first part and then what the segments of the second one
stand for. -/
theorem components_join {base : Path} {relative : String} (hbase : base.text ≠ "")
    (hrelative : relative.toList.head? ≠ some '/') :
    (base.join relative).components =
      base.components ++ (Path.mk relative).segments.filterMap innerComponent := by
  obtain ⟨before, hne, hsegments, hjoin⟩ := segments_join hbase
  have hjoin := hjoin relative hrelative
  obtain ⟨first, rest, rfl⟩ := List.exists_cons_of_ne_nil hne
  have hmore : (rest ++ (Path.mk relative).segments).isEmpty = false := by
    simp [segments_ne_nil]
  rw [List.cons_append] at hjoin
  rw [components_of_segments hjoin, hmore, List.filterMap_append, ← List.append_assoc]
  congr 1
  obtain hsegments | hsegments := hsegments
  · rw [components_of_segments hsegments]
    cases rest with
    | nil =>
      have hfirst : first ≠ "" := by
        rintro rfl
        have htext := base.text_eq_intercalate
        rw [hsegments] at htext
        exact hbase (htext.trans (String.intercalate_singleton ..))
      rw [firstComponent_of_ne hfirst [].isEmpty]
    | cons second rest => rfl
  · rw [List.cons_append] at hsegments
    have hmany : (rest ++ [""]).isEmpty = false := by simp
    rw [components_of_segments hsegments, hmany]
    simp [innerComponent]

theorem components_name {name : String} (h : IsName name) :
    (Path.mk name).components = [.name name] := by
  rw [components_of_segments (segments_of_slash_notMem h.slash_notMem), List.filterMap_nil,
    firstComponent, if_neg h.ne.1, if_neg h.ne.2.1, innerComponent_of_name h.ne]
  rfl

theorem components_join_name {name : String} (h : IsName name) (path : Path) :
    (path.join name).components = path.components ++ [.name name] := by
  by_cases hpath : path.text = ""
  · obtain ⟨text⟩ := path
    obtain rfl := hpath
    rw [join_of_empty rfl, components_name h]
    rfl
  · have hhead : name.toList.head? ≠ some '/' :=
      fun hhead ↦ h.slash_notMem (List.mem_of_head? hhead)
    rw [components_join hpath hhead, segments_of_slash_notMem h.slash_notMem,
      List.filterMap_cons_some (innerComponent_of_name h.ne), List.filterMap_nil]

theorem components_descend {names : List String} (h : ∀ name ∈ names, IsName name) (path : Path) :
    (Tree.descend path names).components = path.components ++ names.map .name := by
  induction names generalizing path with
  | nil => simp [Tree.descend]
  | cons name names ih =>
    rw [List.forall_mem_cons] at h
    have hrest := ih h.2 (path.join name)
    rw [components_join_name h.1, List.append_assoc] at hrest
    exact hrest

/-! ### Leading dots -/

/-- The components that can follow others: the directory above, and names. -/
def Component.IsInner (component : Component) : Prop :=
  component = .up ∨ ∃ value, component = .name value

theorem isInner_of_innerComponent {segment : String} {component : Component}
    (h : innerComponent segment = some component) : component.IsInner := by
  unfold innerComponent at h
  split_ifs at h
  · exact .inl (Option.some.inj h).symm
  · exact .inr ⟨segment, (Option.some.inj h).symm⟩

/-- The root and a dot can only come first. -/
theorem exists_components_eq (path : Path) :
    ∃ lead inner, path.components = lead ++ inner ∧
      (lead = [] ∨ lead = [.root] ∨ lead = [.here]) ∧
      ∀ component ∈ inner, component.IsInner := by
  obtain ⟨first, rest, hsegments⟩ := List.exists_cons_of_ne_nil path.segments_ne_nil
  have hrest : ∀ component ∈ rest.filterMap innerComponent, component.IsInner := by
    intro component hcomponent
    obtain ⟨segment, -, hsegment⟩ := List.mem_filterMap.mp hcomponent
    exact isInner_of_innerComponent hsegment
  rw [components_of_segments hsegments]
  cases hfirst : firstComponent rest.isEmpty first with
  | none => exact ⟨[], _, rfl, .inl rfl, hrest⟩
  | some component =>
    by_cases hlead : component = .root ∨ component = .here
    · refine ⟨[component], _, rfl, .inr ?_, hrest⟩
      simpa using hlead
    · have hinner : innerComponent first = some component := by
        unfold firstComponent at hfirst
        split_ifs at hfirst <;> simp_all
      refine ⟨[], component :: rest.filterMap innerComponent, rfl, .inl rfl, ?_⟩
      exact List.forall_mem_cons.mpr ⟨isInner_of_innerComponent hinner, hrest⟩

/-- The components of a path other than a leading dot. -/
def way (path : Path) : List Component :=
  path.components.filter (· ≠ .here)

/-- Whether a path begins with a dot. -/
def IsDotted (path : Path) : Prop :=
  path.components.head? = some .here
deriving Decidable

theorem filter_of_isInner {components : List Component}
    (h : ∀ component ∈ components, component.IsInner) :
    components.filter (· ≠ .here) = components := by
  refine List.filter_eq_self.mpr fun component hcomponent ↦ ?_
  obtain rfl | ⟨value, rfl⟩ := h component hcomponent <;> simp

theorem filter_filterMap_innerComponent (segments : List String) :
    (segments.filterMap innerComponent).filter (· ≠ .here) =
      segments.filterMap innerComponent := by
  refine filter_of_isInner fun component hcomponent ↦ ?_
  obtain ⟨segment, -, hsegment⟩ := List.mem_filterMap.mp hcomponent
  exact isInner_of_innerComponent hsegment

theorem components_cases (path : Path) :
    path.IsDotted ∧ path.components = .here :: path.way ∨
      ¬path.IsDotted ∧ path.components = path.way := by
  obtain ⟨lead, inner, heq, hlead, hinner⟩ := path.exists_components_eq
  unfold IsDotted way
  rw [heq, List.filter_append, filter_of_isInner hinner]
  obtain rfl | rfl | rfl := hlead
  · refine .inr ⟨fun hhead ↦ ?_, rfl⟩
    obtain hup | ⟨value, hname⟩ := hinner _ (List.mem_of_head? hhead)
    · cases hup
    · cases hname
  · exact .inr ⟨by simp, rfl⟩
  · exact .inl ⟨rfl, rfl⟩

/-! ### Places -/

/-- The address to which a component leads from another one. -/
def Component.follow (address : Address) : Component → Address
  | .root => ["/"]
  | .here => address
  | .up => Tree.above address
  | .name value => address ++ [value]

theorem addressOf_eq_foldl_components (path : Path) :
    Program.addressOf path = path.components.foldl Component.follow [] :=
  rfl

theorem addressOf_eq_foldl (path : Path) :
    Program.addressOf path = path.way.foldl Component.follow [] := by
  rw [addressOf_eq_foldl_components]
  obtain ⟨-, heq⟩ | ⟨-, heq⟩ := path.components_cases
  · rw [heq]
    rfl
  · rw [heq]

/-- All double dots stand at the beginning. -/
def Component.UpsFirst (components : List Component) : Prop :=
  components.Pairwise fun earlier later ↦ later = .up → earlier = .up
deriving Decidable

/-- All double dots of a path stand at its beginning, but for a leading dot. -/
def IsStraight (path : Path) : Prop :=
  Component.UpsFirst path.way
deriving Decidable

/-- The name that stands for a component in an address. -/
def Component.label : Component → String
  | .root => "/"
  | .here => ""
  | .up => ".."
  | .name value => value

/-- The component that a name in an address stands for. -/
def Component.ofLabel (label : String) : Component :=
  if label = "/" then .root else if label = ".." then .up else .name label

theorem above_of_forall {address : Address} (h : ∀ label ∈ address, label = "..") :
    Tree.above address = address ++ [".."] := by
  have hall : address.all (· == "..") = true := by simpa using h
  have hroot : address ≠ ["/"] := by
    rintro rfl
    simp at h
  rw [Tree.above, if_neg hroot, if_pos hall]

theorem foldl_follow_of_names {components : List Component}
    (h : ∀ component ∈ components, ∃ value, component = .name value) (address : Address) :
    components.foldl Component.follow address = address ++ components.map Component.label := by
  induction components generalizing address with
  | nil => simp
  | cons component components ih =>
    rw [List.forall_mem_cons] at h
    obtain ⟨⟨value, rfl⟩, hrest⟩ := h
    rw [List.foldl_cons, ih hrest]
    simp [Component.follow, Component.label]

theorem foldl_follow_of_upsFirst {components : List Component} {address : Address}
    (haddress : ∀ label ∈ address, label = "..")
    (hinner : ∀ component ∈ components, component.IsInner) (h : Component.UpsFirst components) :
    components.foldl Component.follow address = address ++ components.map Component.label := by
  induction components generalizing address with
  | nil => simp
  | cons component components ih =>
    rw [List.forall_mem_cons] at hinner
    obtain ⟨rfl | ⟨value, rfl⟩, hrest⟩ := hinner
    · have habove : ∀ label ∈ address ++ [".."], label = ".." := by
        simpa [or_imp, forall_and] using haddress
      rw [List.foldl_cons, Component.follow, above_of_forall haddress, ih habove hrest h.of_cons]
      simp [Component.label]
    · -- After a name there are only names.
      refine foldl_follow_of_names ?_ address
      rw [List.forall_mem_cons]
      refine ⟨⟨value, rfl⟩, fun later hlater ↦ (hrest later hlater).resolve_left fun hup ↦ ?_⟩
      cases List.rel_of_pairwise_cons h hlater hup

/-- The place of a straight path shows all of its components but a leading dot. -/
theorem addressOf_of_isStraight {path : Path} (h : path.IsStraight) :
    Program.addressOf path = path.way.map Component.label := by
  obtain ⟨lead, inner, heq, hlead, hinner⟩ := path.exists_components_eq
  have hway : path.way = lead.filter (· ≠ .here) ++ inner := by
    rw [way, heq, List.filter_append, filter_of_isInner hinner]
  unfold IsStraight at h
  rw [hway] at h
  rw [addressOf_eq_foldl, hway]
  obtain rfl | rfl | rfl := hlead
  · exact foldl_follow_of_upsFirst (by simp) hinner h
  · -- No double dots follow the root.
    refine foldl_follow_of_names (fun component hcomponent ↦ ?_) ["/"]
    refine (hinner component hcomponent).resolve_left fun hup ↦ ?_
    cases List.rel_of_pairwise_cons h hcomponent hup
  · exact foldl_follow_of_upsFirst (by simp) hinner h

/-- The components of a straight path can be told from its place, except for a leading dot. -/
theorem map_ofLabel_addressOf {path : Path} (h : path.IsStraight) :
    (Program.addressOf path).map Component.ofLabel = path.way := by
  rw [addressOf_of_isStraight h, List.map_map]
  conv_rhs => rw [← List.map_id path.way]
  refine List.map_congr_left fun component hcomponent ↦ ?_
  obtain ⟨hmem, hhere⟩ := List.mem_filter.mp hcomponent
  cases component with
  | root => rfl
  | here => simp at hhere
  | up => rfl
  | name value =>
    obtain ⟨⟨-, -, hup⟩, hslash⟩ := isName_of_mem_components hmem
    have hroot : value ≠ "/" := by
      rintro rfl
      simp at hslash
    simp [Component.label, Component.ofLabel, hroot, hup]

/-- Straight paths that lead to the same place differ in a leading dot at most. -/
theorem components_eq_iff {path other : Path} (h : path.IsStraight) (hother : other.IsStraight) :
    path.components = other.components ↔
      Program.addressOf path = Program.addressOf other ∧ (path.IsDotted ↔ other.IsDotted) := by
  constructor
  · intro heq
    rw [addressOf_eq_foldl_components, addressOf_eq_foldl_components, IsDotted, IsDotted, heq]
    exact ⟨rfl, .rfl⟩
  · rintro ⟨hplace, hdots⟩
    have hway : path.way = other.way := by
      rw [← map_ofLabel_addressOf h, hplace, map_ofLabel_addressOf hother]
    obtain ⟨hdot, heq⟩ | ⟨hdot, heq⟩ := path.components_cases <;>
    obtain ⟨hdot', heq'⟩ | ⟨hdot', heq'⟩ := other.components_cases
    · rw [heq, heq', hway]
    · exact absurd (hdots.mp hdot) hdot'
    · exact absurd (hdots.mpr hdot') hdot
    · rw [heq, heq', hway]

/-- A straight path begins with the components of another one if its place lies at or below that of
the other one and both begin with a dot or neither does. -/
theorem isBelow_iff {path base : Path} (h : path.IsStraight) (hbase : base.IsStraight) :
    path.isBelow base = true ↔
      Program.addressOf base <+: Program.addressOf path ∧
        (base.components = [] ∨ (base.IsDotted ↔ path.IsDotted)) := by
  have hplaces : Program.addressOf base <+: Program.addressOf path ↔ base.way <+: path.way := by
    rw [← map_ofLabel_addressOf h, ← map_ofLabel_addressOf hbase]
    refine ⟨fun hbegins ↦ hbegins.map _, fun hbegins ↦ ?_⟩
    rw [map_ofLabel_addressOf h, map_ofLabel_addressOf hbase] at hbegins
    rw [addressOf_of_isStraight h, addressOf_of_isStraight hbase]
    exact hbegins.map _
  rw [isBelow, List.isPrefixOf_iff_prefix, hplaces]
  have hhere : ∀ other : Path, .here ∉ other.way := fun other hmem ↦ by
    simpa using (List.mem_filter.mp hmem).2
  obtain ⟨hdot, heq⟩ | ⟨hdot, heq⟩ := path.components_cases <;>
  obtain ⟨hdot', heq'⟩ | ⟨hdot', heq'⟩ := base.components_cases
  · simp [heq, heq', hdot, hdot']
  · -- Only the empty path can be continued by one that begins with a dot.
    cases hway : base.way with
    | nil => simp [heq', hway]
    | cons component components =>
      have hne : component ≠ .here := by
        rintro rfl
        exact hhere base (hway ▸ List.mem_cons_self)
      simp [heq, heq', hdot, hdot', hway, hne]
  · have hnot : ¬(.here :: base.way) <+: path.way := fun hbegins ↦
      hhere path (hbegins.subset List.mem_cons_self)
    simp [heq, heq', hdot, hdot', hnot]
  · simp [heq, heq', hdot, hdot']

end Path

namespace Files.Tree

open CalculatorCatalog.Path

variable {tree : Tree}

/-! ### Paths that can be followed -/

theorem eq_foldl_of_step {address next : Address} {segment : String}
    (h : step address segment = .ok next) :
    next = (innerComponent segment).toList.foldl Component.follow address := by
  unfold step at h
  unfold innerComponent
  split_ifs at h ⊢ <;> exact (Except.ok.inj h).symm

theorem eq_foldl_of_follow {address reached : Address} {segments : List String}
    (h : tree.follow address segments = .ok reached) :
    reached = (segments.filterMap innerComponent).foldl Component.follow address := by
  induction segments generalizing address with
  | nil => exact (Except.ok.inj h).symm
  | cons segment segments ih =>
    obtain ⟨-, next, hnext, hreached⟩ := follow_cons_eq_ok_iff.mp h
    rw [ih hreached, eq_foldl_of_step hnext, List.filterMap_cons]
    cases innerComponent segment <;> rfl

/-- A path that can be followed leads to its place. -/
theorem addressOf_of_address {path : Path} {reached : Address}
    (h : tree.address path = .ok reached) : Program.addressOf path = reached := by
  obtain ⟨hchecked, hfollow⟩ := address_eq_ok_iff.mp h
  obtain ⟨first, rest, hsegments⟩ := List.exists_cons_of_ne_nil path.segments_ne_nil
  rw [addressOf_eq_foldl_components, components_of_segments hsegments]
  rw [hsegments] at hfollow
  by_cases hfirst : first = ""
  · subst hfirst
    have hrest : rest.isEmpty = false := by
      refine Bool.eq_false_iff.mpr fun hempty ↦ ?_
      have htext := path.text_eq_intercalate
      rw [hsegments, List.isEmpty_iff.mp hempty, String.intercalate_singleton] at htext
      unfold checked at hchecked
      split_ifs at hchecked
    rw [hrest, eq_foldl_of_follow hfollow]
    rfl
  · have hpath : tree.follow [] (first :: rest) = .ok reached := by
      unfold followPath at hfollow
      split at hfollow
      · rename_i heq
        exact absurd (List.cons.inj heq).1 hfirst
      · exact hfollow
    rw [eq_foldl_of_follow hpath, List.filterMap_cons, firstComponent, if_neg hfirst]
    by_cases hdot : first = "."
    · subst hdot
      rfl
    · rw [if_neg hdot]
      cases innerComponent first <;> rfl

theorem addressOf_descend {names : List String} (h : ∀ name ∈ names, IsName name) (path : Path) :
    Program.addressOf (descend path names) = Program.addressOf path ++ names := by
  rw [addressOf_eq_foldl_components, components_descend h, List.foldl_append,
    ← addressOf_eq_foldl_components, foldl_follow_of_names (by simp), List.map_map]
  congr 1
  exact List.map_id' names

end Files.Tree

end CalculatorCatalog
