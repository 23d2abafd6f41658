import CalculatorCatalog.Proofs.Files.Growth
import CalculatorCatalog.Proofs.Files.Places
import CalculatorCatalog.Proofs.Files.Retrying

/-!
# Taking away the last component of a path

The parent of a path is written with the components before the last one
(`exists_components_of_parent?`), so its text is shorter, and taking away components comes to an end
before the length of the text does (`ancestors_eq`). Where the last component is a name, the parent
leads to the directory above; but where it is a double dot, the path leads to the directory above
that of its parent (`addressOf_parent?_cases`).

Going up from directory to directory never leads back, except at the root (`above_eq_of_iterate`).
-/

set_option autoImplicit false
set_option relaxedAutoImplicit false

namespace CalculatorCatalog

open CalculatorCatalog.Files CalculatorCatalog.Text

namespace Path

variable {path parent : Path}

/-! ### The components of a parent -/

/-- Behind the first of several segments, a component is that of its segment. -/
theorem tagged_of_cons {first : String × Option Component}
    {rest : List (String × Option Component)} (h : path.tagged = first :: rest)
    (hrest : rest ≠ []) :
    first.2 = firstComponent false first.1 ∧
      rest = (rest.map (·.1)).map fun segment ↦ (segment, innerComponent segment) := by
  unfold tagged at h
  split at h
  · cases h
  · rename_i segment segments hsegments
    obtain ⟨rfl, rfl⟩ := List.cons.inj h
    have hmany : segments.isEmpty = false := by simpa using hrest
    refine ⟨by rw [hmany], ?_⟩
    rw [List.map_map]
    simp [Function.comp_def]

/-- What is written with some first segments of a path has the components that these stand for. -/
theorem components_ofTagged {kept others : List (String × Option Component)}
    (h : path.tagged = kept ++ others) (hothers : others ≠ []) :
    (ofTagged kept).components = kept.filterMap (·.2) := by
  cases kept with
  | nil => rfl
  | cons first rest =>
    rw [List.cons_append] at h
    obtain ⟨hfirst, hinner⟩ := tagged_of_cons h (List.append_ne_nil_of_right_ne_nil rest hothers)
    have hrest : rest = (rest.map (·.1)).map fun segment ↦ (segment, innerComponent segment) := by
      rw [List.map_append, List.map_append] at hinner
      exact (List.append_inj hinner (by simp)).1
    have hslash : ∀ segment ∈ (first :: rest).map (·.1), '/' ∉ segment.toList := by
      intro segment hsegment
      refine slash_notMem_segments segment (?_ : segment ∈ path.segments)
      rw [← map_fst_tagged, h, ← List.cons_append, List.map_append]
      exact List.mem_append_left _ hsegment
    have hsegments := segments_intercalate (by simp) hslash
    have hvalues : (first :: rest).filterMap (·.2) =
        (firstComponent false first.1).toList ++ (rest.map (·.1)).filterMap innerComponent := by
      conv_lhs => rw [hrest, List.filterMap_cons, hfirst]
      rw [List.filterMap_map]
      cases firstComponent false first.1 <;> rfl
    rw [hvalues]
    unfold ofTagged
    split
    · rename_i segment heq
      obtain ⟨rfl, rfl⟩ := List.cons.inj heq
      rw [← hfirst]
      rfl
    · rename_i hroot
      rw [components_of_segments hsegments, List.isEmpty_map]
      congr 2
      cases rest with
      | cons second rest => rfl
      | nil =>
        refine firstComponent_of_ne (fun hempty ↦ hroot first.1 ?_) _
        have hvalue : first.2 = some .root := by rw [hfirst, show first.1 = "" from hempty]; rfl
        rw [← hvalue]

/-- The parent of a path has the components before the last one. -/
theorem exists_components_of_parent? (h : path.parent? = some parent) :
    ∃ component, component ≠ .root ∧ path.components = parent.components ++ [component] := by
  obtain ⟨before, after, segment, component, htagged, hroot, hafter, rfl⟩ :=
    exists_tagged_of_parent? h
  obtain ⟨idle, hbefore, hidle⟩ := exists_eq_dropIdle_append before
  have hnone : ∀ tags : List (String × Option Component), (∀ tag ∈ tags, tag.2 = none) →
      tags.filterMap (·.2) = [] := fun tags htags ↦ List.filterMap_eq_nil_iff.mpr htags
  refine ⟨component, hroot, ?_⟩
  have hkept : path.tagged =
      (dropIdle before).reverse ++ (idle ++ (segment, some component) :: after) := by
    rw [htagged, hbefore, List.append_assoc]
  rw [components_ofTagged hkept (by simp), components, hkept, List.filterMap_append,
    List.filterMap_append, hnone idle hidle, List.filterMap_cons, hnone after hafter]
  rfl

/-- The text of a path begins with that of its parent. -/
theorem text_parent?_isPrefix (h : path.parent? = some parent) :
    parent.text.toList <+: path.text.toList := by
  obtain ⟨kept, idle, last, rest, hsegments, -, htext⟩ := exists_segments_of_parent? h
  rw [path.text_eq_intercalate, hsegments, List.append_assoc]
  obtain ⟨htext, rfl⟩ | htext := htext
  · obtain ⟨second, others, hothers⟩ := List.exists_cons_of_ne_nil
      (List.append_ne_nil_of_right_ne_nil idle (List.cons_ne_nil last rest))
    rw [htext, hothers, String.toList_intercalate]
    simp [List.intercalate_cons_cons]
  · rw [htext]
    by_cases hkept : kept = []
    · rw [hkept]
      exact List.nil_prefix
    · exact intercalate_isPrefix hkept _

/-- The text of a parent is shorter. -/
theorem length_text_parent?_lt (h : path.parent? = some parent) :
    parent.text.length < path.text.length := by
  have hshorter := text_parent?_isPrefix h
  refine lt_of_le_of_ne hshorter.length_le fun hlength ↦ ?_
  have htext := String.toList_inj.mp (hshorter.eq_of_length hlength)
  obtain ⟨component, -, hcomponents⟩ := exists_components_of_parent? h
  have hsame : parent = path := by
    rw [← Path.mk.injEq] at htext
    exact htext
  rw [hsame] at hcomponents
  simp at hcomponents

end Path

namespace Files.Tree

open CalculatorCatalog.Path

/-! ### Going up -/

/-- How deep an address lies; above the working directory the level is negative. -/
def level (address : Address) : Int :=
  if address.all (· == "..") then -address.length else address.length

theorem above_append_name {name : String} (h : IsName name) (address : Address) :
    above (address ++ [name]) = address := by
  have hroot : address ++ [name] ≠ ["/"] := by
    intro heq
    obtain ⟨-, rfl⟩ := List.append_singleton_inj.mp (heq.trans (List.nil_append ["/"]).symm)
    exact h.slash_notMem (by decide)
  have hdots : ¬(address ++ [name]).all (· == "..") = true := by
    simp [h.ne.2.2]
  rw [above, if_neg hroot, if_neg hdots, List.dropLast_concat]

/-- The directory above lies higher, but for the root. -/
theorem above_eq_or_level_lt (address : Address) :
    above address = address ∨ level (above address) < level address := by
  unfold above
  split_ifs with hroot hdots
  · exact .inl rfl
  · have hmore : (address ++ [".."]).all (· == "..") = true := by simpa using hdots
    right
    rw [level, level, if_pos hdots, if_pos hmore, List.length_append, List.length_singleton]
    omega
  · have hpositive : 0 < address.length := by
      refine List.length_pos_iff.mpr ?_
      rintro rfl
      exact hdots rfl
    right
    rw [level, level, if_neg hdots, List.length_dropLast]
    split_ifs <;> omega

theorem level_iterate_above_le (count : Nat) (address : Address) :
    level (above^[count] address) ≤ level address := by
  induction count generalizing address with
  | zero => exact Int.le_refl _
  | succ count ih =>
    have hle := ih (above address)
    rw [Function.iterate_succ_apply]
    rcases above_eq_or_level_lt address with h | h
    · rwa [h] at hle ⊢
    · omega

/-- Going up leads back only at the root. -/
theorem above_eq_of_iterate {count : Nat} {address : Address}
    (h : above^[count + 1] address = address) : above address = address := by
  refine (above_eq_or_level_lt address).resolve_right fun hlt ↦ ?_
  have hle := level_iterate_above_le count (above address)
  rw [← Function.iterate_succ_apply, h] at hle
  omega

/-- What taking away the last component does to the place: a double dot is taken back, and any other
component leads to the directory above or to none. -/
theorem addressOf_parent?_cases {path parent : Path} (h : path.parent? = some parent) :
    ∃ component, path.components = parent.components ++ [component] ∧
      (component = .up ∧ Program.addressOf path = above (Program.addressOf parent) ∨
        Program.addressOf parent = Program.addressOf path ∨
        Program.addressOf parent = above (Program.addressOf path)) := by
  obtain ⟨component, hroot, hcomponents⟩ := exists_components_of_parent? h
  have haddress : Program.addressOf path = component.follow (Program.addressOf parent) := by
    rw [addressOf_eq_foldl_components, hcomponents, List.foldl_append]
    rfl
  refine ⟨component, hcomponents, ?_⟩
  cases component with
  | root => exact absurd rfl hroot
  | here => exact .inr (.inl haddress.symm)
  | up => exact .inl ⟨rfl, haddress⟩
  | name value =>
    have hname : IsName value := by
      have hmem : .name value ∈ path.components := by
        rw [hcomponents]
        exact List.mem_concat_self
      exact isName_of_mem_components hmem
    rw [haddress]
    exact .inr (.inr (above_append_name hname _).symm)

/-! ### Paths above a path -/

/-- Taking away components comes to an end within the length of the text. -/
theorem ancestors_congr {count count' : Nat} {path : Path} (h : path.text.length ≤ count)
    (h' : path.text.length ≤ count') : ancestors count path = ancestors count' path := by
  induction count generalizing count' path with
  | zero =>
    cases count' with
    | zero => rfl
    | succ count' =>
      rw [ancestors, ancestors]
      cases hparent : path.parent? with
      | none => rfl
      | some parent =>
        have hlt := length_text_parent?_lt hparent
        omega
  | succ count ih =>
    rw [ancestors]
    cases hparent : path.parent? with
    | none =>
      cases count' with
      | zero => rfl
      | succ count' => simp only [ancestors, hparent]
    | some parent =>
      have hlt := length_text_parent?_lt hparent
      obtain ⟨count', rfl⟩ : ∃ previous, count' = previous + 1 := ⟨count' - 1, by omega⟩
      have hrest : ancestors count parent = ancestors count' parent := ih (by omega) (by omega)
      simp only [ancestors, hparent, hrest]

/-- The paths above a path: itself, and those above its parent. -/
theorem ancestors_eq (path : Path) :
    ancestors path.text.length path = path :: match path.parent? with
      | none => []
      | some parent => ancestors parent.text.length parent := by
  have hmore : ancestors path.text.length path = ancestors (path.text.length + 1) path :=
    ancestors_congr le_rfl (Nat.le_succ _)
  rw [hmore, ancestors]
  cases hparent : path.parent? with
  | none => rfl
  | some parent =>
    exact congrArg _ (ancestors_congr (length_text_parent?_lt hparent).le le_rfl)

/-! ### Names in directories -/

variable {tree : Tree} {path : Path} {name : String}

/-- A name can be looked up behind a path if there is room for it. -/
theorem checked_join (hpath : path.text = "" ∨ checked path = .ok path) (hname : IsName name)
    (hnul : '\x00' ∉ name.toList)
    (hroom : byteLength path.text.toList + byteLength name.toList + 1 < maxPath) :
    checked (path.join name) = .ok (path.join name) := by
  have hhead : name.toList.head? ≠ some '/' :=
    fun hhead ↦ hname.slash_notMem (List.mem_of_head? hhead)
  have hpath : '\x00' ∉ path.text.toList := by
    obtain hempty | hchecked := hpath
    · simp [hempty]
    · unfold checked at hchecked
      split_ifs at hchecked with hcontains
      simpa using hcontains
  obtain ⟨between, htext, hshort, hbetween⟩ : ∃ between : List Char,
      (path.join name).text.toList = path.text.toList ++ between ++ name.toList ∧
        byteLength between ≤ 1 ∧ '\x00' ∉ between := by
    unfold join
    rw [if_neg hhead]
    split_ifs
    · exact ⟨[], by simp, by simp, by simp⟩
    · exact ⟨['/'], by simp, by decide, by simp⟩
  have hne : (path.join name).text ≠ "" := by
    rw [Ne, ← String.toList_eq_nil_iff, htext]
    simp [hname.ne.1]
  unfold checked
  rw [if_neg, if_neg hne, if_neg]
  · rw [htext, byteLength_append, byteLength_append]
    omega
  · rw [htext]
    simp [hpath, hbetween, hnul]

/-- A name behind the path of a directory is a name in this directory; the empty path stands for the
working directory. -/
theorem exists_namesIn_join {reached : Address}
    (hreached : path.text = "" ∧ reached = [] ∨
      tree.address path = .ok reached ∧ tree.get? reached = some .directory)
    (hname : IsName name) (hlength : ¬maxName < byteLength name.toList)
    (hchecked : checked (path.join name) = .ok (path.join name)) :
    ∃ before, tree.NamesIn (path.join name) before reached name := by
  have hsegments := segments_of_slash_notMem hname.slash_notMem
  obtain ⟨hempty, rfl⟩ | ⟨haddress, hdirectory⟩ := hreached
  · rw [join_of_empty hempty] at hchecked ⊢
    exact ⟨[], hchecked, hsegments, hname.ne, hlength, rfl, get?_of_isOutside rfl⟩
  · have hne : path.text ≠ "" := by
      intro hempty
      have hself := (address_eq_ok_iff.mp haddress).1
      unfold checked at hself
      split_ifs at hself
    have hhead : name.toList.head? ≠ some '/' :=
      fun hhead ↦ hname.slash_notMem (List.mem_of_head? hhead)
    obtain ⟨before, hbefore, hpath, hjoin⟩ := segments_join hne
    have hjoined := hjoin name hhead
    rw [hsegments] at hjoined
    have hfollow := (address_eq_ok_iff.mp haddress).2
    refine ⟨before, hchecked, hjoined, hname.ne, hlength, ?_, hdirectory⟩
    obtain hpath | hpath := hpath
    · rwa [hpath] at hfollow
    · rw [hpath, followPath_append_eq_ok_iff hbefore] at hfollow
      obtain ⟨between, hbetween, hidle⟩ := hfollow
      rwa [eq_of_follow_idle (by simp) hidle]

end Files.Tree

end CalculatorCatalog
