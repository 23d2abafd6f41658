import CalculatorCatalog.Proofs.Files.Contents
import CalculatorCatalog.Proofs.Files.Places

/-!
# Trying again

Creating a directory and those above it a second time changes nothing more and succeeds exactly if
the first time did (`makeParent_again`), although it may fail for another reason. Sources with the
same parent therefore do not depend on each other as long as they are not created: one that is not
leaves only the directories that the next one would create itself (`saveNew_after`).
-/

set_option autoImplicit false
set_option relaxedAutoImplicit false

namespace CalculatorCatalog

open CalculatorCatalog.Files

namespace Path

/-! ### Parents in general -/

theorem map_fst_tagged (path : Path) : path.tagged.map (·.1) = path.segments := by
  unfold tagged
  split
  · rename_i h
    exact h.symm
  · rename_i first rest h
    rw [h]
    simp [Function.comp_def]

/-- Each segment comes with what it stands for, at the beginning or after it. -/
theorem component_of_mem_tagged {path : Path} {tag : String × Option Component}
    (h : tag ∈ path.tagged) :
    (∃ alone, tag.2 = firstComponent alone tag.1) ∨ tag.2 = innerComponent tag.1 := by
  unfold tagged at h
  split at h
  · cases h
  · rename_i first rest hsegments
    obtain rfl | h := List.mem_cons.mp h
    · exact .inl ⟨rest.isEmpty, rfl⟩
    · obtain ⟨segment, -, rfl⟩ := List.mem_map.mp h
      exact .inr rfl

/-- An empty segment is a component only as the root. -/
theorem eq_root_of_mem_tagged {path : Path} {component : Component}
    (h : ("", some component) ∈ path.tagged) : component = .root := by
  obtain ⟨alone, hfirst⟩ | hinner := component_of_mem_tagged h
  · cases alone with
    | false => exact Option.some.inj hfirst
    | true => cases hfirst
  · cases hinner

/-- Only an empty segment is the root. -/
theorem eq_empty_of_mem_tagged {path : Path} {segment : String}
    (h : (segment, some .root) ∈ path.tagged) : segment = "" := by
  obtain ⟨alone, hfirst⟩ | hinner := component_of_mem_tagged h
  · by_contra hne
    rw [firstComponent_of_ne hne] at hfirst
    exact hne (eq_empty_of_firstComponent hfirst.symm)
  · exact absurd hinner.symm (innerComponent_ne_root segment)

/-- What drops segments at the end that stand for nothing keeps those before them. -/
theorem exists_eq_dropIdle_append (tags : List (String × Option Component)) :
    ∃ idle, tags.reverse = (dropIdle tags).reverse ++ idle ∧ ∀ tag ∈ idle, tag.2 = none := by
  refine ⟨(tags.takeWhile (·.2.isNone)).reverse, ?_, fun tag htag ↦ ?_⟩
  · rw [← List.reverse_append, dropIdle, List.takeWhile_append_dropWhile]
  · simpa using List.mem_takeWhile_imp (List.mem_reverse.mp htag)

/-- The parent of a path holds the segments before the last proper one, without those at their end
that stand for nothing. -/
theorem exists_tagged_of_parent? {path parent : Path} (h : path.parent? = some parent) :
    ∃ (before after : List (String × Option Component)) (segment : String) (component : Component),
      path.tagged = before.reverse ++ (segment, some component) :: after ∧ component ≠ .root ∧
        (∀ tag ∈ after, tag.2 = none) ∧ parent = ofTagged (dropIdle before).reverse := by
  obtain ⟨after, hafter, hidle⟩ := exists_eq_dropIdle_append path.tagged.reverse
  rw [List.reverse_reverse] at hafter
  unfold parent? at h
  cases hdrop : dropIdle path.tagged.reverse with
  | nil =>
    rw [hdrop] at h
    cases h
  | cons last before =>
    have hproper : last.2.isNone = false := by
      have hhead := List.head?_dropWhile_not (fun tag : String × Option Component ↦ tag.2.isNone)
        path.tagged.reverse
      rw [← dropIdle, hdrop] at hhead
      simpa using hhead
    obtain ⟨segment, component⟩ := last
    obtain ⟨component, rfl⟩ : ∃ proper, component = some proper := by
      simpa [Option.isSome_iff_exists] using hproper
    have hroot : component ≠ .root := by
      rintro rfl
      rw [hdrop] at h
      cases h
    refine ⟨before, after, segment, component, ?_, hroot, hidle, ?_⟩
    · rw [hafter, hdrop, List.reverse_cons, List.append_assoc]
      rfl
    · rw [hdrop] at h
      split at h
      · cases h
      · cases h
      · rename_i heq
        obtain ⟨-, rfl⟩ := List.cons.inj heq
        exact (Option.some.inj h).symm

/-- The parent of a path: some first segments of it, with at least one proper segment after them.
The root is written with a slash. -/
theorem exists_segments_of_parent? {path parent : Path} (h : path.parent? = some parent) :
    ∃ kept idle last rest, path.segments = kept ++ idle ++ last :: rest ∧ last ≠ "" ∧
      (parent.text = "/" ∧ kept = [""] ∨ parent.text = "/".intercalate kept) := by
  obtain ⟨before, after, segment, component, htagged, hroot, -, hparent⟩ :=
    exists_tagged_of_parent? h
  obtain ⟨idle, hidle, -⟩ := exists_eq_dropIdle_append before
  rw [hidle] at htagged
  refine ⟨(dropIdle before).reverse.map (·.1), idle.map (·.1), segment, after.map (·.1), ?_, ?_, ?_⟩
  · rw [← map_fst_tagged, htagged]
    simp
  · rintro rfl
    have hmem : ("", some component) ∈ path.tagged := by
      rw [htagged]
      simp
    exact hroot (eq_root_of_mem_tagged hmem)
  · rw [hparent]
    unfold ofTagged
    split
    · rename_i first hkept
      rw [hkept]
      have hmem : (first, some Component.root) ∈ path.tagged := by
        rw [htagged, hkept]
        simp
      exact .inl ⟨rfl, by rw [eq_empty_of_mem_tagged hmem]; rfl⟩
    · exact .inr rfl

/-- What the segments before the last one stand for does not depend on the last one. -/
theorem exists_tagged_eq_concat (before : List String) :
    ∃ tags, ∀ (path : Path) (name : String), path.segments = before ++ [name] →
      name ≠ "" → name ≠ "." → ∃ component, component ≠ .root ∧
        path.tagged = tags ++ [(name, some component)] := by
  have hinner : ∀ name, name ≠ "" → name ≠ "." →
      ∃ component, component ≠ .root ∧ innerComponent name = some component := by
    intro name hempty hdot
    obtain ⟨component, hcomponent⟩ : ∃ component, innerComponent name = some component := by
      rw [innerComponent, if_neg (not_or.mpr ⟨hempty, hdot⟩)]
      split_ifs <;> exact ⟨_, rfl⟩
    refine ⟨component, ?_, hcomponent⟩
    rintro rfl
    exact innerComponent_ne_root name hcomponent
  cases before with
  | nil =>
    refine ⟨[], fun path name hsegments hempty hdot ↦ ?_⟩
    obtain ⟨component, hroot, hcomponent⟩ := hinner name hempty hdot
    refine ⟨component, hroot, ?_⟩
    rw [tagged, hsegments]
    simp [firstComponent, hempty, hdot, hcomponent]
  | cons first before =>
    refine ⟨(first, firstComponent false first) ::
      before.map fun segment ↦ (segment, innerComponent segment), ?_⟩
    intro path name hsegments hempty hdot
    obtain ⟨component, hroot, hcomponent⟩ := hinner name hempty hdot
    refine ⟨component, hroot, ?_⟩
    have halone : (before ++ [name]).isEmpty = false := by simp
    rw [tagged, hsegments]
    simp only [List.cons_append, halone, List.map_append, List.map_cons, List.map_nil, hcomponent]

/-- All names that are joined to a path have the same parent. -/
theorem exists_parent?_join_eq (base : Path) :
    ∃ parent, ∀ name : String, '/' ∉ name.toList → name ≠ "" → name ≠ "." →
      (base.join name).parent? = some parent := by
  obtain ⟨before, hbefore⟩ : ∃ before, ∀ name : String, '/' ∉ name.toList →
      (base.join name).segments = before ++ [name] := by
    by_cases hbase : base.text = ""
    · refine ⟨[], fun name hslash ↦ ?_⟩
      rw [join_of_empty hbase, segments_of_slash_notMem hslash, List.nil_append]
    · obtain ⟨before, -, -, hjoin⟩ := segments_join hbase
      refine ⟨before, fun name hslash ↦ ?_⟩
      rw [hjoin name (fun hhead ↦ hslash (List.mem_of_head? hhead)),
        segments_of_slash_notMem hslash]
  obtain ⟨tags, htags⟩ := exists_tagged_eq_concat before
  refine ⟨ofTagged (dropIdle tags.reverse).reverse, fun name hslash hempty hdot ↦ ?_⟩
  obtain ⟨component, hroot, htagged⟩ := htags _ name (hbefore name hslash) hempty hdot
  rw [parent?, htagged, List.reverse_append, List.reverse_singleton, List.singleton_append,
    dropIdle, List.dropWhile_cons_of_neg (by simp)]
  cases component with
  | root => exact absurd rfl hroot
  | here | up | name other => rfl

end Path

namespace Files.Tree

variable {tree tree' : Tree} {path path' parent : Path}

/-! ### Directories and their parents -/

/-- The parent of a path is a directory if the way to the last proper segment is. -/
theorem isDirectory_of_prefix {kept before : List String} {directory : Address}
    (hchecked : checked path = .ok path) (hkept : kept <+: before)
    (hbefore : before <+: path.segments) (hreached : tree.followPath before = .ok directory)
    (hdirectory : tree.get? directory = some .directory) (hne : parent.text ≠ "")
    (htext : parent.text = "/" ∧ kept = [""] ∨ parent.text = "/".intercalate kept) :
    tree.isDirectory parent = true := by
  have hproper : kept ≠ [] := by
    rintro rfl
    obtain ⟨-, hkept⟩ | htext := htext
    · cases hkept
    · exact hne htext
  obtain ⟨others, rfl⟩ := hkept
  obtain ⟨between, hbetween, hrest⟩ := (followPath_append_eq_ok_iff hproper).mp hreached
  obtain ⟨others', hsegments⟩ := hbefore
  rw [List.append_assoc] at hsegments
  have haddress := address_of_segments hchecked hsegments.symm hbetween hne htext
  refine isDirectory_iff.mpr ⟨between, haddress, ?_⟩
  cases others with
  | nil =>
    obtain rfl := Except.ok.inj hrest
    exact hdirectory
  | cons segment others => exact (follow_cons_eq_ok_iff.mp hrest).1

/-- What lies above a directory is a directory. -/
theorem isDirectory_parent (hparent : path.parent? = some parent) (hne : parent.text ≠ "")
    (h : tree.isDirectory path = true) : tree.isDirectory parent = true := by
  obtain ⟨directory, haddress, hdirectory⟩ := isDirectory_iff.mp h
  obtain ⟨hchecked, hreached⟩ := address_eq_ok_iff.mp haddress
  obtain ⟨kept, idle, last, rest, hsegments, -, htext⟩ := Path.exists_segments_of_parent? hparent
  have hkept : kept <+: path.segments := by
    rw [hsegments, List.append_assoc]
    exact List.prefix_append _ _
  exact isDirectory_of_prefix hchecked hkept (List.prefix_refl _) hreached hdirectory hne htext

/-- A directory is created only in a directory. -/
theorem isDirectory_parent_of_makeDirectory (hparent : path.parent? = some parent)
    (hne : parent.text ≠ "") (h : tree.makeDirectory path = .ok tree') :
    tree.isDirectory parent = true := by
  obtain ⟨before, name, slashes, directory, hmade, -⟩ := makeDirectory_eq_ok h
  obtain ⟨kept, idle, last, rest, hkept, hlast, htext⟩ := Path.exists_segments_of_parent? hparent
  have hsegments := hmade.segments_eq
  have hbefore : before <+: path.segments := by
    rw [hsegments, List.append_assoc]
    exact List.prefix_append _ _
  refine isDirectory_of_prefix hmade.checked_eq ?_ hbefore hmade.followPath_eq hmade.get?_eq hne
    htext
  -- The proper segment after the kept ones is not one of the empty ones at the end.
  rw [hkept] at hsegments
  have hnotMem : last ∉ slashes := fun hmem ↦ hlast (hmade.slashes_eq last hmem)
  obtain ⟨others, hothers, hrest⟩ | ⟨others, -, hrest⟩ := List.append_eq_append_iff.mp hsegments
  · obtain hnil | ⟨others', name', rfl⟩ := List.eq_nil_or_concat' others
    · rw [hnil, List.nil_append] at hrest
      exact absurd (hrest ▸ List.mem_cons_self) hnotMem
    · rw [← List.append_assoc] at hothers
      rw [(List.append_inj' hothers rfl).1, List.append_assoc]
      exact List.prefix_append _ _
  · exact absurd (hrest ▸ List.mem_append_right others List.mem_cons_self) hnotMem

/-- From a directory, segments that stand for nothing lead to it. -/
theorem follow_of_idle {address : Address} {segments : List String}
    (hidle : ∀ segment ∈ segments, segment = "" ∨ segment = ".")
    (h : tree.get? address = some .directory) : tree.follow address segments = .ok address := by
  induction segments with
  | nil => rfl
  | cons segment segments ih =>
    rw [List.forall_mem_cons] at hidle
    exact follow_cons_eq_ok_iff.mpr ⟨h, address, if_pos hidle.1, ih hidle.2⟩

/-- What has been created is a directory. -/
theorem isDirectory_of_makeDirectory (h : tree.makeDirectory path = .ok tree') :
    tree'.isDirectory path = true := by
  obtain ⟨before, name, slashes, directory, hmade, rfl⟩ := makeDirectory_eq_ok h
  have hgrows := grows_put hmade.none .directory
  have hthere : (tree.put (directory ++ [name]) .directory).get? (directory ++ [name]) =
      some .directory := by
    rw [get?_put (isOutside_eq_false_of_get?_eq_none hmade.none), if_pos rfl]
  refine isDirectory_iff.mpr ⟨directory ++ [name], ?_, hthere⟩
  rw [address_eq_ok_iff, hmade.segments_eq, followPath_append_eq_ok_iff (by simp)]
  refine ⟨hmade.checked_eq, directory ++ [name], ?_, ?_⟩
  · rw [followPath_concat_eq_ok_iff (.inr hmade.name_ne)]
    exact ⟨directory, hgrows.followPath_eq hmade.followPath_eq, hgrows _ _ hmade.get?_eq,
      hmade.step_eq⟩
  · exact follow_of_idle (fun segment hsegment ↦ .inl (hmade.slashes_eq segment hsegment)) hthere

/-! ### Creating directories twice -/

theorem makeDirectory_of_isDirectory (h : tree.isDirectory path = true) :
    tree.makeDirectory path = .error .alreadyExists := by
  obtain ⟨directory, haddress, hdirectory⟩ := isDirectory_iff.mp h
  exact makeDirectory_of_directory haddress hdirectory

theorem makeAll_of_isDirectory (h : tree.isDirectory path = true) (above : List Path) :
    tree.makeAll (path :: above) = (tree, none) := by
  rw [makeAll, makeDirectory_of_isDirectory h]
  simp [h]

/-- Creating the directories a second time changes nothing more, and succeeds exactly if the first
time did. -/
def Settles (paths : List Path) : Prop :=
  ∀ tree : Tree, ((tree.makeAll paths).1.makeAll paths).1 = (tree.makeAll paths).1 ∧
    ((tree.makeAll paths).1.makeAll paths).2.isSome = (tree.makeAll paths).2.isSome

/-- Where the directories cannot be created, the path is no directory and cannot become one. -/
def Blocks (above : List Path) (path : Path) : Prop :=
  ∀ tree : Tree, (tree.makeAll above).2.isSome →
    (tree.makeAll above).1.isDirectory path = false ∧
      ∀ made, (tree.makeAll above).1.makeDirectory path ≠ .ok made

/-- How creating a directory and those above it ends. -/
inductive Makes (tree : Tree) (path : Path) (above : List Path) : Tree × Option Fault → Prop
  | made {after : Tree} (hafter : after.isDirectory path = true) :
    Makes tree path above (after, none)
  | refused {fault : Fault} (hnot : tree.isDirectory path = false) :
    Makes tree path above (tree, some fault)
  | stuck {after : Tree} {fault : Fault} (hafter : (tree.makeAll above).1 = after)
    (hnot : after.isDirectory path = false)
    (hrefused : ∀ made, after.makeDirectory path ≠ .ok made) :
    Makes tree path above (after, some fault)

section Makes

variable {above : List Path}

theorem makes_makeAll (hproper : path.components.isEmpty = false) (hblocks : Blocks above path)
    (tree : Tree) : Makes tree path above (tree.makeAll (path :: above)) := by
  rw [makeAll, hproper, if_neg Bool.false_ne_true]
  split
  · rename_i made hmade
    exact .made (isDirectory_of_makeDirectory hmade)
  · have hblocked := hblocks tree
    cases habove : tree.makeAll above with
    | mk between fault =>
      rw [habove] at hblocked
      have hbetween : (tree.makeAll above).1 = between := congrArg Prod.fst habove
      cases fault with
      | some fault =>
        obtain ⟨hnot, hrefused⟩ := hblocked rfl
        exact .stuck hbetween hnot hrefused
      | none =>
        simp only
        split
        · rename_i made hmade
          exact .made (isDirectory_of_makeDirectory hmade)
        · rename_i fault hrefused
          split_ifs with hthere
          · exact .made hthere
          · exact .stuck hbetween (eq_false_of_ne_true hthere) fun made ↦ by simp [hrefused]
  · split_ifs with hthere
    · exact .made hthere
    · exact .refused (eq_false_of_ne_true hthere)

theorem makeAll_of_idle (hidle : path.components.isEmpty = true) (tree : Tree) :
    tree.makeAll (path :: above) = (tree, none) := by
  rw [makeAll, if_pos hidle]

/-- Where the directories could not be created, the path is no directory. -/
theorem isDirectory_eq_false_of_makeAll (hblocks : Blocks above path)
    (h : (tree.makeAll (path :: above)).2.isSome) :
    (tree.makeAll (path :: above)).1.isDirectory path = false := by
  cases hproper : path.components.isEmpty with
  | true =>
    rw [makeAll_of_idle hproper] at h
    cases h
  | false =>
    have hmakes := makes_makeAll hproper hblocks tree
    generalize tree.makeAll (path :: above) = ended at h hmakes ⊢
    cases hmakes with
    | made hafter => cases h
    | refused hnot => exact hnot
    | stuck hafter hnot hrefused => exact hnot

/-- Where nothing more can be created above a path and it cannot be created itself, the attempt
fails and changes nothing. -/
theorem makeAll_of_stuck (hproper : path.components.isEmpty = false)
    (habove : (tree.makeAll above).1 = tree) (hnot : tree.isDirectory path = false)
    (hrefused : ∀ made, tree.makeDirectory path ≠ .ok made) :
    (tree.makeAll (path :: above)).1 = tree ∧ (tree.makeAll (path :: above)).2.isSome := by
  rw [makeAll, hproper, if_neg Bool.false_ne_true]
  split
  · rename_i made hmade
    exact absurd hmade (hrefused made)
  · cases hends : tree.makeAll above with
    | mk between fault =>
      obtain rfl : between = tree := by rw [← habove, hends]
      cases fault with
      | some fault => exact ⟨rfl, rfl⟩
      | none =>
        simp only
        split
        · rename_i made hmade
          exact absurd hmade (hrefused made)
        · rw [if_neg (by simp [hnot])]
          exact ⟨rfl, rfl⟩
  · rw [if_neg (by simp [hnot])]
    exact ⟨rfl, rfl⟩

theorem settles_cons (habove : Settles above) (hblocks : Blocks above path) :
    Settles (path :: above) := by
  intro tree
  cases hproper : path.components.isEmpty with
  | true =>
    rw [makeAll_of_idle hproper, makeAll_of_idle hproper]
    exact ⟨rfl, rfl⟩
  | false =>
    have hmakes := makes_makeAll hproper hblocks tree
    cases hends : tree.makeAll (path :: above) with
    | mk after fault =>
      rw [hends] at hmakes
      cases hmakes with
      | made hafter =>
        rw [makeAll_of_isDirectory hafter]
        exact ⟨rfl, rfl⟩
      | refused hnot =>
        rw [hends]
        exact ⟨rfl, rfl⟩
      | stuck hafter hnot hrefused =>
        have hsame : (after.makeAll above).1 = after := by
          rw [← hafter]
          exact (habove tree).1
        obtain ⟨hagain, hsome⟩ := makeAll_of_stuck hproper hsame hnot hrefused
        exact ⟨hagain, by simp [hsome]⟩

/-- A path is blocked where its parent is. -/
theorem blocks_cons {below : Path} (hblocks : Blocks above path)
    (hparent : below.parent? = some path) : Blocks (path :: above) below := by
  intro tree hsome
  have hnot := isDirectory_eq_false_of_makeAll hblocks hsome
  have hne : path.text ≠ "" := by
    intro hempty
    have hidle : path.components.isEmpty = true := by
      obtain ⟨text⟩ := path
      obtain rfl := hempty
      rfl
    rw [makeAll_of_idle hidle] at hsome
    cases hsome
  refine ⟨eq_false_of_ne_true fun hthere ↦ ?_, fun made hmade ↦ ?_⟩
  · rw [isDirectory_parent hparent hne hthere] at hnot
    cases hnot
  · rw [isDirectory_parent_of_makeDirectory hparent hne hmade] at hnot
    cases hnot

end Makes

theorem blocks_nil (path : Path) : Blocks [] path := by
  intro tree hsome
  cases hsome

theorem settles_nil : Settles [] :=
  fun _ ↦ ⟨rfl, rfl⟩

/-- Creating all the directories on the way to a path can be tried again, and if it fails, what lies
right below the path cannot be created either. -/
theorem settles_ancestors (count : Nat) (path : Path) :
    Settles (ancestors count path) ∧
      ∀ below, below.parent? = some path → Blocks (ancestors count path) below := by
  have halone : ∀ path, Settles [path] ∧ ∀ below : Path, below.parent? = some path →
      Blocks [path] below :=
    fun path ↦ ⟨settles_cons settles_nil (blocks_nil path), fun _ ↦ blocks_cons (blocks_nil path)⟩
  induction count generalizing path with
  | zero => exact halone path
  | succ count ih =>
    rw [ancestors]
    cases hparent : path.parent? with
    | none => exact halone path
    | some parent =>
      obtain ⟨hsettles, hblocks⟩ := ih parent
      have hpath := hblocks path hparent
      exact ⟨settles_cons hsettles hpath, fun _ ↦ blocks_cons hpath⟩

/-! ### The directories above a file -/

/-- Which directories are created above a file depends on its parent only. -/
theorem makeParent_congr (h : path.parent? = path'.parent?) (tree : Tree) :
    tree.makeParent path = tree.makeParent path' := by
  rw [makeParent, makeParent, h]

/-- Creating the directories above a file again changes nothing more, and fails exactly if it has
failed before. -/
theorem makeParent_again (tree : Tree) (path : Path) :
    ((tree.makeParent path).1.makeParent path).1 = (tree.makeParent path).1 ∧
      ((tree.makeParent path).1.makeParent path).2.isSome = (tree.makeParent path).2.isSome := by
  unfold makeParent
  cases path.parent? with
  | none => exact ⟨rfl, rfl⟩
  | some parent =>
    simp only
    split_ifs with hempty
    · exact ⟨rfl, rfl⟩
    · obtain ⟨hsame, hsome⟩ := (settles_ancestors parent.text.length parent).1 tree
      simpa [makeDirectories] using ⟨hsame, hsome⟩

/-! ### Sources after others -/

/-- Two outcomes that differ at most in how the source failed. -/
inductive Creation.Alike : Creation → Creation → Prop
  | refl (creation : Creation) : Alike creation creation
  | failed (failure failure' : Failure) : Alike (.failed failure) (.failed failure')

/-- A source that is not created leaves the directories above it and nothing else. -/
theorem saveNew_of_ne_created {text : String} (h : (tree.saveNew path text).2 ≠ .created) :
    (tree.saveNew path text).1 = (tree.makeParent path).1 := by
  unfold saveNew at h ⊢
  split
  · rename_i hmade
    rw [hmade]
  · rename_i hmade
    rw [hmade] at h ⊢
    split
    · rename_i hwritten
      simp [hwritten] at h
    · rfl
    · rfl

/-- Where the directories above a source have been created, or as many of them as can be, the source
becomes what it would have become without that. -/
theorem saveNew_after (h : path.parent? = path'.parent?) (tree : Tree) (text : String) :
    ((tree.makeParent path').1.saveNew path text).1 = (tree.saveNew path text).1 ∧
      Creation.Alike ((tree.makeParent path').1.saveNew path text).2
        (tree.saveNew path text).2 := by
  obtain ⟨hsame, hsome⟩ := tree.makeParent_again path
  rw [← makeParent_congr h]
  cases hmade : tree.makeParent path with
  | mk after failure =>
    rw [hmade] at hsame hsome
    simp only at hsame hsome
    cases hagain : after.makeParent path with
    | mk after' failure' =>
      rw [hagain] at hsame hsome
      obtain rfl : after' = after := hsame
      cases failure with
      | some failure =>
        obtain ⟨failure', rfl⟩ : ∃ other, failure' = some other :=
          Option.isSome_iff_exists.mp hsome
        simp only [saveNew, hmade, hagain]
        exact ⟨trivial, .failed failure' failure⟩
      | none =>
        obtain rfl : failure' = none := by simpa using hsome
        simp only [saveNew, hmade, hagain]
        exact ⟨trivial, .refl _⟩

end Files.Tree

end CalculatorCatalog
