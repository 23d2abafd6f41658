import CalculatorCatalog.Files.Output
import CalculatorCatalog.Proofs.Files.Addresses
import Mathlib.Data.List.TakeWhile

/-!
# The directory above a file

The segments of a path are its text between slashes, and joining them with slashes gives the text
back (`text_eq_intercalate`, `segments_intercalate`). The path of the parent of a file leads to the
directory that the file is in (`NamesIn.address_parent?`). Creating that directory has nothing to do
(`NamesIn.makeParent_eq`), so a file that is there is saved by putting the new text in its place
(`save_of_file`), if the system does not refuse it (`save_of_refusal`).
-/

set_option autoImplicit false
set_option relaxedAutoImplicit false

namespace CalculatorCatalog

open CalculatorCatalog.Text CalculatorCatalog.Files

namespace Path

/-! ### Segments -/

theorem splitSlashes_eq_splitOn (text : List Char) : splitSlashes text = text.splitOn '/' := by
  induction text with
  | nil => rfl
  | cons c text ih =>
    rw [splitSlashes, ih, List.splitOn_cons_eq_if_modifyHead]
    by_cases hslash : c = '/'
    · simp [hslash]
    · obtain ⟨segment, segments, hsegments⟩ :=
        List.exists_cons_of_ne_nil (List.splitOn_ne_nil '/' text)
      simp [hsegments, hslash]

/-- Joining the segments of a path gives its text back. -/
theorem text_eq_intercalate (path : Path) : path.text = "/".intercalate path.segments := by
  have htoList : path.segments.map String.toList = path.text.toList.splitOn '/' := by
    rw [segments, splitSlashes_eq_splitOn, List.map_map]
    simp [Function.comp_def]
  rw [← String.toList_inj, String.toList_intercalate, htoList]
  exact (List.intercalate_splitOn '/').symm

theorem slash_notMem_splitSlashes {text : List Char} :
    ∀ segment ∈ splitSlashes text, '/' ∉ segment := by
  induction text with
  | nil => simp [splitSlashes]
  | cons c text ih =>
    rw [splitSlashes]
    split_ifs with hslash
    · simpa using ih
    · split
      · simpa using Ne.symm hslash
      · rename_i segment segments hsegments
        rw [hsegments, List.forall_mem_cons] at ih
        refine List.forall_mem_cons.mpr ⟨?_, ih.2⟩
        simpa [Ne.symm hslash] using ih.1

theorem slash_notMem_segments {path : Path} : ∀ segment ∈ path.segments, '/' ∉ segment.toList := by
  intro segment hsegment
  obtain ⟨characters, hcharacters, rfl⟩ := List.mem_map.mp hsegment
  rw [String.toList_ofList]
  exact slash_notMem_splitSlashes characters hcharacters

/-- Segments without slashes are the segments of their join. -/
theorem segments_intercalate {segments : List String} (hne : segments ≠ [])
    (hslash : ∀ segment ∈ segments, '/' ∉ segment.toList) :
    (Path.mk ("/".intercalate segments)).segments = segments := by
  have hsplit : ("/".intercalate segments).toList.splitOn '/' = segments.map String.toList := by
    rw [String.toList_intercalate]
    exact List.splitOn_intercalate '/' (by simpa using hslash) (by simpa using hne)
  rw [Path.segments, splitSlashes_eq_splitOn, hsplit, List.map_map]
  simp [Function.comp_def]

/-- The text of some segments is what the text of these and further ones begins with. -/
theorem intercalate_isPrefix {segments : List String} (hne : segments ≠ []) (others : List String) :
    ("/".intercalate segments).toList <+: ("/".intercalate (segments ++ others)).toList := by
  rw [String.toList_intercalate, String.toList_intercalate, List.map_append]
  induction segments with
  | nil => exact absurd rfl hne
  | cons first segments ih =>
    cases segments with
    | nil =>
      cases others with
      | nil => simp
      | cons other others => simp [List.intercalate_cons_cons, List.append_assoc]
    | cons second segments =>
      simp only [List.map_cons, List.cons_append, List.intercalate_cons_cons] at ih ⊢
      rw [List.prefix_append_right_inj]
      exact ih (by simp)

/-! ### Parents -/

theorem eq_empty_or_dot_of_innerComponent {segment : String} (h : innerComponent segment = none) :
    segment = "" ∨ segment = "." := by
  unfold innerComponent at h
  split_ifs at h with hidle
  exact hidle

theorem innerComponent_ne_root (segment : String) : innerComponent segment ≠ some .root := by
  unfold innerComponent
  split_ifs <;> simp

theorem eq_empty_or_dot_of_firstComponent {segment : String}
    (h : firstComponent false segment = none) : segment = "" ∨ segment = "." := by
  unfold firstComponent at h
  split_ifs at h with hempty
  · exact .inl hempty
  · exact eq_empty_or_dot_of_innerComponent h

theorem eq_empty_of_firstComponent {segment : String}
    (h : firstComponent false segment = some .root) : segment = "" := by
  unfold firstComponent at h
  split_ifs at h with hempty hdot
  · exact hempty
  · simp at h
  · exact absurd h (innerComponent_ne_root segment)

theorem innerComponent_of_name {name : String} (h : name ≠ "" ∧ name ≠ "." ∧ name ≠ "..") :
    innerComponent name = some (.name name) := by
  rw [innerComponent, if_neg (not_or.mpr ⟨h.1, h.2.1⟩), if_neg h.2.2]

/-- The segments of a path that ends in a name, with their components. -/
theorem exists_tagged_concat {path : Path} {before : List String} {name : String}
    (hsegments : path.segments = before ++ [name]) (hname : name ≠ "" ∧ name ≠ "." ∧ name ≠ "..") :
    ∃ tags : List (String × Option Component),
      path.tagged = tags ++ [(name, some (.name name))] ∧ tags.map (·.1) = before ∧
        ∀ tag ∈ tags,
          (tag.2 = none → tag.1 = "" ∨ tag.1 = ".") ∧ (tag.2 = some .root → tag.1 = "") := by
  have hinner := innerComponent_of_name hname
  cases before with
  | nil =>
    refine ⟨[], ?_, rfl, by simp⟩
    rw [tagged, hsegments]
    simp [firstComponent, hname, hinner]
  | cons first before =>
    refine ⟨(first, firstComponent false first) ::
      before.map fun segment ↦ (segment, innerComponent segment), ?_, ?_, ?_⟩
    · have halone : (before ++ [name]).isEmpty = false := by simp
      rw [tagged, hsegments]
      simp only [List.cons_append, halone, List.map_append, List.map_cons, List.map_nil, hinner]
    · simp [Function.comp_def]
    · rw [List.forall_mem_cons]
      refine ⟨⟨eq_empty_or_dot_of_firstComponent, eq_empty_of_firstComponent⟩, ?_⟩
      intro tag htag
      obtain ⟨segment, -, rfl⟩ := List.mem_map.mp htag
      exact ⟨eq_empty_or_dot_of_innerComponent,
        fun hroot ↦ absurd hroot (innerComponent_ne_root segment)⟩

/-- The parent of a path that ends in a name: the segments before the name without those at their
end that stand for nothing. The root is written with a slash. -/
theorem parent?_of_segments {path : Path} {before : List String} {name : String}
    (hsegments : path.segments = before ++ [name]) (hname : name ≠ "" ∧ name ≠ "." ∧ name ≠ "..") :
    ∃ kept idle parent, path.parent? = some parent ∧ before = kept ++ idle ∧
      (∀ segment ∈ idle, segment = "" ∨ segment = ".") ∧
      (parent.text = "/" ∧ kept = [""] ∨ parent.text = "/".intercalate kept) := by
  obtain ⟨tags, htagged, hbefore, htags⟩ := exists_tagged_concat hsegments hname
  have hsplit : tags = (dropIdle tags.reverse).reverse ++
      (tags.reverse.takeWhile (·.2.isNone)).reverse := by
    rw [← List.reverse_append, dropIdle, List.takeWhile_append_dropWhile, List.reverse_reverse]
  refine ⟨(dropIdle tags.reverse).reverse.map (·.1),
    (tags.reverse.takeWhile (·.2.isNone)).reverse.map (·.1),
    ofTagged (dropIdle tags.reverse).reverse, ?_, ?_, ?_, ?_⟩
  · rw [parent?, htagged, List.reverse_append, List.reverse_singleton, List.singleton_append,
      dropIdle, List.dropWhile_cons_of_neg (by simp)]
  · rw [← hbefore, ← List.map_append, ← hsplit]
  · intro segment hsegment
    obtain ⟨tag, htag, rfl⟩ := List.mem_map.mp hsegment
    rw [List.mem_reverse] at htag
    have hmem : tag ∈ tags := List.mem_reverse.mp ((List.takeWhile_prefix _).subset htag)
    exact (htags tag hmem).1 (by simpa using List.mem_takeWhile_imp htag)
  · cases hkept : (dropIdle tags.reverse).reverse with
    | nil => exact .inr rfl
    | cons first rest =>
      have hmem : first ∈ tags := by
        rw [hsplit, hkept]
        exact List.mem_append_left _ List.mem_cons_self
      unfold ofTagged
      split
      · rename_i segment heq
        obtain ⟨rfl, rfl⟩ := List.cons.inj heq
        exact .inl ⟨rfl, by simpa using (htags _ hmem).2 rfl⟩
      · exact .inr rfl

end Path

namespace Files.Tree

variable {tree : Tree}

/-! ### Creating what is there -/

/-- Segments that stand for nothing do not lead anywhere else. -/
theorem eq_of_follow_idle {address reached : Address} {segments : List String}
    (hidle : ∀ segment ∈ segments, segment = "" ∨ segment = ".")
    (h : tree.follow address segments = .ok reached) : reached = address := by
  induction segments generalizing address with
  | nil => exact (Except.ok.inj h).symm
  | cons segment segments ih =>
    rw [List.forall_mem_cons] at hidle
    obtain ⟨-, next, hnext, hreached⟩ := follow_cons_eq_ok_iff.mp h
    rw [step, if_pos hidle.1] at hnext
    obtain rfl := Except.ok.inj hnext
    exact ih hidle.2 hreached

/-- What a checked path begins with can be checked as well, unless it is empty. -/
theorem checked_of_isPrefix {path path' : Path} (h : checked path = .ok path)
    (hne : path'.text ≠ "") (hbegins : path'.text.toList <+: path.text.toList) :
    checked path' = .ok path' := by
  unfold checked at h ⊢
  split_ifs at h with hnul hempty hlong
  obtain ⟨rest, hrest⟩ := hbegins
  have hlength : byteLength path.text.toList =
      byteLength path'.text.toList + byteLength rest := by
    rw [← hrest, byteLength_append]
  have hnul' : ¬(path'.text.toList.contains '\x00') = true := by
    rw [List.contains_iff_mem] at hnul ⊢
    exact fun hmem ↦ hnul (hrest ▸ List.mem_append_left rest hmem)
  rw [if_neg hnul', if_neg hne, if_neg (by omega)]

theorem address_root : tree.address ⟨"/"⟩ = .ok ["/"] := by
  have hsegments : (Path.mk "/").segments = ["", ""] := by decide
  have hfollow : tree.follow ["/"] [""] = .ok ["/"] :=
    follow_cons_eq_ok_iff.mpr ⟨get?_of_isOutside rfl, ["/"], rfl, rfl⟩
  rw [address_eq_ok_iff, hsegments]
  exact ⟨by decide, hfollow⟩

/-- A path that is written with the first segments of another one leads where these lead. -/
theorem address_of_segments {path parent : Path} {kept others : List String} {between : Address}
    (hchecked : checked path = .ok path) (hsegments : path.segments = kept ++ others)
    (hreached : tree.followPath kept = .ok between) (hne : parent.text ≠ "")
    (htext : parent.text = "/" ∧ kept = [""] ∨ parent.text = "/".intercalate kept) :
    tree.address parent = .ok between := by
  obtain ⟨htext, rfl⟩ | htext := htext
  · obtain rfl := Except.ok.inj hreached
    obtain ⟨text⟩ := parent
    subst htext
    exact address_root
  · have hkept : kept ≠ [] := by
      rintro rfl
      exact hne htext
    have hslash : ∀ segment ∈ kept, '/' ∉ segment.toList := by
      intro segment hsegment
      refine Path.slash_notMem_segments segment (?_ : segment ∈ path.segments)
      rw [hsegments]
      exact List.mem_append_left _ hsegment
    have hparent : parent.segments = kept := by
      obtain ⟨text⟩ := parent
      subst htext
      exact Path.segments_intercalate hkept hslash
    rw [address_eq_ok_iff, hparent]
    refine ⟨checked_of_isPrefix hchecked hne ?_, hreached⟩
    rw [htext, path.text_eq_intercalate, hsegments]
    exact Path.intercalate_isPrefix hkept _

/-- The parent of a path that ends in a name leads to the directory that the name is in. -/
theorem NamesIn.address_parent? {path : Path} {before : List String} {directory : Address}
    {name : String} (h : tree.NamesIn path before directory name) :
    ∃ parent, path.parent? = some parent ∧
      (parent.text = "" ∨ tree.address parent = .ok directory) := by
  obtain ⟨kept, idle, parent, hparent, rfl, hidle, htext⟩ :=
    Path.parent?_of_segments h.segments_eq h.name_ne
  refine ⟨parent, hparent, ?_⟩
  by_cases hempty : parent.text = ""
  · exact .inl hempty
  have hkept : kept ≠ [] := by
    rintro rfl
    obtain ⟨-, hkept⟩ | htext := htext
    · cases hkept
    · exact hempty htext
  obtain ⟨between, hbetween, hdirectory⟩ :=
    (followPath_append_eq_ok_iff hkept).mp h.followPath_eq
  obtain rfl := eq_of_follow_idle hidle hdirectory
  have hsegments := h.segments_eq
  rw [List.append_assoc] at hsegments
  exact .inr (address_of_segments h.checked_eq hsegments hbetween hempty htext)

/-- The segments of a path end in one that is not empty, with slashes after it, or are all empty. -/
theorem withoutEndSlashes_cases (segments : List String) :
    (∃ before last slashes, withoutEndSlashes segments = before ++ [last] ∧ last ≠ "" ∧
      segments = before ++ [last] ++ slashes ∧ ∀ segment ∈ slashes, segment = "") ∨
    withoutEndSlashes segments = [""] := by
  have hsplit := List.takeWhile_append_dropWhile (p := (· == "")) (l := segments.reverse)
  unfold withoutEndSlashes
  split
  · exact .inr rfl
  · rename_i rest hne
    cases hdrop : segments.reverse.dropWhile (· == "") with
    | nil => exact absurd hdrop hne
    | cons last before =>
      have hlast : last ≠ "" := by
        have hhead := List.head?_dropWhile_not (· == "") segments.reverse
        rw [hdrop] at hhead
        simpa using hhead
      refine .inl ⟨before.reverse, last, (segments.reverse.takeWhile (· == "")).reverse,
        List.reverse_cons, hlast, ?_, ?_⟩
      · rw [← List.reverse_cons, ← List.reverse_append, ← hdrop, hsplit, List.reverse_reverse]
      · intro segment hsegment
        simpa using List.mem_takeWhile_imp (List.mem_reverse.mp hsegment)

/-- Where segments that end in a proper one lead to a directory, they ask for that directory. -/
theorem target_of_directory {before : List String} {last : String} (hlast : last ≠ "")
    {directory : Address} (hreached : tree.followPath (before ++ [last]) = .ok directory)
    (hdirectory : tree.get? directory = some .directory) :
    tree.target (before ++ [last]) = .ok .present ∨
      ∃ upper, tree.target (before ++ [last]) = .ok (.name upper last) ∧
        addressIn upper last = .ok directory := by
  obtain ⟨upper, hbefore, hupper, hstep⟩ :=
    (followPath_concat_eq_ok_iff (.inr hlast)).mp hreached
  by_cases hspecial : last = "" ∨ last = "." ∨ last = ".."
  · have hat := directoryAt_eq_ok_iff.mpr ⟨hreached, hdirectory⟩
    refine .inl ?_
    simp only [target, List.getLast?_concat, hspecial, if_true, hat, bind, Except.bind, pure,
      Except.pure]
  · have hat := directoryAt_eq_ok_iff.mpr ⟨hbefore, hupper⟩
    refine .inr ⟨upper, ?_, ?_⟩
    · simp only [target, List.getLast?_concat, hspecial, if_false, List.dropLast_concat, hat, bind,
        Except.bind, pure, Except.pure]
    · simp only [not_or] at hspecial
      unfold step at hstep
      rw [if_neg (not_or.mpr ⟨hspecial.1, hspecial.2.1⟩), if_neg hspecial.2.2] at hstep
      exact hstep

/-- A directory that is there cannot be created, for that reason. -/
theorem makeDirectory_of_directory {path : Path} {directory : Address}
    (haddress : tree.address path = .ok directory)
    (hdirectory : tree.get? directory = some .directory) :
    tree.makeDirectory path = .error .alreadyExists := by
  obtain ⟨hchecked, hreached⟩ := address_eq_ok_iff.mp haddress
  have htarget : tree.target (withoutEndSlashes path.segments) = .ok .present ∨
      ∃ upper last, tree.target (withoutEndSlashes path.segments) = .ok (.name upper last) ∧
        addressIn upper last = .ok directory := by
    obtain ⟨before, last, slashes, hwithout, hlast, hsegments, hslashes⟩ | hroot :=
      withoutEndSlashes_cases path.segments
    · rw [hsegments, followPath_append_eq_ok_iff (by simp)] at hreached
      obtain ⟨between, hbetween, hslashed⟩ := hreached
      obtain rfl := eq_of_follow_idle (fun segment hsegment ↦ .inl (hslashes segment hsegment))
        hslashed
      rw [hwithout]
      exact (target_of_directory hlast hbetween hdirectory).imp_right
        fun ⟨upper, htarget⟩ ↦ ⟨upper, last, htarget⟩
    · rw [hroot]
      refine .inl ?_
      have hat : tree.directoryAt [""] = .ok ["/"] :=
        directoryAt_eq_ok_iff.mpr ⟨rfl, get?_of_isOutside rfl⟩
      simp only [target, List.getLast?_singleton, true_or, if_true, hat, bind, Except.bind, pure,
        Except.pure]
  obtain htarget | ⟨upper, last, htarget, hlast⟩ := htarget
  · simp only [makeDirectory, hchecked, bind, Except.bind, htarget]
  · simp only [makeDirectory, hchecked, bind, Except.bind, htarget, hlast, hdirectory]

/-- Creating a directory that is there, with all above it, does nothing. -/
theorem makeDirectories_of_directory {path : Path} {directory : Address}
    (haddress : tree.address path = .ok directory)
    (hdirectory : tree.get? directory = some .directory) :
    tree.makeDirectories path = (tree, none) := by
  have hpresent : tree.isDirectory path = true :=
    isDirectory_iff.mpr ⟨directory, haddress, hdirectory⟩
  have hmake : ∀ above, tree.makeAll (path :: above) = (tree, none) := by
    intro above
    rw [makeAll, makeDirectory_of_directory haddress hdirectory]
    simp [hpresent]
  unfold makeDirectories
  cases path.text.length with
  | zero => exact hmake []
  | succ count =>
    rw [ancestors]
    cases path.parent? with
    | none => exact hmake []
    | some parent => exact hmake _

/-- There is nothing to create above a file that is there. -/
theorem NamesIn.makeParent_eq {path : Path} {before : List String} {directory : Address}
    {name : String} (h : tree.NamesIn path before directory name) :
    tree.makeParent path = (tree, none) := by
  obtain ⟨parent, hparent, haddress⟩ := h.address_parent?
  rw [makeParent, hparent]
  simp only
  split_ifs with hempty
  · rfl
  · rw [makeDirectories_of_directory (haddress.resolve_left hempty) h.get?_eq]
    rfl

/-- A file that is there is saved by putting its new text in its place, unless the system refuses
it. -/
theorem save_of_file {path : Path} {reached : Address} {old : Content}
    (haddress : tree.address path = .ok reached) (hfile : tree.get? reached = some (.file old))
    (hopen : tree.refusal? reached = none) (action : Action) (text : String) :
    tree.save action path text = (tree.put reached (.file (.text text)), none) := by
  have hwrite : tree.writeText path text = .ok (tree.put reached (.file (.text text))) :=
    (write_of_file haddress hfile (.text text)).trans (tryPut_of_none hopen _)
  obtain ⟨before, directory, name, hnames, -⟩ := exists_namesIn_of_file haddress hfile
  rw [save, hnames.makeParent_eq]
  simp only [hwrite]

/-- Where the system refuses it, a file that is there is not saved. -/
theorem save_of_refusal {path : Path} {reached : Address} {old : Content} {refusal : Refusal}
    (haddress : tree.address path = .ok reached) (hfile : tree.get? reached = some (.file old))
    (hrefused : tree.refusal? reached = some refusal) (action : Action) (text : String) :
    tree.save action path text = (tree, some ⟨action, path, .refused refusal⟩) := by
  have hwrite : tree.writeText path text = .error (.refused refusal) :=
    (write_of_file haddress hfile (.text text)).trans (tryPut_of_some hrefused _)
  obtain ⟨before, directory, name, hnames, -⟩ := exists_namesIn_of_file haddress hfile
  rw [save, hnames.makeParent_eq]
  simp only [hwrite]

end Files.Tree

end CalculatorCatalog
