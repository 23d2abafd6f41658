import CalculatorCatalog.Files.Tree
import Mathlib.Data.List.Infix
import Mathlib.Tactic.SplitIfs

/-!
# What paths lead to

A path is followed name by name, and every directory on the way is there, so all that lies above an
address that has been reached is a directory (`isBelowDirectories_follow`). A path that leads to a
file therefore ends in a name (`exists_namesIn_of_file`), and what can be read under a path can be
written under it, unless the system refuses it (`write_of_file`); conversely a path under which a
file can be written leads to its address (`address_of_fileAddress`).
-/

set_option autoImplicit false
set_option relaxedAutoImplicit false

namespace CalculatorCatalog.Files

open CalculatorCatalog.Text

/-- Both parts of a computation have succeeded if the whole has. -/
theorem bind_eq_ok_iff {ε α β : Type} {first : Except ε α} {next : α → Except ε β} {value : β} :
    (first >>= next) = .ok value ↔ ∃ between, first = .ok between ∧ next between = .ok value := by
  cases first with
  | error fault => simp [bind, Except.bind]
  | ok between => simp [bind, Except.bind]

namespace Tree

variable {tree : Tree}

/-! ### Entries -/

theorem get?_of_isOutside {address : Address} (h : isOutside address = true) :
    tree.get? address = some .directory :=
  if_pos h

theorem isOutside_eq_false_of_get? {address : Address} {content : Content}
    (h : tree.get? address = some (.file content)) : isOutside address = false := by
  by_contra houtside
  rw [get?_of_isOutside (by simpa using houtside)] at h
  cases h

theorem lookup_replace (entries : List (Address × Entry)) (address other : Address)
    (entry : Entry) :
    (entries.map fun old ↦ if old.1 = address then (address, entry) else old).lookup other =
      if other = address ∧ entries.any (·.1 = address) then some entry
      else entries.lookup other := by
  induction entries with
  | nil => simp
  | cons first entries ih =>
    obtain ⟨place, old⟩ := first
    rw [List.map_cons, List.any_cons]
    by_cases hplace : place = address
    · subst hplace
      by_cases hother : other = place
      · subst hother
        simp
      · have hbeq : (other == place) = false := beq_eq_false_iff_ne.mpr hother
        rw [if_pos rfl, List.lookup_cons, List.lookup_cons, hbeq, ih]
        simp [hother]
    · by_cases hother : other = place
      · subst hother
        simp [hplace]
      · have hbeq : (other == place) = false := beq_eq_false_iff_ne.mpr hother
        rw [if_neg hplace, List.lookup_cons, List.lookup_cons, hbeq, ih]
        simp only [hplace, decide_false, Bool.false_or]

/-- An entry that is put somewhere is found there, and all else is found as before. -/
theorem get?_put {address : Address} (h : isOutside address = false) (entry : Entry)
    (other : Address) :
    (tree.put address entry).get? other =
      if other = address then some entry else tree.get? other := by
  unfold get?
  by_cases houtside : isOutside other = true
  · have hother : other ≠ address := by
      rintro rfl
      rw [h] at houtside
      cases houtside
    rw [if_pos houtside, if_pos houtside, if_neg hother]
  · rw [if_neg houtside, if_neg houtside]
    unfold put
    cases hany : tree.entries.any (·.1 = address) with
    | true =>
      rw [if_pos rfl, lookup_replace, hany]
      simp
    | false =>
      have hnone : other = address → tree.entries.lookup other = none := by
        rintro rfl
        rw [List.lookup_eq_none_iff]
        intro old hold
        have hne : old.1 ≠ other := by simpa using List.any_eq_false.mp hany old hold
        exact bne_iff_ne.mpr hne.symm
      rw [if_neg Bool.false_ne_true, List.lookup_append]
      by_cases hother : other = address
      · rw [hnone hother, if_pos hother, hother]
        simp
      · have hbeq : (other == address) = false := beq_eq_false_iff_ne.mpr hother
        rw [if_neg hother, List.lookup_cons, hbeq]
        simp

/-! ### Refusals -/

/-- What is put somewhere does not change where the system refuses writing. -/
@[simp]
theorem refusals_put (tree : Tree) (address : Address) (entry : Entry) :
    (tree.put address entry).refusals = tree.refusals := by
  unfold put
  split <;> rfl

theorem tryPut_of_none {address : Address} (h : tree.refusal? address = none) (entry : Entry) :
    tree.tryPut address entry = .ok (tree.put address entry) := by
  rw [tryPut, h]

theorem tryPut_of_some {address : Address} {refusal : Refusal}
    (h : tree.refusal? address = some refusal) (entry : Entry) :
    tree.tryPut address entry = .error (.refused refusal) := by
  rw [tryPut, h]

theorem tryPut_eq_ok_iff {address : Address} {entry : Entry} {tree' : Tree} :
    tree.tryPut address entry = .ok tree' ↔
      tree.refusal? address = none ∧ tree' = tree.put address entry := by
  cases h : tree.refusal? address with
  | none => simp [tryPut_of_none h, eq_comm]
  | some refusal => simp [tryPut_of_some h]

/-! ### Following segments -/

/-- What one segment does to the address of a directory. -/
def step (address : Address) (segment : String) : Except Fault Address :=
  if segment = "" ∨ segment = "." then .ok address
  else if segment = ".." then .ok (above address)
  else if maxName < byteLength segment.toList then .error .nameTooLong
  else .ok (address ++ [segment])

theorem follow_cons_eq_ok_iff {address reached : Address} {segment : String}
    {segments : List String} :
    tree.follow address (segment :: segments) = .ok reached ↔
      tree.get? address = some .directory ∧
        ∃ next, step address segment = .ok next ∧ tree.follow next segments = .ok reached := by
  rw [follow]
  cases tree.get? address with
  | none => simp
  | some entry =>
    cases entry with
    | file content => simp
    | directory =>
      simp only [step]
      split_ifs <;> simp

theorem follow_append_eq_ok_iff {address reached : Address} {segments segments' : List String} :
    tree.follow address (segments ++ segments') = .ok reached ↔
      ∃ between, tree.follow address segments = .ok between ∧
        tree.follow between segments' = .ok reached := by
  induction segments generalizing address with
  | nil => simp [follow]
  | cons segment segments ih =>
    simp only [List.cons_append, follow_cons_eq_ok_iff, ih]
    constructor
    · rintro ⟨hdirectory, next, hnext, between, hbetween, hreached⟩
      exact ⟨between, ⟨hdirectory, next, hnext, hbetween⟩, hreached⟩
    · rintro ⟨between, ⟨hdirectory, next, hnext, hbetween⟩, hreached⟩
      exact ⟨hdirectory, next, hnext, between, hbetween, hreached⟩

theorem followPath_append_eq_ok_iff {reached : Address} {segments segments' : List String}
    (h : segments ≠ []) :
    tree.followPath (segments ++ segments') = .ok reached ↔
      ∃ between, tree.followPath segments = .ok between ∧
        tree.follow between segments' = .ok reached := by
  obtain ⟨first, rest, rfl⟩ := List.exists_cons_of_ne_nil h
  by_cases hfirst : first = ""
  · subst hfirst
    exact follow_append_eq_ok_iff
  · have hpath : ∀ others, tree.followPath (first :: others) =
        tree.follow [] (first :: others) := by
      intro others
      unfold followPath
      split
      · rename_i heq
        exact absurd (List.cons.inj heq).1 hfirst
      · rfl
    rw [List.cons_append, hpath, hpath, ← List.cons_append]
    exact follow_append_eq_ok_iff

/-! ### Directories on the way -/

/-- Everything above an address is a directory. -/
def IsBelowDirectories (tree : Tree) (address : Address) : Prop :=
  ∀ upper, upper <+: address → upper ≠ address → tree.get? upper = some .directory

/-- The directory above a directory is there. -/
theorem IsBelowDirectories.get?_above {address : Address} (h : tree.IsBelowDirectories address)
    (hdirectory : tree.get? address = some .directory) :
    tree.get? (above address) = some .directory := by
  unfold above
  split_ifs with hroot hdots
  · exact hdirectory
  · refine get?_of_isOutside ?_
    simp [isOutside, hdots]
  · refine h _ (List.dropLast_prefix address) fun heq ↦ hdots ?_
    have hnil : address = [] := by
      by_contra hne
      have hlength := congrArg List.length heq
      rw [List.length_dropLast] at hlength
      have hpositive := List.length_pos_iff.mpr hne
      omega
    rw [hnil]
    rfl

theorem isBelowDirectories_above {address : Address} (h : tree.IsBelowDirectories address) :
    tree.IsBelowDirectories (above address) := by
  intro upper hupper hne
  unfold above at hupper hne
  split_ifs at hupper hne with hroot hdots
  · exact h upper hupper hne
  · refine get?_of_isOutside ?_
    have hupper' : upper.all (· == "..") = true := by
      rw [List.all_eq_true] at hdots ⊢
      intro name hname
      obtain hname | hname := List.mem_append.mp (hupper.subset hname)
      · exact hdots name hname
      · simpa using hname
    simp [isOutside, hupper']
  · refine h upper (hupper.trans (List.dropLast_prefix address)) ?_
    rintro rfl
    exact hne (hupper.eq_of_length_le (by simp))

theorem isBelowDirectories_append {address : Address} (h : tree.IsBelowDirectories address)
    (hdirectory : tree.get? address = some .directory) (name : String) :
    tree.IsBelowDirectories (address ++ [name]) := by
  intro upper hupper hne
  have hupper' := (List.prefix_concat_iff.mp hupper).resolve_left hne
  by_cases heq : upper = address
  · rw [heq, hdirectory]
  · exact h upper hupper' heq

theorem isBelowDirectories_step {address next : Address} {segment : String}
    (haddress : tree.IsBelowDirectories address) (hdirectory : tree.get? address = some .directory)
    (h : step address segment = .ok next) : tree.IsBelowDirectories next := by
  unfold step at h
  split_ifs at h
  · exact Except.ok.inj h ▸ haddress
  · exact Except.ok.inj h ▸ isBelowDirectories_above haddress
  · exact Except.ok.inj h ▸ isBelowDirectories_append haddress hdirectory segment

theorem isBelowDirectories_follow {address reached : Address} {segments : List String}
    (haddress : tree.IsBelowDirectories address)
    (h : tree.follow address segments = .ok reached) : tree.IsBelowDirectories reached := by
  induction segments generalizing address with
  | nil => exact Except.ok.inj h ▸ haddress
  | cons segment segments ih =>
    obtain ⟨hdirectory, next, hnext, hreached⟩ := follow_cons_eq_ok_iff.mp h
    exact ih (isBelowDirectories_step haddress hdirectory hnext) hreached

theorem isBelowDirectories_followPath {reached : Address} {segments : List String}
    (h : tree.followPath segments = .ok reached) : tree.IsBelowDirectories reached := by
  have hempty : tree.IsBelowDirectories [] := fun upper hupper hne ↦
    absurd (List.prefix_nil.mp hupper) hne
  unfold followPath at h
  split at h
  · have hroot : tree.IsBelowDirectories ["/"] :=
      isBelowDirectories_append hempty (get?_of_isOutside rfl) "/"
    exact isBelowDirectories_follow hroot h
  · exact isBelowDirectories_follow hempty h

/-! ### Names in directories -/

/-- A path that ends in a name in a directory that is there, with its segments before the name. -/
structure NamesIn (tree : Tree) (path : Path) (before : List String) (directory : Address)
    (name : String) : Prop where
  checked_eq : checked path = .ok path
  segments_eq : path.segments = before ++ [name]
  name_ne : name ≠ "" ∧ name ≠ "." ∧ name ≠ ".."
  length_le : ¬maxName < byteLength name.toList
  followPath_eq : tree.followPath before = .ok directory
  get?_eq : tree.get? directory = some .directory

theorem eq_of_checked {path path' : Path} (h : checked path = .ok path') : path' = path := by
  unfold checked at h
  split_ifs at h
  exact (Except.ok.inj h).symm

theorem address_eq_ok_iff {path : Path} {reached : Address} :
    tree.address path = .ok reached ↔
      checked path = .ok path ∧ tree.followPath path.segments = .ok reached := by
  rw [address, bind_eq_ok_iff]
  constructor
  · rintro ⟨path', hchecked, hreached⟩
    obtain rfl := eq_of_checked hchecked
    exact ⟨hchecked, hreached⟩
  · rintro ⟨hchecked, hreached⟩
    exact ⟨path, hchecked, hreached⟩

theorem entry_eq_ok_iff {path : Path} {entry : Entry} :
    tree.entry path = .ok entry ↔
      ∃ address, tree.address path = .ok address ∧ tree.get? address = some entry := by
  rw [Tree.entry, bind_eq_ok_iff]
  refine exists_congr fun address ↦ and_congr_right fun _ ↦ ?_
  cases tree.get? address <;> simp

theorem isPresent_iff {path : Path} :
    tree.isPresent path = true ↔
      ∃ address, tree.address path = .ok address ∧ tree.get? address ≠ none := by
  have hentry : tree.isPresent path = true ↔ ∃ entry, tree.entry path = .ok entry := by
    unfold isPresent
    cases tree.entry path <;> simp [Except.toOption]
  simp only [hentry, entry_eq_ok_iff, Option.ne_none_iff_exists']
  constructor
  · rintro ⟨entry, address, haddress, hget⟩
    exact ⟨address, haddress, entry, hget⟩
  · rintro ⟨address, haddress, entry, hget⟩
    exact ⟨entry, address, haddress, hget⟩

theorem isDirectory_iff {path : Path} :
    tree.isDirectory path = true ↔
      ∃ address, tree.address path = .ok address ∧ tree.get? address = some .directory := by
  rw [← entry_eq_ok_iff]
  unfold isDirectory
  cases tree.entry path <;> simp [Except.toOption]

theorem readText_eq_ok_iff {path : Path} {text : String} :
    tree.readText path = .ok text ↔
      ∃ address, tree.address path = .ok address ∧
        tree.get? address = some (.file (.text text)) := by
  rw [← entry_eq_ok_iff, readText, read]
  cases tree.entry path with
  | error fault => simp [bind, Except.bind]
  | ok entry =>
    cases entry with
    | directory => simp [bind, Except.bind]
    | file content => cases content <;> simp [bind, Except.bind]

theorem followPath_concat_eq_ok_iff {segments : List String} {segment : String} {reached : Address}
    (h : segments ≠ [] ∨ segment ≠ "") :
    tree.followPath (segments ++ [segment]) = .ok reached ↔
      ∃ directory, tree.followPath segments = .ok directory ∧
        tree.get? directory = some .directory ∧ step directory segment = .ok reached := by
  have hlast : ∀ directory, tree.follow directory [segment] = .ok reached ↔
      tree.get? directory = some .directory ∧ step directory segment = .ok reached := by
    intro directory
    rw [follow_cons_eq_ok_iff]
    simp [follow]
  by_cases hsegments : segments = []
  · subst hsegments
    have hsegment := h.resolve_left (by simp)
    have hpath : tree.followPath ([] ++ [segment]) = tree.follow [] [segment] := by
      unfold followPath
      split
      · rename_i heq
        exact absurd (List.cons.inj heq).1 hsegment
      · rfl
    rw [hpath, hlast]
    simp [followPath, follow]
  · rw [followPath_append_eq_ok_iff hsegments]
    simp only [hlast]

theorem NamesIn.step_eq {path : Path} {before : List String} {directory : Address} {name : String}
    (h : tree.NamesIn path before directory name) :
    step directory name = .ok (directory ++ [name]) := by
  obtain ⟨hempty, hdot, hdots⟩ := h.name_ne
  rw [step, if_neg (not_or.mpr ⟨hempty, hdot⟩), if_neg hdots, if_neg h.length_le]

/-- The address that the path leads to. -/
theorem NamesIn.address_eq {path : Path} {before : List String} {directory : Address}
    {name : String} (h : tree.NamesIn path before directory name) :
    tree.address path = .ok (directory ++ [name]) := by
  rw [address_eq_ok_iff, h.segments_eq, followPath_concat_eq_ok_iff (.inr h.name_ne.1)]
  exact ⟨h.checked_eq, directory, h.followPath_eq, h.get?_eq, h.step_eq⟩

theorem withoutEndSlashes_concat {segments : List String} {segment : String} (h : segment ≠ "") :
    withoutEndSlashes (segments ++ [segment]) = segments ++ [segment] := by
  have hdrop : (segments ++ [segment]).reverse.dropWhile (· == "") =
      segment :: segments.reverse := by
    rw [List.reverse_append, List.reverse_singleton, List.singleton_append,
      List.dropWhile_cons_of_neg (by simpa using h)]
  rw [withoutEndSlashes, hdrop]
  simp

/-- The address at which a file is written under the path. -/
theorem NamesIn.fileAddress_eq {path : Path} {before : List String} {directory : Address}
    {name : String} (h : tree.NamesIn path before directory name) (fault : Fault) :
    tree.fileAddress path fault = .ok (directory ++ [name]) := by
  obtain ⟨hempty, hdot, hdots⟩ := h.name_ne
  have hat : tree.directoryAt before = .ok directory := by
    simp only [directoryAt, h.followPath_eq, bind, Except.bind, h.get?_eq, pure, Except.pure]
  have htarget : tree.target (before ++ [name]) = .ok (.name directory name) := by
    simp [target, hempty, hdot, hdots, hat, bind, Except.bind, pure, Except.pure]
  have hlast : path.segments.getLast? = some name := by
    rw [h.segments_eq, List.getLast?_concat]
  simp only [fileAddress, h.checked_eq, bind, Except.bind]
  rw [hlast, h.segments_eq, withoutEndSlashes_concat hempty, htarget]
  simp [hempty, addressIn, h.length_le]

/-- A path that leads to a file ends in a name. -/
theorem exists_namesIn_of_file {path : Path} {reached : Address} {content : Content}
    (haddress : tree.address path = .ok reached)
    (hfile : tree.get? reached = some (.file content)) :
    ∃ before directory name, tree.NamesIn path before directory name ∧
      reached = directory ++ [name] := by
  have hnot : tree.get? reached ≠ some .directory := by
    rw [hfile]
    simp
  obtain ⟨hchecked, hreached⟩ := address_eq_ok_iff.mp haddress
  have hne : path.segments ≠ [] := by
    intro hnil
    rw [hnil] at hreached
    cases hreached
    exact hnot (get?_of_isOutside rfl)
  obtain ⟨before, name, hsegments⟩ := (List.eq_nil_or_concat' path.segments).resolve_left hne
  rw [hsegments] at hreached
  have hsome : before ≠ [] ∨ name ≠ "" := by
    by_contra hno
    obtain ⟨rfl, rfl⟩ : before = [] ∧ name = "" := by simpa using hno
    cases hreached
    exact hnot (get?_of_isOutside rfl)
  obtain ⟨directory, hbefore, hdirectory, hstep⟩ :=
    (followPath_concat_eq_ok_iff hsome).mp hreached
  unfold step at hstep
  split_ifs at hstep with hidle hdots hlength
  · exact absurd (Except.ok.inj hstep ▸ hdirectory) hnot
  · have habove := (isBelowDirectories_followPath hbefore).get?_above hdirectory
    exact absurd (Except.ok.inj hstep ▸ habove) hnot
  · rw [not_or] at hidle
    exact ⟨before, directory, name, ⟨hchecked, hsegments, ⟨hidle.1, hidle.2, hdots⟩, hlength,
      hbefore, hdirectory⟩, (Except.ok.inj hstep).symm⟩

/-- Why what a path leads to cannot be written, if the system refuses it. -/
def refusalAt? (tree : Tree) (path : Path) : Option Refusal :=
  match tree.address path with
  | .ok reached => tree.refusal? reached
  | .error _ => none

theorem refusalAt?_of_address {path : Path} {reached : Address}
    (h : tree.address path = .ok reached) : tree.refusalAt? path = tree.refusal? reached := by
  rw [refusalAt?, h]

/-- What can be read under a path can be written under it, in its place, as far as the system lets
it be. -/
theorem write_of_file {path : Path} {reached : Address} {old : Content}
    (haddress : tree.address path = .ok reached) (hfile : tree.get? reached = some (.file old))
    (content : Content) : tree.write path content = tree.tryPut reached (.file content) := by
  obtain ⟨before, directory, name, hnames, rfl⟩ := exists_namesIn_of_file haddress hfile
  simp only [write, hnames.fileAddress_eq, bind, Except.bind, hfile]

theorem directoryAt_eq_ok_iff {segments : List String} {reached : Address} :
    tree.directoryAt segments = .ok reached ↔
      tree.followPath segments = .ok reached ∧ tree.get? reached = some .directory := by
  rw [directoryAt, bind_eq_ok_iff]
  constructor
  · rintro ⟨address, haddress, h⟩
    cases hentry : tree.get? address with
    | none =>
      rw [hentry] at h
      cases h
    | some entry =>
      rw [hentry] at h
      cases entry with
      | file content => cases h
      | directory =>
        obtain rfl := Except.ok.inj h
        exact ⟨haddress, hentry⟩
  · rintro ⟨haddress, hentry⟩
    refine ⟨reached, haddress, ?_⟩
    rw [hentry]
    rfl

/-- A name is asked for where the last segment is one and the others lead to a directory. -/
theorem exists_concat_of_target {segments : List String} {directory : Address} {name : String}
    (h : tree.target segments = .ok (.name directory name)) :
    ∃ before, segments = before ++ [name] ∧ (name ≠ "" ∧ name ≠ "." ∧ name ≠ "..") ∧
      tree.followPath before = .ok directory ∧ tree.get? directory = some .directory := by
  unfold target at h
  split at h
  · cases h
  · rename_i last hlast
    obtain ⟨before, rfl⟩ := List.getLast?_eq_some_iff.mp hlast
    split_ifs at h with hspecial
    · obtain ⟨_, -, h⟩ := bind_eq_ok_iff.mp h
      cases h
    · obtain ⟨directory', hdirectory, h⟩ := bind_eq_ok_iff.mp h
      cases h
      rw [List.dropLast_concat] at hdirectory
      obtain ⟨hreached, hentry⟩ := directoryAt_eq_ok_iff.mp hdirectory
      simp only [not_or] at hspecial
      exact ⟨before, rfl, hspecial, hreached, hentry⟩

/-- A path under which a file can be written leads to the address of that file. -/
theorem address_of_fileAddress {path : Path} {reached : Address} {fault : Fault}
    (h : tree.fileAddress path fault = .ok reached) : tree.address path = .ok reached := by
  rw [fileAddress, bind_eq_ok_iff] at h
  obtain ⟨path', hchecked, h⟩ := h
  obtain rfl := eq_of_checked hchecked
  rw [bind_eq_ok_iff] at h
  obtain ⟨target, htarget, h⟩ := h
  cases target with
  | present => cases h
  | name directory name =>
    simp only at h
    split_ifs at h with hslash
    obtain ⟨before, hsegments, hname, hbefore, hdirectory⟩ := exists_concat_of_target htarget
    have hsame : withoutEndSlashes path'.segments = path'.segments := by
      obtain hnil | ⟨others, last, hothers⟩ := List.eq_nil_or_concat' path'.segments
      · rw [hnil] at hsegments
        have hlast := congrArg List.getLast? hsegments
        rw [List.getLast?_concat] at hlast
        exact absurd (Option.some.inj hlast).symm hname.1
      · rw [hothers] at hslash ⊢
        refine withoutEndSlashes_concat fun hlast ↦ hslash ?_
        rw [hlast, List.getLast?_concat]
    unfold addressIn at h
    split_ifs at h with hlength
    obtain rfl := Except.ok.inj h
    exact NamesIn.address_eq
      ⟨hchecked, hsame ▸ hsegments, hname, hlength, hbefore, hdirectory⟩

end Tree

end CalculatorCatalog.Files
