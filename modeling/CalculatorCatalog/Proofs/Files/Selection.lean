import CalculatorCatalog.Config.Basic
import CalculatorCatalog.Proofs.Files.Tidy

/-!
# What a selection holds

Two things are asked of a selection: that no two of its paths lead to the same file, and that none
of its files is meant by an ignore. Whether they hold depends on how the files are spelt.

Repeats are left out by components, and one file can be found with and without a leading dot, by the
path of an inclusion and by pattern. `selectsApart_iff` says that this is the only way in which one
file can be selected twice, as long as double dots stand first.

An ignore without wildcards takes away what begins with its components, and so it has no effect on
files that are spelt without a dot if it begins with one, as all of them do that follow the working
directory. An ignore with wildcards is compared with the whole text, the path of the base included.
`sparesIgnored_iff` says which ignores are nevertheless heeded.
-/

set_option autoImplicit false
set_option relaxedAutoImplicit false

namespace CalculatorCatalog.Files

open CalculatorCatalog.Path

variable {tree : Tree} {base : Path} {includes ignores : List String}

/-- What is selected has been found. -/
theorem mem_foundBy_of_mem_keptBy {path : Path} {inclusion : String}
    (h : path ∈ keptBy tree base ignores inclusion) : path ∈ foundBy tree base inclusion :=
  (List.mem_filter.mp h).1

theorem mem_keptBy_iff {path : Path} {inclusion : String} :
    path ∈ keptBy tree base ignores inclusion ↔
      path ∈ foundBy tree base inclusion ∧
        ∀ ignore ∈ ignores, isIgnoredBy base path ignore = false := by
  simp [keptBy, List.mem_filter]

/-! ### Selected twice -/

/-- No two selected paths lead to the same place. -/
def SelectsApart (tree : Tree) (base : Path) (includes ignores : List String) : Prop :=
  ((select tree base includes ignores).files.map Program.addressOf).Nodup

/-- Paths that have been kept and lead to the same place have the same components, if no two
selected paths lead to the same place. -/
theorem SelectsApart.components_eq (h : SelectsApart tree base includes ignores)
    {first second : String} (hfirst : first ∈ includes) (hsecond : second ∈ includes)
    {path path' : Path} (hpath : path ∈ keptBy tree base ignores first)
    (hpath' : path' ∈ keptBy tree base ignores second)
    (hplace : Program.addressOf path = Program.addressOf path') :
    path.components = path'.components := by
  obtain ⟨selected, hselected, heq⟩ := exists_mem_files_select hfirst hpath
  obtain ⟨selected', hselected', heq'⟩ := exists_mem_files_select hsecond hpath'
  have hsame : Program.addressOf selected = Program.addressOf selected' := by
    rw [addressOf_eq_foldl_components, heq, addressOf_eq_foldl_components selected', heq']
    exact hplace
  rw [← heq, ← heq', List.inj_on_of_nodup_map h hselected hselected' hsame]

theorem selectsApart_iff_components_eq (tree : Tree) (base : Path)
    (includes ignores : List String) :
    SelectsApart tree base includes ignores ↔
      ∀ first ∈ includes, ∀ second ∈ includes, ∀ path ∈ keptBy tree base ignores first,
        ∀ path' ∈ keptBy tree base ignores second,
          Program.addressOf path = Program.addressOf path' →
            path.components = path'.components := by
  constructor
  · intro h first hfirst second hsecond path hpath path' hpath'
    exact h.components_eq hfirst hsecond hpath hpath'
  · intro h
    refine List.pairwise_map.mpr ?_
    refine (pairwise_files_select tree base includes ignores).imp_of_mem ?_
    intro path path' hpath hpath' hne hplace
    obtain ⟨first, hfirst, hkept⟩ := exists_mem_keptBy hpath
    obtain ⟨second, hsecond, hkept'⟩ := exists_mem_keptBy hpath'
    exact hne (h first hfirst second hsecond path hkept path' hkept' hplace)

/-- Paths under which two inclusions find the same file have the same components exactly if both
inclusions find files with a leading dot or neither does. -/
theorem components_eq_iff_findsDotted (hproper : tree.IsProper) {first second : String}
    (hfirst : IsPlainInclusion base first) (hsecond : IsPlainInclusion base second)
    {path path' : Path} (hpath : path ∈ keptBy tree base ignores first)
    (hpath' : path' ∈ keptBy tree base ignores second)
    (hplace : Program.addressOf path = Program.addressOf path') :
    path.components = path'.components ↔ (FindsDotted base first ↔ FindsDotted base second) := by
  obtain ⟨hstraight, hdots⟩ :=
    isStraight_and_isDotted_iff hproper hfirst (mem_foundBy_of_mem_keptBy hpath)
  obtain ⟨hstraight', hdots'⟩ :=
    isStraight_and_isDotted_iff hproper hsecond (mem_foundBy_of_mem_keptBy hpath')
  rw [components_eq_iff hstraight hstraight', hdots, hdots', and_iff_right hplace]

/-- No two selected paths lead to the same place exactly if kept paths that do are spelt with the
same components.

If the entries of the tree have names, every selected path leads to a file. If moreover the double
dots of every inclusion stand first, kept paths that lead to the same place can only differ in a
leading dot: then no two selected paths lead to the same place exactly if no file is kept both
through an inclusion that begins with a dot and has no wildcards and through one that has wildcards
or does not begin with a dot. -/
theorem selectsApart_iff (tree : Tree) (base : Path) (includes ignores : List String) :
    (SelectsApart tree base includes ignores ↔
      ∀ first ∈ includes, ∀ second ∈ includes, ∀ path ∈ keptBy tree base ignores first,
        ∀ path' ∈ keptBy tree base ignores second,
          Program.addressOf path = Program.addressOf path' → path.components = path'.components) ∧
    (tree.IsProper →
      (∀ path ∈ (select tree base includes ignores).files,
        ∃ content, (Program.addressOf path, .file content) ∈ tree.entries) ∧
      ((∀ inclusion ∈ includes, IsPlainInclusion base inclusion) →
        (SelectsApart tree base includes ignores ↔
          ∀ first ∈ includes, ∀ second ∈ includes,
            FindsDotted base first → ¬FindsDotted base second →
            ∀ path ∈ keptBy tree base ignores first, ∀ path' ∈ keptBy tree base ignores second,
              Program.addressOf path ≠ Program.addressOf path'))) := by
  refine ⟨selectsApart_iff_components_eq tree base includes ignores, fun hproper ↦
    ⟨fun path hpath ↦ ?_, fun hplain ↦ ?_⟩⟩
  · obtain ⟨inclusion, -, hkept⟩ := exists_mem_keptBy hpath
    obtain ⟨root, -, names, -, -, hfile⟩ :=
      Tree.exists_of_mem_foundBy hproper (mem_foundBy_of_mem_keptBy hkept)
    exact hfile
  · rw [selectsApart_iff_components_eq]
    constructor
    · intro h first hfirst second hsecond hdotted hdotless path hpath path' hpath' hplace
      have heq := h first hfirst second hsecond path hpath path' hpath' hplace
      rw [components_eq_iff_findsDotted hproper (hplain first hfirst) (hplain second hsecond) hpath
        hpath' hplace] at heq
      exact hdotless (heq.mp hdotted)
    · intro h first hfirst second hsecond path hpath path' hpath' hplace
      rw [components_eq_iff_findsDotted hproper (hplain first hfirst) (hplain second hsecond) hpath
        hpath' hplace]
      constructor
      · intro hdotted
        by_contra hdotless
        exact h first hfirst second hsecond hdotted hdotless path hpath path' hpath' hplace
      · intro hdotted
        by_contra hdotless
        exact h second hsecond first hfirst hdotted hdotless path' hpath' path hpath hplace.symm

/-- A directory with one file in it. -/
def libTree : Tree := ⟨[(["lib"], .directory), (["lib", "a.dart"], .file (.text ""))], []⟩

theorem isProper_libTree : libTree.IsProper := by
  have hlib : IsName "lib" := ⟨by decide, by decide⟩
  have hfile : IsName "a.dart" := ⟨by decide, by decide⟩
  intro entry hentry
  refine ⟨[], entry.1, rfl, rfl, ?_, ?_⟩ <;>
  · revert entry
    simp [libTree, hlib, hfile]

/-- The file is found by its pattern and through its directory, and selected under both
spellings. -/
theorem not_selectsApart_libTree :
    libTree.IsProper ∧ ¬SelectsApart libTree ⟨"."⟩ ["lib/*.dart", "lib"] [] := by
  refine ⟨isProper_libTree, fun h ↦ ?_⟩
  have hpattern : ⟨"lib/a.dart"⟩ ∈ keptBy libTree ⟨"."⟩ [] "lib/*.dart" := by decide +kernel
  have hdirectory : ⟨"./lib/a.dart"⟩ ∈ keptBy libTree ⟨"."⟩ [] "lib" := by decide +kernel
  have heq := h.components_eq (by simp) (by simp) hpattern hdirectory (by decide)
  exact absurd heq (by decide)

/-! ### Ignored files -/

/-- Whether an ignore means the file at an address: if it has wildcards, by describing the names
that lead there from the base, and otherwise by naming it or a directory above it. -/
def IsMeantBy (base : Path) (ignore : String) (address : Address) : Prop :=
  if Pattern.hasWildcard ignore = true then
    ∃ pattern names, Pattern.parse ignore = .ok pattern ∧
      address = Program.addressOf base ++ names ∧ (∀ name ∈ names, IsName name) ∧
      pattern.isMatch ("/".intercalate names).toList = true
  else Program.addressOf (base.join ignore) <+: address

/-- No selected file is meant by an ignore. -/
def SparesIgnored (tree : Tree) (base : Path) (includes ignores : List String) : Prop :=
  ∀ path ∈ (select tree base includes ignores).files, ∀ ignore ∈ ignores,
    ¬IsMeantBy base ignore (Program.addressOf path)

/-- Whether an ignore is written so that it takes away the files that it means among those that an
inclusion finds: without wildcards, it begins with a dot exactly if they do; with wildcards, it
begins with a star, or the files are spelt from the base on. -/
def IsHeeded (base : Path) (inclusion ignore : String) : Prop :=
  if Pattern.hasWildcard ignore = true then
    (base.join inclusion).IsTidy ∧
      (ignore.toList.head? = some '*' ∨
        Program.addressOf base = [] ∧ ¬FindsDotted base inclusion)
  else
    (base.join ignore).IsStraight ∧
      ((base.join ignore).components = [] ∨
        ((base.join ignore).IsDotted ↔ FindsDotted base inclusion))
deriving Decidable

/-- What an ignore means among the files that are found is taken away by some ignore, if no selected
file is meant by one. -/
theorem SparesIgnored.exists_isIgnoredBy (h : SparesIgnored tree base includes ignores)
    {inclusion : String} (hinclusion : inclusion ∈ includes) {path : Path}
    (hpath : path ∈ foundBy tree base inclusion) {ignore : String} (hignore : ignore ∈ ignores)
    (hmeant : IsMeantBy base ignore (Program.addressOf path)) :
    ∃ other ∈ ignores, isIgnoredBy base path other = true := by
  by_contra hnone
  have hkept : path ∈ keptBy tree base ignores inclusion := by
    refine mem_keptBy_iff.mpr ⟨hpath, fun other hother ↦ ?_⟩
    exact Bool.eq_false_iff.mpr fun htaken ↦ hnone ⟨other, hother, htaken⟩
  obtain ⟨selected, hselected, heq⟩ := exists_mem_files_select hinclusion hkept
  refine h selected hselected ignore hignore ?_
  rw [addressOf_eq_foldl_components, heq]
  exact hmeant

theorem sparesIgnored_iff_exists_isIgnoredBy (tree : Tree) (base : Path)
    (includes ignores : List String) :
    SparesIgnored tree base includes ignores ↔
      ∀ inclusion ∈ includes, ∀ path ∈ foundBy tree base inclusion, ∀ ignore ∈ ignores,
        IsMeantBy base ignore (Program.addressOf path) →
          ∃ other ∈ ignores, isIgnoredBy base path other = true := by
  constructor
  · intro h inclusion hinclusion path hpath ignore hignore hmeant
    exact h.exists_isIgnoredBy hinclusion hpath hignore hmeant
  · intro h path hpath ignore hignore hmeant
    obtain ⟨inclusion, hinclusion, hkept⟩ := exists_mem_keptBy hpath
    obtain ⟨hfound, hleft⟩ := mem_keptBy_iff.mp hkept
    obtain ⟨other, hother, htaken⟩ := h inclusion hinclusion path hfound ignore hignore hmeant
    rw [hleft other hother] at htaken
    cases htaken

section Found

variable {path : Path} {inclusion ignore : String}

/-- An ignore without wildcards takes away the files that it means and that agree with it in a
leading dot. -/
theorem isIgnoredBy_literal_iff (hproper : tree.IsProper) (hplain : IsPlainInclusion base inclusion)
    (hpath : path ∈ foundBy tree base inclusion) (hliteral : Pattern.hasWildcard ignore = false)
    (hstraight : (base.join ignore).IsStraight) :
    isIgnoredBy base path ignore = true ↔
      IsMeantBy base ignore (Program.addressOf path) ∧
        ((base.join ignore).components = [] ∨
          ((base.join ignore).IsDotted ↔ FindsDotted base inclusion)) := by
  obtain ⟨hpathStraight, hdots⟩ := isStraight_and_isDotted_iff hproper hplain hpath
  rw [isIgnoredBy, hliteral, if_neg Bool.false_ne_true, isBelow_iff hpathStraight hstraight, hdots,
    IsMeantBy, hliteral, if_neg Bool.false_ne_true]

/-- An ignore with wildcards takes away the files that it means if it begins with a star or they are
spelt from the base on. -/
theorem isIgnoredBy_of_wildcard (hproper : tree.IsProper) (hplain : IsPlainInclusion base inclusion)
    (hpath : path ∈ foundBy tree base inclusion) (hwildcard : Pattern.hasWildcard ignore = true)
    (htidy : (base.join inclusion).IsTidy)
    (hspelt : ignore.toList.head? = some '*' ∨
      Program.addressOf base = [] ∧ ¬FindsDotted base inclusion)
    (hmeant : IsMeantBy base ignore (Program.addressOf path)) :
    isIgnoredBy base path ignore = true := by
  rw [IsMeantBy, if_pos hwildcard] at hmeant
  obtain ⟨pattern, names, hparse, hplace, hnames, hmatch⟩ := hmeant
  obtain ⟨hstraight, hdots⟩ := isStraight_and_isDotted_iff hproper hplain hpath
  obtain ⟨before, htext, hslash, hnone⟩ := exists_text_eq hstraight
    (isTidy_of_mem_foundBy hproper hplain htidy hpath) hplace hnames
  rw [isIgnoredBy, if_pos hwildcard, hparse]
  simp only
  rw [htext]
  obtain hstar | ⟨hbase, hdotless⟩ := hspelt
  · refine Pattern.isMatch_append_of_star hparse hstar hmatch (hslash.imp_left ?_)
    rintro rfl
    rfl
  · have hne : names ≠ [] := by
      rintro rfl
      obtain ⟨root, -, names, -, -, content, hfile⟩ :=
        Tree.exists_of_mem_foundBy hproper hpath
      obtain ⟨outside, inner, heq, -, hinner, -⟩ := hproper _ hfile
      rw [hplace, hbase, List.append_nil] at heq
      exact hinner (List.append_eq_nil_iff.mp heq.symm).2
    rw [hnone hbase (mt hdots.mp hdotless) hne]
    exact hmatch

end Found

/-- No selected file is meant by an ignore exactly if every file that is found and meant by an
ignore is taken away by one.

If the entries of the tree have names and the double dots of the inclusion stand first, an ignore
without wildcards whose double dots stand first takes away, of the files that it means, those that
begin with a dot like it or do not like it, and nothing else. No selected file is meant by an ignore
if all ignores are heeded for all inclusions. -/
theorem sparesIgnored_iff (tree : Tree) (base : Path) (includes ignores : List String) :
    (SparesIgnored tree base includes ignores ↔
      ∀ inclusion ∈ includes, ∀ path ∈ foundBy tree base inclusion, ∀ ignore ∈ ignores,
        IsMeantBy base ignore (Program.addressOf path) →
          ∃ other ∈ ignores, isIgnoredBy base path other = true) ∧
    (tree.IsProper → (∀ inclusion ∈ includes, IsPlainInclusion base inclusion) →
      (∀ inclusion ∈ includes, ∀ path ∈ foundBy tree base inclusion, ∀ ignore ∈ ignores,
        Pattern.hasWildcard ignore = false → (base.join ignore).IsStraight →
          (isIgnoredBy base path ignore = true ↔
            IsMeantBy base ignore (Program.addressOf path) ∧
              ((base.join ignore).components = [] ∨
                ((base.join ignore).IsDotted ↔ FindsDotted base inclusion)))) ∧
      ((∀ inclusion ∈ includes, ∀ ignore ∈ ignores, IsHeeded base inclusion ignore) →
        SparesIgnored tree base includes ignores)) := by
  refine ⟨sparesIgnored_iff_exists_isIgnoredBy tree base includes ignores, fun hproper hplain ↦
    ⟨fun inclusion hinclusion path hpath ignore _ hliteral hstraight ↦ ?_, fun hheeded ↦ ?_⟩⟩
  · exact isIgnoredBy_literal_iff hproper (hplain inclusion hinclusion) hpath hliteral hstraight
  · rw [sparesIgnored_iff_exists_isIgnoredBy]
    intro inclusion hinclusion path hpath ignore hignore hmeant
    refine ⟨ignore, hignore, ?_⟩
    have hwritten := hheeded inclusion hinclusion ignore hignore
    unfold IsHeeded at hwritten
    split_ifs at hwritten with hwildcard
    · exact isIgnoredBy_of_wildcard hproper (hplain inclusion hinclusion) hpath hwildcard hwritten.1
        hwritten.2 hmeant
    · exact (isIgnoredBy_literal_iff hproper (hplain inclusion hinclusion) hpath
        (by simpa using hwildcard) hwritten.1).mpr ⟨hmeant, hwritten.2⟩

/-- The ignores of the standard settings are heeded in the working directory. -/
example : ∀ inclusion ∈ Config.standard.editIncludes, ∀ ignore ∈ Config.standard.editIgnores,
    IsHeeded ⟨"."⟩ inclusion ignore := by decide +kernel

/-- The file is found by its pattern, without the dot with which the ignore begins. -/
theorem not_sparesIgnored_libTree :
    libTree.IsProper ∧ ¬SparesIgnored libTree ⟨"."⟩ ["lib/*.dart"] ["lib/a.dart"] := by
  refine ⟨isProper_libTree, fun h ↦ ?_⟩
  have hpath : ⟨"lib/a.dart"⟩ ∈ foundBy libTree ⟨"."⟩ "lib/*.dart" := by decide +kernel
  have hmeant : IsMeantBy ⟨"."⟩ "lib/a.dart" (Program.addressOf ⟨"lib/a.dart"⟩) := by
    rw [IsMeantBy, if_neg (by decide)]
    decide
  obtain ⟨other, hother, htaken⟩ :=
    h.exists_isIgnoredBy List.mem_cons_self hpath List.mem_cons_self hmeant
  obtain rfl := List.mem_singleton.mp hother
  exact absurd htaken (by decide +kernel)

end CalculatorCatalog.Files
