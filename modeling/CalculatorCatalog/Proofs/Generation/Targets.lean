import CalculatorCatalog.Generation
import CalculatorCatalog.Proofs.Files.Places

/-!
# Where generated sources go

A generated source is meant to lie right below the output directory: its path should add a single
name to that of the directory, the identifier with the suffix and the extension
(`Config.KeepsTargets`). Joining a path with a text adds a single name exactly if the text is one
(`Path.components_join_eq_iff`), so the question is which texts the three parts can combine to.

Only the identifier is checked when a source is rendered. `Config.keepsTargets_iff` says what the
suffix and the extension have to be like: neither may hold a slash, and they must leave something
besides the dot of the extension, because an identifier may itself be a dot.
-/

set_option autoImplicit false
set_option relaxedAutoImplicit false

namespace CalculatorCatalog

open CalculatorCatalog.Path

/-- Joining adds a text as a single component exactly if the text is a name. -/
theorem Path.components_join_eq_iff {path : Path} {name : String} :
    (path.join name).components = path.components ++ [.name name] ↔ IsName name := by
  constructor
  · intro h
    have hmem : Component.name name ∈ (path.join name).components := by
      rw [h]
      exact List.mem_append_right _ (List.mem_singleton_self _)
    exact isName_of_mem_components hmem
  · exact fun h ↦ components_join_name h path

/-! ### File names -/

/-- An identifier that passes the check is not empty and holds no slash. -/
theorem ne_empty_and_slash_notMem_of_isPlainName {id : String} (h : isPlainName id = true) :
    id ≠ "" ∧ '/' ∉ id.toList := by
  simp only [isPlainName, Bool.and_eq_true, decide_eq_true_eq, Bool.not_eq_true'] at h
  obtain ⟨⟨⟨hne, hslash⟩, -⟩, -⟩ := h
  exact ⟨hne, by simpa using hslash⟩

namespace Config

theorem toList_dottedExtension (config : Config) :
    config.dottedExtension.toList = '.' :: config.fileExtension.toList.dropWhile (· == '.') := by
  simp [dottedExtension]

/-- The extension holds a slash if the setting does; only dots are dropped from it. -/
theorem slash_mem_dottedExtension_iff (config : Config) :
    '/' ∈ config.dottedExtension.toList ↔ '/' ∈ config.fileExtension.toList := by
  rw [toList_dottedExtension, List.mem_cons, or_iff_right (by decide)]
  constructor
  · exact fun h ↦ (List.dropWhile_sublist _).mem h
  · intro h
    rw [← List.takeWhile_append_dropWhile (p := (· == '.')) (l := config.fileExtension.toList),
      List.mem_append] at h
    refine h.resolve_left fun htake ↦ ?_
    have hdot := List.mem_takeWhile_imp htake
    exact absurd hdot (by decide)

/-- The extension is a dot alone if the setting has nothing but dots. -/
theorem dottedExtension_eq_dot_iff (config : Config) :
    config.dottedExtension = "." ↔ ∀ c ∈ config.fileExtension.toList, c = '.' := by
  rw [← String.toList_inj, toList_dottedExtension]
  simp [List.dropWhile_eq_nil_iff]

/-- An identifier, a suffix and an extension come to two dots only if the identifier is the one and
the extension the other. -/
theorem fileName_eq_dots_iff (config : Config) {id : String} (h : id ≠ "") :
    id ++ config.generatedSuffix ++ config.dottedExtension = ".." ↔
      id = "." ∧ config.generatedSuffix = "" ∧ config.dottedExtension = "." := by
  obtain ⟨c, text, hid⟩ := List.exists_cons_of_ne_nil (mt String.toList_eq_nil_iff.mp h)
  have hextension := config.toList_dottedExtension
  simp only [← String.toList_inj, String.toList_append, hid, hextension]
  constructor
  · intro heq
    have hlength := congrArg List.length heq
    simp only [List.length_append, List.length_cons] at hlength
    have htwo : "..".toList.length = 2 := rfl
    have htext : text = [] := List.length_eq_zero_iff.mp (by omega)
    have hsuffix : config.generatedSuffix.toList = [] := List.length_eq_zero_iff.mp (by omega)
    have hrest : config.fileExtension.toList.dropWhile (· == '.') = [] :=
      List.length_eq_zero_iff.mp (by omega)
    rw [htext, hsuffix, hrest] at heq
    exact ⟨by rw [htext, (List.cons.inj heq).1]; rfl, by rw [hsuffix]; rfl, by rw [hrest]; rfl⟩
  · rintro ⟨hdot, hsuffix, hrest⟩
    rw [hdot, hsuffix, hrest]
    rfl

section FileName

variable {id : String}

/-- The file name for an identifier holds a slash if the suffix or the extension does. -/
theorem slash_notMem_fileName_iff (config : Config) (h : isPlainName id = true) :
    '/' ∉ (id ++ config.generatedSuffix ++ config.dottedExtension).toList ↔
      '/' ∉ config.generatedSuffix.toList ∧ '/' ∉ config.fileExtension.toList := by
  obtain ⟨-, hid⟩ := ne_empty_and_slash_notMem_of_isPlainName h
  rw [← config.slash_mem_dottedExtension_iff]
  simp only [String.toList_append, List.mem_append, hid, false_or, not_or]

/-- The identifier and the dot of the extension are two characters already. -/
theorem fileName_ne_of_length (config : Config) (h : isPlainName id = true) {text : String}
    (hshort : text.toList.length < 2) :
    id ++ config.generatedSuffix ++ config.dottedExtension ≠ text := by
  rintro rfl
  have hpos := List.length_pos_of_ne_nil
    (mt String.toList_eq_nil_iff.mp (ne_empty_and_slash_notMem_of_isPlainName h).1)
  simp only [String.toList_append, List.length_append, toList_dottedExtension,
    List.length_cons] at hshort
  omega

/-- The file name for an identifier is a name unless the suffix or the extension brings in a slash
or all three parts come to two dots. -/
theorem isName_fileName_iff (config : Config) (h : isPlainName id = true) :
    IsName (id ++ config.generatedSuffix ++ config.dottedExtension) ↔
      '/' ∉ config.generatedSuffix.toList ∧ '/' ∉ config.fileExtension.toList ∧
        ¬(id = "." ∧ config.generatedSuffix = "" ∧ config.dottedExtension = ".") := by
  obtain ⟨hne, -⟩ := ne_empty_and_slash_notMem_of_isPlainName h
  have hslash := config.slash_notMem_fileName_iff h
  constructor
  · rintro ⟨⟨-, -, hdots⟩, hname⟩
    obtain ⟨hsuffix, hextension⟩ := hslash.mp hname
    exact ⟨hsuffix, hextension, (config.fileName_eq_dots_iff hne).not.mp hdots⟩
  · rintro ⟨hsuffix, hextension, hdots⟩
    exact ⟨⟨config.fileName_ne_of_length h (by decide),
      config.fileName_ne_of_length h (by decide), (config.fileName_eq_dots_iff hne).not.mpr hdots⟩,
      hslash.mpr ⟨hsuffix, hextension⟩⟩

end FileName

/-! ### Targets -/

/-- Whatever is rendered goes right below the output directory: its path is that of the directory
and one more component, the name made of the identifier, the suffix and the extension. -/
def KeepsTargets (config : Config) : Prop :=
  ∀ (outputRoot : Path) (definition : Definition) (module : String) (file : GeneratedFile),
    (Generator.ofConfig outputRoot config).render definition module = .ok file →
    file.path.components = outputRoot.components ++
      [.name (definition.id ++ config.generatedSuffix ++ config.dottedExtension)]

end Config

namespace Generator

/-- What is rendered has a plain identifier and goes to its target. -/
theorem of_render_eq_ok {generator : Generator} {definition : Definition} {module : String}
    {file : GeneratedFile} (h : generator.render definition module = .ok file) :
    isPlainName definition.id = true ∧ file.path = generator.targetPath definition.id := by
  unfold render at h
  split_ifs at h with hplain
  simp only [Bool.not_eq_true, Bool.not_eq_false'] at hplain
  split at h
  · cases h
  · split_ifs at h
    obtain rfl := Except.ok.inj h
    exact ⟨hplain, rfl⟩

/-- A definition with a plain identifier that names a computation is rendered. -/
theorem exists_render_eq_ok (generator : Generator) {definition : Definition} {computation : String}
    (hplain : isPlainName definition.id = true) (hsome : definition.computation = some computation)
    (hne : computation ≠ "") (module : String) :
    ∃ file, generator.render definition module = .ok file ∧
      file.path = generator.targetPath definition.id := by
  unfold render
  rw [hplain, hsome]
  simp only [Bool.not_true, Bool.false_eq_true, if_false, if_neg hne]
  exact ⟨_, rfl, rfl⟩

end Generator

namespace Config

/-- A definition that declares no more than it needs to be rendered. -/
def sampleDefinition (id : String) : Definition :=
  ⟨id, "", "", "", some "Compute", [], [], ⟨"", 1, 1⟩⟩

/-- If all targets are kept, then the file name for every plain identifier is a name. -/
theorem KeepsTargets.isName {config : Config} (h : config.KeepsTargets) (id : String)
    (hplain : isPlainName id = true) :
    IsName (id ++ config.generatedSuffix ++ config.dottedExtension) := by
  have hsample : isPlainName (sampleDefinition id).id = true := hplain
  obtain ⟨file, hrender, hpath⟩ :=
    (Generator.ofConfig ⟨"."⟩ config).exists_render_eq_ok hsample rfl (by decide) ""
  have hcomponents := h _ _ _ _ hrender
  rw [hpath] at hcomponents
  exact components_join_eq_iff.mp hcomponents

/-- All sources that can be rendered go right below the output directory exactly if neither the
suffix nor the extension holds a slash and not both are without a character of their own: the
identifier is checked, but a dot passes, and then two dots are left. -/
theorem keepsTargets_iff (config : Config) :
    config.KeepsTargets ↔
      '/' ∉ config.generatedSuffix.toList ∧ '/' ∉ config.fileExtension.toList ∧
        ¬(config.generatedSuffix = "" ∧ ∀ c ∈ config.fileExtension.toList, c = '.') := by
  rw [← dottedExtension_eq_dot_iff]
  constructor
  · intro h
    obtain ⟨hsuffix, hextension, hdots⟩ :=
      (config.isName_fileName_iff (by decide)).mp (h.isName "." (by decide))
    exact ⟨hsuffix, hextension, fun hboth ↦ hdots ⟨rfl, hboth⟩⟩
  · rintro ⟨hsuffix, hextension, hdots⟩ outputRoot definition module file hrender
    obtain ⟨hplain, hpath⟩ := Generator.of_render_eq_ok hrender
    rw [hpath]
    refine components_join_name ((config.isName_fileName_iff hplain).mpr ?_) outputRoot
    exact ⟨hsuffix, hextension, fun hall ↦ hdots hall.2⟩

/-- A configuration whose suffix leads out of the output directory. -/
def climbing : Config :=
  { standard with generatedSuffix := "/../../main" }

/-- The suffix is not checked: a configuration that is accepted can send the sources elsewhere. -/
theorem not_keepsTargets_climbing :
    climbing.check = none ∧
      ((Generator.ofConfig ⟨"out"⟩ climbing).render (sampleDefinition "tile") "").map (·.path) =
        .ok ⟨"out/tile/../../main.dart"⟩ ∧
      ¬climbing.KeepsTargets := by
  refine ⟨by decide +kernel, by decide +kernel, fun h ↦ ?_⟩
  have hname := h.isName "tile" (by decide)
  exact hname.slash_notMem (by decide)

end Config

end CalculatorCatalog
