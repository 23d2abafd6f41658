import CalculatorCatalog.Command.Run
import CalculatorCatalog.Proofs.Config.Searching
import CalculatorCatalog.Proofs.Config.Skipping
import CalculatorCatalog.Proofs.Files.Contents

/-!
# Settings are read as they are written

A configuration file is an object whose members give some of the settings, in any order, among
members of other names (`Member`). `Gives` says that a text is such a file, in any layout. What is
read from it has the given value in each setting that is given and its standard value in every other
one (`Reflects`): one member changes one setting, or none (`foldlM_step_member`), and so all members
change the settings that they give (`foldlM_step_members`).

A whole configuration is written as a file that gives all settings, so it is read back. This holds
for the file that is written when a project is set up, too.
-/

set_option autoImplicit false
set_option relaxedAutoImplicit false

namespace CalculatorCatalog

open CalculatorCatalog.Json (Token Fault IsValue memberTokens tokensOf namedTokens)

/-! ### Settings -/

theorem Setting.named?_name (setting : Setting) : Setting.named? setting.name = some setting := by
  cases setting with
  | text setting => cases setting <;> decide
  | list setting => cases setting <;> decide

theorem Setting.mem_all (setting : Setting) : setting ∈ Setting.all := by
  cases setting with
  | text setting => cases setting <;> decide
  | list setting => cases setting <;> decide

namespace Config

@[simp] theorem text_setText (config : Config) (value : String) (setting other : TextSetting) :
    (config.setText value setting).text other =
      if setting = other then value else config.text other := by
  cases setting <;> cases other <;> rfl

@[simp] theorem list_setText (config : Config) (value : String) (setting : TextSetting)
    (other : ListSetting) : (config.setText value setting).list other = config.list other := by
  cases setting <;> cases other <;> rfl

@[simp] theorem text_setList (config : Config) (values : List String) (setting : ListSetting)
    (other : TextSetting) : (config.setList values setting).text other = config.text other := by
  cases setting <;> cases other <;> rfl

@[simp] theorem list_setList (config : Config) (values : List String)
    (setting other : ListSetting) :
    (config.setList values setting).list other =
      if setting = other then values else config.list other := by
  cases setting <;> cases other <;> rfl

/-- A configuration is what its settings are. -/
theorem ext_settings {config other : Config}
    (htext : ∀ setting, config.text setting = other.text setting)
    (hlist : ∀ setting, config.list setting = other.list setting) : config = other := by
  obtain ⟨⟩ := config
  obtain ⟨⟩ := other
  rw [mk.injEq]
  exact ⟨htext .modulesRoot, htext .moduleFileSuffix, htext .computationsRoot, htext .outputRoot,
    htext .dictionaryPath, htext .reportPath, htext .fileExtension, htext .generatedSuffix,
    htext .categoryNamespace, htext .fieldConstructor, hlist .editIncludes, hlist .editIgnores⟩

/-! ### Files -/

/-- A member of a configuration file: a setting with its value, or another name with a value that
is passed over. -/
inductive Member (α : Type) where
  | text (setting : TextSetting) (value : String)
  | list (setting : ListSetting) (values : List String)
  | other (name : String) (value : α)
  deriving DecidableEq

namespace Member

variable {α β : Type}

/-- The setting that a member gives. -/
def setting? : Member α → Option Setting
  | .text setting _ => some (.text setting)
  | .list setting _ => some (.list setting)
  | .other .. => none

/-- A member with another form of the values that are passed over. -/
def map (f : α → β) : Member α → Member β
  | .text setting value => .text setting value
  | .list setting values => .list setting values
  | .other name value => .other name (f value)

/-- A configuration after a member has been read. -/
def apply (config : Config) : Member α → Config
  | .text setting value => config.setText value setting
  | .list setting values => config.setList values setting
  | .other .. => config

/-- The member of an object. -/
def toJson : Member Json → String × Json
  | .text setting value => (setting.name, .string value)
  | .list setting values => (setting.name, .ofStrings values)
  | .other name value => (name, value)

/-- The tokens of a member. -/
def tokens : Member (List Token) → List Token
  | .text setting value => memberTokens (.ok setting.name, tokensOf (.string value))
  | .list setting values => memberTokens (.ok setting.name, tokensOf (.ofStrings values))
  | .other name value => memberTokens (.ok name, value)

end Member

variable {α : Type}

/-- The settings that members give. -/
def given (members : List (Member α)) : List Setting :=
  members.filterMap Member.setting?

theorem given_cons (member : Member α) (members : List (Member α)) :
    given (member :: members) = member.setting?.toList ++ given members := by
  rw [given, List.filterMap_cons]
  cases member.setting? <;> rfl

/-- No setting is given twice, and no other name is that of a setting. -/
structure IsFile (members : List (Member α)) : Prop where
  nodup : (given members).Nodup
  named?_eq : ∀ name value, .other name value ∈ members → Setting.named? name = none

/-- A text is a file of these members: an object of them, in any layout, with a value wherever a
value is passed over. -/
structure Gives (members : List (Member (List Token))) (text : String) : Prop where
  isFile : IsFile members
  isValue : ∀ name value, .other name value ∈ members → IsValue value
  tokens_eq : Json.tokens text.toList =
    .openObject :: ([.comma].intercalate (members.map Member.tokens) ++ [.closeObject])

/-- A configuration has the settings that are given, and is otherwise as it was before. -/
structure Reflects (before : Config) (members : List (Member α)) (config : Config) : Prop where
  text : ∀ setting value, .text setting value ∈ members → config.text setting = value
  list : ∀ setting values, .list setting values ∈ members → config.list setting = values
  text_eq : ∀ setting, .text setting ∉ given members → config.text setting = before.text setting
  list_eq : ∀ setting, .list setting ∉ given members → config.list setting = before.list setting

theorem Member.text_apply (config : Config) {member : Member α} {setting : TextSetting}
    (h : .text setting ∉ member.setting?.toList) :
    (member.apply config).text setting = config.text setting := by
  cases member with
  | text other value =>
    rw [apply, text_setText, if_neg]
    rintro rfl
    exact h List.mem_cons_self
  | list other values => rw [apply, text_setList]
  | other name value => rfl

theorem Member.list_apply (config : Config) {member : Member α} {setting : ListSetting}
    (h : .list setting ∉ member.setting?.toList) :
    (member.apply config).list setting = config.list setting := by
  cases member with
  | text other value => rw [apply, list_setText]
  | list other values =>
    rw [apply, list_setList, if_neg]
    rintro rfl
    exact h List.mem_cons_self
  | other name value => rfl

/-- Members that give different settings change these and no others. -/
theorem reflects_foldl {members : List (Member α)} (h : (given members).Nodup) (before : Config) :
    Reflects before members (members.foldl Member.apply before) := by
  induction members generalizing before with
  | nil => exact ⟨by simp, by simp, fun _ _ ↦ rfl, fun _ _ ↦ rfl⟩
  | cons member members ih =>
    rw [given_cons, List.nodup_append] at h
    obtain ⟨-, hrest, hapart⟩ := h
    have hnew : ∀ setting ∈ member.setting?.toList, setting ∉ given members :=
      fun setting hsetting hmem ↦ hapart setting hsetting setting hmem rfl
    obtain ⟨htext, hlist, htext', hlist'⟩ := ih hrest (member.apply before)
    rw [List.foldl_cons]
    refine ⟨fun setting value hmem ↦ ?_, fun setting values hmem ↦ ?_, fun setting hout ↦ ?_,
      fun setting hout ↦ ?_⟩
    · obtain rfl | hmem := List.mem_cons.mp hmem
      · rw [htext' setting (hnew _ List.mem_cons_self), Member.apply, text_setText, if_pos rfl]
      · exact htext setting value hmem
    · obtain rfl | hmem := List.mem_cons.mp hmem
      · rw [hlist' setting (hnew _ List.mem_cons_self), Member.apply, list_setList, if_pos rfl]
      · exact hlist setting values hmem
    · rw [given_cons, List.mem_append, not_or] at hout
      rw [htext' setting hout.2, Member.text_apply before hout.1]
    · rw [given_cons, List.mem_append, not_or] at hout
      rw [hlist' setting hout.2, Member.list_apply before hout.1]

/-! ### Reading members -/

namespace Reading

/-- The texts of a list are read one after the other, and then the list is complete. -/
theorem foldlM_step_texts (setting : ListSetting) (draft : Draft) (text : String)
    (texts : List String) :
    ([Token.comma].intercalate (((text :: texts).map Json.string).map tokensOf) ++
        [Token.closeArray]).foldlM step (.atFirstText setting draft) =
      .ok (closeList setting (text :: texts) draft) := by
  have htext (read : List String) (text : String) :
      (tokensOf (.string text)).foldlM step (.atText setting read draft) =
        .ok (.afterText setting (read ++ [text]) draft) := by
    rw [Json.tokensOf_string]
    rfl
  have hfirst : (tokensOf (.string text)).foldlM step (.atFirstText setting draft) =
      .ok (.afterText setting ([] ++ [text]) draft) := by
    rw [Json.tokensOf_string]
    rfl
  have hread := foldlM_intercalate step (fun text ↦ tokensOf (.string text))
    (fun read text ↦ read ++ [text]) (fun read ↦ .atText setting read draft)
    (fun read ↦ .afterText setting read draft) (fun _ _ ↦ True) (fun _ ↦ rfl)
    (fun read text _ _ ↦ ⟨htext read text, trivial⟩) [] texts hfirst trivial
  rw [List.map_map]
  refine (foldlM_append_of_foldlM hread _).trans ?_
  rw [List.foldl_append_eq_append, ← List.flatMap_def, List.flatMap_singleton', List.nil_append]
  rfl

/-- The value of a list is read where it is expected. -/
theorem foldlM_step_ofStrings (setting : ListSetting) (values : List String) (draft : Draft) :
    (tokensOf (.ofStrings values)).foldlM step (.atValue (.list setting) draft) =
      .ok (closeList setting values draft) := by
  rw [Json.ofStrings, Json.tokensOf_array, foldlM_cons_of_step rfl]
  cases values with
  | nil => rfl
  | cons text texts => exact foldlM_step_texts setting draft text texts

variable {config : Config} {settings : List Setting} {state : Reading}

/-- The name of a setting that has not been given yet. -/
theorem step_name (hstate : state = .atFirstMember ⟨config, .members settings⟩ ∨
      state = .atName ⟨config, .members settings⟩) {setting : Setting} (h : setting ∉ settings)
    (extent : Except Fault Unit) :
    step state (.string (.ok setting.name) extent) =
      .ok (.atColon setting ⟨config, .members (setting :: settings)⟩) := by
  have hname : beginMember ⟨config, .members settings⟩ (.string (.ok setting.name) extent) =
      .ok (.atColon setting ⟨config, .members (setting :: settings)⟩) := by
    simp only [beginMember, bind, Except.bind, Setting.named?_name, if_neg h]
    rfl
  obtain rfl | rfl := hstate <;> exact hname

/-- Any other name. -/
theorem step_otherName (hstate : state = .atFirstMember ⟨config, .members settings⟩ ∨
      state = .atName ⟨config, .members settings⟩) {name : String}
    (h : Setting.named? name = none) (extent : Except Fault Unit) :
    step state (.string (.ok name) extent) =
      .ok (.atOtherColon ⟨config, .members settings⟩) := by
  have hname : beginMember ⟨config, .members settings⟩ (.string (.ok name) extent) =
      .ok (.atOtherColon ⟨config, .members settings⟩) := by
    simp only [beginMember, bind, Except.bind, h]
    rfl
  obtain rfl | rfl := hstate <;> exact hname

/-- Members that can be read where some settings have been given already. -/
structure Remains (settings : List Setting) (members : List (Member (List Token))) : Prop where
  nodup : (given members).Nodup
  notMem : ∀ setting ∈ given members, setting ∉ settings
  other : ∀ name value, .other name value ∈ members → Setting.named? name = none ∧ IsValue value

theorem Remains.tail {member : Member (List Token)} {members : List (Member (List Token))}
    (h : Remains settings (member :: members)) :
    Remains (member.setting?.toList ++ settings) members := by
  obtain ⟨hnodup, hnotMem, hother⟩ := h
  rw [given_cons] at hnodup hnotMem
  obtain ⟨-, hrest, hapart⟩ := List.nodup_append.mp hnodup
  refine ⟨hrest, fun setting hmem ↦ ?_, fun name value hmem ↦ hother name value (.tail _ hmem)⟩
  rw [List.mem_append, not_or]
  exact ⟨fun hold ↦ hapart setting hold setting hmem rfl,
    hnotMem setting (List.mem_append_right _ hmem)⟩

/-- One member is read: it changes the setting that it gives, or none. -/
theorem foldlM_step_member {member : Member (List Token)} {members : List (Member (List Token))}
    (hstate : state = .atFirstMember ⟨config, .members settings⟩ ∨
      state = .atName ⟨config, .members settings⟩) (h : Remains settings (member :: members)) :
    member.tokens.foldlM step state =
      .ok (.afterValue ⟨member.apply config, .members (member.setting?.toList ++ settings)⟩) := by
  have hnew : ∀ setting ∈ member.setting?.toList, setting ∉ settings :=
    fun setting hmem ↦ h.notMem setting (by rw [given_cons]; exact List.mem_append_left _ hmem)
  cases member with
  | text setting value =>
    have hname := step_name hstate (hnew (.text setting) List.mem_cons_self) (.ok ())
    refine (foldlM_cons_of_step hname _).trans ?_
    rw [foldlM_cons_of_step rfl, Json.tokensOf_string]
    rfl
  | list setting values =>
    have hname := step_name hstate (hnew (.list setting) List.mem_cons_self) (.ok ())
    refine (foldlM_cons_of_step hname _).trans ?_
    rw [foldlM_cons_of_step rfl, foldlM_step_ofStrings]
    rfl
  | other name value =>
    obtain ⟨hname, hvalue⟩ := h.other name value List.mem_cons_self
    refine (foldlM_cons_of_step (step_otherName hstate hname (.ok ())) _).trans ?_
    rw [foldlM_cons_of_step rfl, foldlM_skipping hvalue]
    rfl

/-- Members are read one after the other, and then the configuration is complete. -/
theorem foldlM_step_members {member : Member (List Token)} {members : List (Member (List Token))}
    (h : Remains settings (member :: members)) :
    ([Token.comma].intercalate ((member :: members).map Member.tokens) ++
        [Token.closeObject]).foldlM step (.atFirstMember ⟨config, .members settings⟩) =
      .ok (.done ((member :: members).foldl Member.apply config)) := by
  let add (read : Config × List Setting) (member : Member (List Token)) : Config × List Setting :=
    (member.apply read.1, member.setting?.toList ++ read.2)
  have hfirst : member.tokens.foldlM step (.atFirstMember ⟨config, .members settings⟩) =
      .ok (.afterValue ⟨(add (config, settings) member).1,
        .members (add (config, settings) member).2⟩) := foldlM_step_member (.inl rfl) h
  have hread := foldlM_intercalate step Member.tokens add
    (fun read ↦ .atName ⟨read.1, .members read.2⟩)
    (fun read ↦ .afterValue ⟨read.1, .members read.2⟩) (fun read ↦ Remains read.2) (fun _ ↦ rfl)
    (fun _ _ _ h ↦ ⟨foldlM_step_member (.inr rfl) h, h.tail⟩) (config, settings) members hfirst
    h.tail
  have hconfig : (member :: members).foldl Member.apply config =
      ((member :: members).foldl add (config, settings)).1 :=
    @List.foldl_hom _ _ _ Prod.fst add Member.apply _ (config, settings) fun _ _ ↦ rfl
  rw [foldlM_append_of_foldlM hread, hconfig]
  rfl

end Reading

/-- A file is read to the configuration that its members make of the standard one. -/
theorem read_of_gives {members : List (Member (List Token))} {text : String}
    (h : Gives members text) : read text = .ok (members.foldl Member.apply standard) := by
  rw [read, h.tokens_eq, ofTokens, foldlM_cons_of_step rfl]
  cases members with
  | nil => rfl
  | cons member members =>
    rw [Reading.foldlM_step_members ⟨h.isFile.nodup, fun _ _ ↦ List.not_mem_nil,
      fun name value hmem ↦ ⟨h.isFile.named?_eq name value hmem, h.isValue name value hmem⟩⟩]
    rfl

/-! ### Written files -/

/-- The object of members. -/
def fileJson (members : List (Member Json)) : Json :=
  .object (members.map Member.toJson)

theorem given_map {β : Type} (f : α → β) (members : List (Member α)) :
    given (members.map (Member.map f)) = given members := by
  rw [given, List.filterMap_map]
  congr 1
  funext member
  cases member <;> rfl

theorem IsFile.map {β : Type} (f : α → β) {members : List (Member α)} (h : IsFile members) :
    IsFile (members.map (Member.map f)) := by
  refine ⟨by rw [given_map]; exact h.nodup, fun name value hmem ↦ ?_⟩
  obtain ⟨member, hmember, hmap⟩ := List.mem_map.mp hmem
  cases member with
  | other name' value' =>
    obtain ⟨rfl, -⟩ := (Member.other.injEq ..).mp hmap
    exact h.named?_eq _ _ hmember
  | _ => cases hmap

/-- The tokens of an object of members. -/
theorem tokensOf_fileJson (members : List (Member Json)) :
    tokensOf (fileJson members) =
      .openObject :: ([.comma].intercalate
        ((members.map (Member.map tokensOf)).map Member.tokens) ++ [.closeObject]) := by
  rw [fileJson, Json.tokensOf_object, List.map_map, List.map_map]
  congr 4
  funext member
  cases member <;> rfl

/-- An object of members is a file of them, however it is laid out. -/
theorem gives_of_tokens_eq {members : List (Member Json)} (h : IsFile members) {text : String}
    (htext : Json.tokens text.toList = tokensOf (fileJson members)) :
    Gives (members.map (Member.map tokensOf)) text := by
  refine ⟨h.map tokensOf, fun name value hmem ↦ ?_, htext.trans (tokensOf_fileJson members)⟩
  obtain ⟨member, -, hmap⟩ := List.mem_map.mp hmem
  cases member with
  | other name' value' =>
    obtain ⟨-, rfl⟩ := (Member.other.injEq ..).mp hmap
    exact Json.isValue_tokensOf value'
  | _ => cases hmap

theorem tokens_compact (value : Json) : Json.tokens value.compact.toList = tokensOf value := by
  rw [Json.compact, String.toList_ofList, tokensOf]

theorem tokens_pretty (value : Json) : Json.tokens value.pretty.toList = tokensOf value := by
  rw [Json.pretty, String.toList_ofList, (Json.reads_prettyText 0 value).tokens_eq]

/-! ### Whole configurations -/

/-- The members that give all settings of a configuration. -/
def members (config : Config) : List (Member α) :=
  Setting.all.map fun
    | .text setting => .text setting (config.text setting)
    | .list setting => .list setting (config.list setting)

theorem toJson_eq_fileJson (config : Config) : config.toJson = fileJson config.members := rfl

theorem isFile_members (config : Config) : IsFile (config.members : List (Member α)) := by
  have hgiven : given (config.members : List (Member α)) = Setting.all := rfl
  refine ⟨by rw [hgiven]; decide, fun name value hmem ↦ ?_⟩
  obtain ⟨setting, -, hmember⟩ := List.mem_map.mp hmem
  cases setting <;> cases hmember

/-- The members of a configuration make it out of any other one. -/
theorem Reflects.eq_of_members {before config config' : Config}
    (h : Reflects before (config.members : List (Member α)) config') : config' = config :=
  ext_settings
    (fun setting ↦ h.text _ _ (List.mem_map.mpr ⟨.text setting, Setting.mem_all _, rfl⟩))
    (fun setting ↦ h.list _ _ (List.mem_map.mpr ⟨.list setting, Setting.mem_all _, rfl⟩))

/-- A text with the tokens of a configuration is read to it. -/
theorem read_of_tokens_eq {config : Config} {text : String}
    (h : Json.tokens text.toList = tokensOf config.toJson) : read text = .ok config := by
  rw [toJson_eq_fileJson] at h
  rw [read_of_gives (gives_of_tokens_eq config.isFile_members h)]
  have hgiven := reflects_foldl (config.isFile_members.map tokensOf).nodup standard
  exact congrArg _ (Reflects.eq_of_members hgiven)

/-! ### Loading -/

open CalculatorCatalog.Files

theorem check_standard : standard.check = none := by
  decide +kernel

theorem isPresent_of_readText {tree : Tree} {path : Path} {text : String}
    (h : tree.readText path = .ok text) : tree.isPresent path = true := by
  obtain ⟨reached, haddress, hfile⟩ := Tree.readText_eq_ok_iff.mp h
  exact Tree.isPresent_iff.mpr ⟨reached, haddress, by rw [hfile]; exact Option.some_ne_none _⟩

/-- A file that is found and read is used unless something is wrong with the configuration. -/
theorem load_eq {tree : Tree} {directory path : Path} {text : String} {config : Config}
    (hfound : find? tree directory = some path) (htext : tree.readText path = .ok text)
    (hread : read text = .ok config) :
    load tree directory =
      config.check.elim (.ok ⟨config, true⟩) fun flaw ↦ .error (.flawed flaw) := by
  simp only [load, hfound, readFile, htext, hread, Except.mapError, bind, Except.bind]
  cases config.check <;> rfl

/-- The configuration that has been written when a project was set up applies to it. -/
theorem load_init {tree : Tree} {options : ProjectOptions}
    (h : (Run.init tree options).2 =
      .ok (.ofIssues (.initialized ((Project.rootOf options).join fileName) true) [])) :
    load (Run.init tree options).1 (Project.rootOf options) = .ok ⟨standard, true⟩ := by
  simp only [Run.init] at h ⊢
  split_ifs at h ⊢ with hpresent
  · cases h
  · cases hwritten : tree.writeText ((Project.rootOf options).join fileName)
        standard.toJson.pretty with
    | error fault =>
      rw [hwritten] at h
      cases h
    | ok written =>
      obtain ⟨reached, haddress, hentry, rfl⟩ := Tree.write_eq_ok hwritten
      have htext := (Tree.wrote_put haddress hentry (.text standard.toJson.pretty)).readText_eq
      have hfound := find?_eq (tree.put reached (.file (.text standard.toJson.pretty)))
        (Project.rootOf options)
      rw [if_pos (isPresent_of_readText htext)] at hfound
      rw [load_eq hfound htext (read_of_tokens_eq (tokens_pretty _)), check_standard]
      rfl

/-- Every configuration is read back from both of its layouts. What is read from a file has the
given value in each setting that is given, whatever else the file holds and in any order, and its
standard value in every other setting, and it is what applies where that file is found. Objects of
members are such files in both layouts, and so is the file that is written when a project is set
up. -/
theorem read_exact :
    (∀ config : Config,
      read config.toJson.compact = .ok config ∧ read config.toJson.pretty = .ok config) ∧
    (∀ members text, Gives members text →
      ∃ config, read text = .ok config ∧ Reflects standard members config ∧
        ∀ tree directory path, find? tree directory = some path →
          tree.readText path = .ok text → load tree directory =
            config.check.elim (.ok ⟨config, true⟩) fun flaw ↦ .error (.flawed flaw)) ∧
    (∀ members : List (Member Json), IsFile members →
      Gives (members.map (Member.map tokensOf)) (fileJson members).compact ∧
        Gives (members.map (Member.map tokensOf)) (fileJson members).pretty) ∧
    ∀ tree options, (Run.init tree options).2 =
        .ok (.ofIssues (.initialized ((Project.rootOf options).join fileName) true) []) →
      load (Run.init tree options).1 (Project.rootOf options) = .ok ⟨standard, true⟩ := by
  refine ⟨fun config ↦ ⟨read_of_tokens_eq (tokens_compact _), read_of_tokens_eq (tokens_pretty _)⟩,
    fun members text h ↦ ⟨_, read_of_gives h, reflects_foldl h.isFile.nodup standard,
      fun tree directory path hfound htext ↦ load_eq hfound htext (read_of_gives h)⟩,
    fun members h ↦ ⟨gives_of_tokens_eq h (tokens_compact _),
      gives_of_tokens_eq h (tokens_pretty _)⟩,
    fun tree options ↦ load_init⟩

/-- A file that gives two settings behind a note, laid out by hand. -/
def noteText : String :=
  "\x7b \x22note\x22 : [1e999, \x7b\x7d] ,\n" ++
    "\x22reportPath\x22:\x22out\\/r.json\x22,\x22rewriteIgnores\x22: [ ]\x7d"

/-- Its members; the number in the note is out of range. -/
def noteMembers : List (Member (List Token)) :=
  [.other "note" [.openArray, .number (.error .malformed) (.ok ()), .comma, .openObject,
      .closeObject, .closeArray],
    .text .reportPath "out/r.json", .list .editIgnores []]

theorem eq_of_mem_noteMembers {name : String} {value : List Token}
    (h : .other name value ∈ noteMembers) :
    name = "note" ∧ value = [.openArray, .number (.error .malformed) (.ok ()), .comma, .openObject,
      .closeObject, .closeArray] := by
  simpa [noteMembers] using h

theorem gives_note : Gives noteMembers noteText where
  isFile := by
    refine ⟨by decide, fun name value hmem ↦ ?_⟩
    rw [(eq_of_mem_noteMembers hmem).1]
    decide
  isValue := by
    intro name value hmem
    rw [(eq_of_mem_noteMembers hmem).2]
    have hempty : IsValue [.openObject, .closeObject] := @IsValue.object [] (by simp)
    exact @IsValue.array [[.number (.error .malformed) (.ok ())], [.openObject, .closeObject]]
      (by simp [IsValue.number, hempty])
  tokens_eq := by decide +kernel

/-- A tree with that file alone. -/
def noteTree : Tree :=
  ⟨[([fileName], .file (.text noteText))], []⟩

theorem read_exact_note :
    (find? noteTree ⟨"."⟩ = some ⟨"./.calcmigrc.json"⟩ ∧
      noteTree.readText ⟨"./.calcmigrc.json"⟩ = .ok noteText ∧ ∃ config,
        read noteText = .ok config ∧ config.text .reportPath = "out/r.json" ∧
          config.list .editIgnores = [] ∧ config.text .fileExtension = "dart" ∧
            load noteTree ⟨"."⟩ =
              config.check.elim (.ok ⟨config, true⟩) fun flaw ↦ .error (.flawed flaw)) ∧
    (IsFile [Member.text .reportPath "r", .other "x" Json.null] ∧
      Gives [.text .reportPath "r", .other "x" (tokensOf .null)]
        "\x7b\n  \x22reportPath\x22: \x22r\x22,\n  \x22x\x22: null\n\x7d") ∧
    load (Run.init .empty ⟨none, none, none⟩).1 ⟨"."⟩ = .ok ⟨standard, true⟩ := by
  obtain ⟨-, hread, hwritten, hinit⟩ := read_exact
  obtain ⟨config, hconfig, hreflects, hload⟩ := hread noteMembers noteText gives_note
  have hfound : find? noteTree ⟨"."⟩ = some ⟨"./.calcmigrc.json"⟩ := by decide +kernel
  have htext : noteTree.readText ⟨"./.calcmigrc.json"⟩ = .ok noteText := by decide +kernel
  have hfile : IsFile [Member.text .reportPath "r", .other "x" Json.null] :=
    ⟨by decide, fun name value hmem ↦ by
      obtain ⟨rfl, -⟩ : name = "x" ∧ value = .null := by simpa using hmem
      decide⟩
  have hpretty : (fileJson [Member.text .reportPath "r", .other "x" Json.null]).pretty =
      "\x7b\n  \x22reportPath\x22: \x22r\x22,\n  \x22x\x22: null\n\x7d" := by
    decide +kernel
  refine ⟨⟨hfound, htext, config, hconfig, ?_, ?_, ?_, hload _ _ _ hfound htext⟩,
    ⟨hfile, hpretty ▸ (hwritten _ hfile).2⟩, hinit .empty ⟨none, none, none⟩ (by decide +kernel)⟩
  · exact hreflects.text _ _ (by simp [noteMembers])
  · exact hreflects.list _ _ (by simp [noteMembers])
  · exact hreflects.text_eq .fileExtension (by decide)

end Config

end CalculatorCatalog
