import CalculatorCatalog.Proofs.Dictionary.Filling
import CalculatorCatalog.Proofs.Files.Contents
import CalculatorCatalog.Proofs.Json.RoundTrip

/-!
# Saving a dictionary and loading it again

The dictionaries that the program works on come from nothing or from files, and grow by filling in
(`Reachable`). All of them can be read: their names are distinct, and a new label stands only two
levels deep (`Reachable.readableAt`). So a dictionary whose numbers are exact is read back from its
text as it was, and what has been saved is what is loaded (`read_toText_of_reachable`).
-/

set_option autoImplicit false
set_option relaxedAutoImplicit false

namespace CalculatorCatalog

open CalculatorCatalog.Files

/-! ### Loading -/

theorem mapError_eq_ok_iff {ε ε' α : Type} {result : Except ε α} {wrap : ε → ε'} {value : α} :
    result.mapError wrap = .ok value ↔ result = .ok value := by
  cases result <;> simp [Except.mapError]

namespace Dictionary

variable {tree : Tree}

theorem load_eq_ok_iff {path : Path} {dictionary : Dictionary} :
    load tree path = .ok dictionary ↔
      ∃ text, tree.readText path = .ok text ∧
        Json.read text = .ok (.object dictionary.sections) := by
  rw [load, bind_eq_ok_iff]
  simp only [mapError_eq_ok_iff, bind_eq_ok_iff]
  refine exists_congr fun text ↦ and_congr_right fun _ ↦ ?_
  constructor
  · rintro ⟨value, hread, h⟩
    cases value with
    | object members =>
      obtain rfl := Except.ok.inj h
      exact hread
    | null => cases h
    | bool value => cases h
    | integer value => cases h
    | float value => cases h
    | string value => cases h
    | array items => cases h
  · intro hread
    exact ⟨_, hread, rfl⟩

/-- No section of a dictionary that is read from a file is there twice. -/
theorem nodup_of_load {path : Path} {dictionary : Dictionary}
    (h : load tree path = .ok dictionary) : (dictionary.sections.map (·.1)).Nodup := by
  obtain ⟨text, -, hread⟩ := load_eq_ok_iff.mp h
  exact (Json.distinct_object_iff.mp (Json.distinct_of_read hread)).1

/-! ### Dictionaries that come up -/

/-- The dictionaries that come up: the empty one, those that are loaded, and what becomes of them
when keys are filled in. -/
inductive Reachable : Dictionary → Prop where
  | empty : Reachable .empty
  | load {tree : Tree} {path : Path} {dictionary : Dictionary}
      (hload : Dictionary.load tree path = .ok dictionary) : Reachable dictionary
  | backfill {dictionary : Dictionary} (hdictionary : Reachable dictionary) (keys : List String) :
      Reachable (dictionary.backfill keys).1

/-- The dictionary as a value. -/
def toJson (dictionary : Dictionary) : Json :=
  .object dictionary.sections

/-- The entries of a section can be read where a section stands. -/
theorem readableAt_section? {dictionary : Dictionary} (h : dictionary.toJson.ReadableAt 0)
    {name : String} {entries : List (String × Json)}
    (hentries : dictionary.section? name = some entries) : (Json.object entries).ReadableAt 1 := by
  unfold section? at hentries
  split at hentries
  · obtain rfl := Option.some.inj hentries
    exact .object (by decide) List.nodup_nil (by simp)
  · rename_i hmember
    obtain rfl := Option.some.inj hentries
    obtain ⟨-, -, hmembers⟩ := Json.ReadableAt.object_iff.mp h
    exact hmembers _ (Json.mem_of_member? hmember)
  · cases hentries

/-- A text for a gap leaves a dictionary readable. -/
theorem readableAt_withLabel {dictionary : Dictionary} (h : dictionary.toJson.ReadableAt 0)
    {key : LabelKey} (hgap : dictionary.IsGap key) :
    (toJson (dictionary.withLabel key)).ReadableAt 0 := by
  have hsection := readableAt_section? h hgap.section?_eq
  exact h.object_insert _ (hsection.object_insert _ (.string _ _))

theorem readableAt_backfill {dictionary : Dictionary} (h : dictionary.toJson.ReadableAt 0)
    (keys : List String) : (dictionary.backfill keys).1.toJson.ReadableAt 0 := by
  induction keys generalizing dictionary with
  | nil => exact h
  | cons text keys ih =>
    rw [backfill_cons]
    cases hgap : dictionary.gap? text with
    | none =>
      rw [(backfillKey_of_no_gap hgap).1]
      exact ih h
    | some key =>
      rw [backfillKey_of_gap hgap]
      exact ih (readableAt_withLabel h (gap?_eq_some_iff.mp hgap).1)

/-- Every dictionary that comes up can be read. -/
theorem Reachable.readableAt {dictionary : Dictionary} (h : Reachable dictionary) :
    dictionary.toJson.ReadableAt 0 := by
  induction h with
  | empty => exact .object (by decide) List.nodup_nil (by simp [Dictionary.empty])
  | load hload =>
    obtain ⟨text, -, hread⟩ := load_eq_ok_iff.mp hload
    exact Json.readableAt_of_read hread
  | backfill hdictionary keys ih => exact readableAt_backfill ih keys

/-! ### Loading what has been saved -/

/-- A dictionary that comes up and whose numbers are exact is read back from its text, with all
sections and entries in their order and all texts as they were; the text of what is read back is the
same, and a dictionary that has been saved is what is loaded afterwards. -/
theorem read_toText_of_reachable {dictionary : Dictionary} (hreachable : Reachable dictionary)
    (hexact : dictionary.toJson.IsExact) :
    (∃ value reread, Json.read dictionary.toText = .ok value ∧ ofJson? value = some reread ∧
      reread = dictionary ∧ reread.toText = dictionary.toText) ∧
    ∀ (tree after : Tree) (path : Path), dictionary.save tree path = (after, none) →
      load after path = .ok dictionary := by
  have hread : Json.read dictionary.toText = .ok dictionary.toJson :=
    Json.read_pretty hreachable.readableAt hexact
  refine ⟨⟨_, dictionary, hread, rfl, rfl, rfl⟩, fun tree after path hsave ↦ ?_⟩
  exact load_eq_ok_iff.mpr ⟨_, Tree.readText_of_save hsave, hread⟩

/-- A file with a dictionary: a text with a control character, a quote, a backslash and a character
outside the basic plane, and a value that is no text. -/
def signTree : Tree := ⟨[(["labels.json"], .file (.text
  "\x7b\"sign\": \x7b\"exit\": \"\\u0001\\\"\\\\\\ud83d\\udeaa\", \"sizes\": [-5, 18446744073709551615, null, true]\x7d\x7d"))], []⟩

/-- The dictionary in the file. -/
def signs : Dictionary := ⟨[("sign", .object [
  ("exit", .string "\x01\"\\🚪"),
  ("sizes", .array [.integer (-5), .integer 18446744073709551615, .null, .bool true])])]⟩

/-- The dictionary is read back with the label that has been filled in. -/
theorem read_toText_of_reachable_signs :
    load signTree ⟨"labels.json"⟩ = .ok signs ∧
      (signs.backfill ["yard.fence"]).1.sections =
        signs.sections ++ [("yard", .object [("fence", .string "Забор")])] ∧
      ∃ value, Json.read (signs.backfill ["yard.fence"]).1.toText = .ok value ∧
        ofJson? value = some (signs.backfill ["yard.fence"]).1 := by
  have hload : load signTree ⟨"labels.json"⟩ = .ok signs := rfl
  have hsections : (signs.backfill ["yard.fence"]).1.sections =
      signs.sections ++ [("yard", .object [("fence", .string "Забор")])] := rfl
  have hsizes : (Json.array
      [.integer (-5), .integer 18446744073709551615, .null, .bool true]).IsExact := by
    refine .array ?_
    simp only [List.forall_mem_cons]
    exact ⟨.integer ⟨by decide, by decide⟩, .integer ⟨by decide, by decide⟩, .null, .bool true,
      fun _ ↦ nofun⟩
  have hexact : (signs.backfill ["yard.fence"]).1.toJson.IsExact := by
    rw [toJson, hsections]
    refine .object (List.forall_mem_cons.mpr ⟨.object ?_, List.forall_mem_singleton.mpr ?_⟩)
    · exact List.forall_mem_cons.mpr ⟨.string _, List.forall_mem_singleton.mpr hsizes⟩
    · exact .object (List.forall_mem_singleton.mpr (.string _))
  obtain ⟨⟨value, reread, hread, hvalue, rfl, -⟩, -⟩ :=
    read_toText_of_reachable (.backfill (.load hload) ["yard.fence"]) hexact
  exact ⟨hload, hsections, value, hread, hvalue⟩

end Dictionary

end CalculatorCatalog
