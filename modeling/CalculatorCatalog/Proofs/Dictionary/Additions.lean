import CalculatorCatalog.Proofs.Dictionary.Filling

/-!
# Filling in only adds

A dictionary grows if its sections stay in their order with all they hold, some mappings with
further entries at the end, and new sections follow that are mappings with at least one entry
(`SectionsGrow`). One key lets a dictionary grow or leaves it as it is (`sectionsGrow_backfillKey`),
and growing is transitive, so any keys do. What is lost in no place is lost at no depth
(`SectionsGrow.valueAt?_eq`).

The outcomes account for all that is new: each section is followed by the entries of the outcomes
that were entered in it, in their order (`section?_backfill`). `backfill_onlyAdds` puts the parts
together; it holds of every dictionary and of all keys, repeated ones included.
-/

set_option autoImplicit false
set_option relaxedAutoImplicit false

namespace CalculatorCatalog

open CalculatorCatalog.Naming

/-! ### Values at any depth -/

namespace Json

/-- A step into a value. -/
inductive Step where
  | member (name : String)
  | item (index : Nat)
  deriving DecidableEq, Repr

/-- The value to which a step leads. -/
def step? : Json → Step → Option Json
  | .object members, .member name => member? name members
  | .array items, .item index => items[index]?
  | _, _ => none

/-- The value to which steps lead, one after the other. -/
def valueAt? : Json → List Step → Option Json
  | value, [] => some value
  | value, step :: path => (value.step? step).bind fun inner ↦ valueAt? inner path

end Json

namespace Dictionary

/-! ### Growing -/

/-- Sections that are mappings with at least one entry. -/
def AreFilled (sections : List (String × Json)) : Prop :=
  ∀ member ∈ sections, ∃ entries, entries ≠ [] ∧ member.2 = .object entries

/-- How the sections of a dictionary grow: each stays in its place, unchanged or as a mapping with
further entries at its end, and behind them there are new sections, none of them empty. -/
inductive SectionsGrow : List (String × Json) → List (String × Json) → Prop
  | added {sections : List (String × Json)} (h : AreFilled sections) : SectionsGrow [] sections
  | kept (member : String × Json) {old new : List (String × Json)} (h : SectionsGrow old new) :
    SectionsGrow (member :: old) (member :: new)
  | extended (name : String) (entries further : List (String × Json))
      {old new : List (String × Json)} (h : SectionsGrow old new) :
    SectionsGrow ((name, .object entries) :: old) ((name, .object (entries ++ further)) :: new)

namespace SectionsGrow

variable {old middle new : List (String × Json)} {name : String}

theorem refl (sections : List (String × Json)) : SectionsGrow sections sections := by
  induction sections with
  | nil => exact .added (List.forall_mem_nil _)
  | cons member sections ih => exact .kept member ih

theorem areFilled (h : SectionsGrow old new) (hfilled : AreFilled old) : AreFilled new := by
  induction h with
  | added h => exact h
  | kept member h ih =>
    rw [AreFilled, List.forall_mem_cons] at hfilled ⊢
    exact ⟨hfilled.1, ih hfilled.2⟩
  | extended name entries further h ih =>
    rw [AreFilled, List.forall_mem_cons] at hfilled ⊢
    obtain ⟨⟨entries', hentries, heq⟩, hfilled⟩ := hfilled
    obtain rfl := Json.object.inj heq
    exact ⟨⟨_, List.append_ne_nil_of_left_ne_nil hentries further, rfl⟩, ih hfilled⟩

theorem trans (h : SectionsGrow old middle) (h' : SectionsGrow middle new) :
    SectionsGrow old new := by
  induction h generalizing new with
  | added hfilled => exact .added (h'.areFilled hfilled)
  | kept member h ih =>
    cases h' with
    | kept _ h' => exact .kept member (ih h')
    | extended name entries further h' => exact .extended name entries further (ih h')
  | extended name entries further h ih =>
    cases h' with
    | kept _ h' => exact .extended name entries further (ih h')
    | extended _ _ further' h' =>
      rw [List.append_assoc]
      exact .extended name entries (further ++ further') (ih h')

/-- A section that was there is there, with further entries if it is a mapping. -/
theorem member?_eq (h : SectionsGrow old new) {value : Json}
    (hvalue : Json.member? name old = some value) :
    Json.member? name new = some value ∨ ∃ entries further, value = .object entries ∧
      Json.member? name new = some (.object (entries ++ further)) := by
  induction h with
  | added h => cases hvalue
  | kept member h ih =>
    rw [Json.member?] at hvalue ⊢
    split_ifs at hvalue ⊢ with hname
    · exact .inl hvalue
    · exact ih hvalue
  | extended other entries further h ih =>
    rw [Json.member?] at hvalue ⊢
    split_ifs at hvalue ⊢ with hname
    · exact .inr ⟨entries, further, (Option.some.inj hvalue).symm, rfl⟩
    · exact ih hvalue

/-- What a dictionary holds at any depth it still holds there when it has grown, unchanged unless it
is one of the two kinds of mapping that grow: the dictionary itself and its sections. -/
theorem valueAt?_eq (h : SectionsGrow old new) {path : List Json.Step} {value : Json}
    (hvalue : (Json.object old).valueAt? path = some value)
    (hinside : 2 ≤ path.length ∨ ∀ members, value ≠ .object members) :
    (Json.object new).valueAt? path = some value := by
  match path with
  | [] =>
    obtain rfl := Option.some.inj hvalue
    simp at hinside
  | .item index :: path => cases hvalue
  | [.member name] =>
    rw [Json.valueAt?, Json.step?] at hvalue ⊢
    obtain ⟨inner, hinner, heq⟩ := Option.bind_eq_some_iff.mp hvalue
    obtain rfl := Option.some.inj heq
    obtain hsame | ⟨entries, further, rfl, -⟩ := h.member?_eq hinner
    · rw [hsame]
      rfl
    · simp at hinside
  | .member name :: step :: path =>
    rw [Json.valueAt?, Json.step?] at hvalue ⊢
    obtain ⟨inner, hinner, hpath⟩ := Option.bind_eq_some_iff.mp hvalue
    obtain hsame | ⟨entries, further, rfl, hextended⟩ := h.member?_eq hinner
    · rw [hsame]
      exact hpath
    · rw [hextended, Option.bind_some, Json.valueAt?]
      rw [Json.valueAt?] at hpath
      obtain ⟨deeper, hdeeper, hrest⟩ := Option.bind_eq_some_iff.mp hpath
      cases step with
      | item index => cases hdeeper
      | member short =>
        rw [Json.step?] at hdeeper ⊢
        rw [Json.member?_append, hdeeper]
        exact hrest

/-- A mapping that gets further entries lets the sections grow. -/
theorem insert_of_member? {entries : List (String × Json)} (further : List (String × Json))
    (h : Json.member? name old = some (.object entries)) :
    SectionsGrow old (Json.insert name (.object (entries ++ further)) old) := by
  induction old with
  | nil => cases h
  | cons member old ih =>
    obtain ⟨other, value⟩ := member
    rw [Json.member?] at h
    rw [Json.insert]
    split_ifs at h ⊢ with hname
    · obtain rfl := Option.some.inj h
      exact .extended other entries further (refl old)
    · exact .kept _ (ih h)

/-- A new mapping with entries lets the sections grow. -/
theorem insert_of_new {entries : List (String × Json)} (hentries : entries ≠ [])
    (h : Json.member? name old = none) :
    SectionsGrow old (Json.insert name (.object entries) old) := by
  induction old with
  | nil => exact .added fun member hmember ↦
      ⟨entries, hentries, congrArg Prod.snd (List.mem_singleton.mp hmember)⟩
  | cons member old ih =>
    rw [Json.member?] at h
    rw [Json.insert]
    split_ifs at h ⊢ with hname
    exact .kept member (ih h)

end SectionsGrow

/-! ### One key -/

variable {dictionary : Dictionary} {key : LabelKey} {text : String}

/-- The entry that is made for a gap comes at the end of its section. -/
theorem IsGap.withLabel_eq (h : dictionary.IsGap key) :
    ∃ entries, dictionary.section? key.sectionName = some entries ∧
      dictionary.withLabel key = dictionary.setSection key.sectionName
        (entries ++ [(key.short, .string (chooseLabel key.short).1)]) := by
  have hsection := h.section?_eq
  have hshort := h.entry?_eq_none
  rw [entry?_eq_bind, hsection, Option.bind_some] at hshort
  exact ⟨_, hsection, by rw [withLabel, Json.insert_of_member?_eq_none hshort]⟩

theorem sectionsGrow_withLabel (h : dictionary.IsGap key) :
    SectionsGrow dictionary.sections (dictionary.withLabel key).sections := by
  obtain ⟨entries, hsection, hlabel⟩ := h.withLabel_eq
  rw [hlabel, setSection]
  rw [section?] at hsection
  split at hsection
  case h_1 hnone =>
    obtain rfl := Option.some.inj hsection
    exact .insert_of_new (by simp) hnone
  case h_2 members hmembers =>
    obtain rfl := Option.some.inj hsection
    exact .insert_of_member? _ hmembers
  case h_3 => cases hsection

/-- A key lets a dictionary grow or leaves it as it is. -/
theorem sectionsGrow_backfillKey (dictionary : Dictionary) (text : String) :
    SectionsGrow dictionary.sections (dictionary.backfillKey text).1.sections := by
  cases hgap : dictionary.gap? text with
  | none =>
    rw [(backfillKey_of_no_gap hgap).1]
    exact .refl _
  | some key =>
    rw [backfillKey_of_gap hgap]
    exact sectionsGrow_withLabel (gap?_eq_some_iff.mp hgap).1

theorem key_backfillKey (dictionary : Dictionary) (text : String) :
    (dictionary.backfillKey text).2.key = text := by
  rw [backfillKey]
  cases LabelKey.parse? text with
  | none => rfl
  | some key =>
    cases hcontains : dictionary.contains key with
    | true => simp [hcontains, Outcome.key]
    | false =>
      cases hextended : dictionary.insertEntry key (.string (chooseLabel key.short).1) <;>
        simp [hcontains, hextended, Outcome.key]

/-- A key that is not reported as entered changes nothing. -/
theorem backfillKey_of_not_isInserted
    (h : (dictionary.backfillKey text).2.isInserted = false) :
    (dictionary.backfillKey text).1 = dictionary := by
  cases hgap : dictionary.gap? text with
  | none => exact (backfillKey_of_no_gap hgap).1
  | some key =>
    rw [backfillKey_of_gap hgap] at h
    cases h

/-! ### The entries of outcomes -/

/-- The entry that an outcome says was made in a section. -/
def enteredIn? (name : String) : Outcome → Option (String × Json)
  | .inserted text label _ =>
    ((LabelKey.parse? text).filter (·.sectionName = name)).map fun key ↦ (key.short, .string label)
  | _ => none

/-- The entries that outcomes say were made in a section. -/
def enteredIn (name : String) (outcomes : List Outcome) : List (String × Json) :=
  outcomes.filterMap (enteredIn? name)

theorem enteredIn?_of_not_isInserted {outcome : Outcome} (h : outcome.isInserted = false)
    (name : String) : enteredIn? name outcome = none := by
  cases outcome with
  | inserted text label source => cases h
  | present text => rfl
  | malformed text => rfl
  | conflict text other => rfl

/-- A key adds to each section the entry that its outcome says was made there. -/
theorem section?_backfillKey (dictionary : Dictionary) (text name : String) :
    (dictionary.backfillKey text).1.section? name = (dictionary.section? name).map
      (· ++ enteredIn name [(dictionary.backfillKey text).2]) := by
  cases hgap : dictionary.gap? text with
  | none =>
    obtain ⟨hsame, hinserted⟩ := backfillKey_of_no_gap hgap
    rw [hsame, enteredIn, List.filterMap_cons_none (enteredIn?_of_not_isInserted hinserted name)]
    simp
  | some key =>
    obtain ⟨hkey, rfl⟩ := gap?_eq_some_iff.mp hgap
    obtain ⟨entries, hsection, hlabel⟩ := hkey.withLabel_eq
    rw [backfillKey_of_gap hgap, enteredIn]
    simp only [hlabel, section?_setSection]
    by_cases hname : name = key.sectionName
    · subst hname
      simp [hsection, enteredIn?, LabelKey.parse?_dotted hkey.isWellFormed]
    · simp [hname, Ne.symm hname, enteredIn?, LabelKey.parse?_dotted hkey.isWellFormed]

/-! ### All keys -/

theorem map_key_backfill (dictionary : Dictionary) (texts : List String) :
    (dictionary.backfill texts).2.map Outcome.key = texts := by
  induction texts generalizing dictionary with
  | nil => rfl
  | cons text texts ih => rw [backfill_cons, List.map_cons, key_backfillKey, ih]

theorem sectionsGrow_backfill (dictionary : Dictionary) (texts : List String) :
    SectionsGrow dictionary.sections (dictionary.backfill texts).1.sections := by
  induction texts generalizing dictionary with
  | nil => exact .refl _
  | cons text texts ih =>
    rw [backfill_cons]
    exact (sectionsGrow_backfillKey dictionary text).trans (ih _)

/-- Filling in adds to each section the entries that the outcomes say were made there. -/
theorem section?_backfill (dictionary : Dictionary) (texts : List String) (name : String) :
    (dictionary.backfill texts).1.section? name = (dictionary.section? name).map
      (· ++ enteredIn name (dictionary.backfill texts).2) := by
  induction texts generalizing dictionary with
  | nil => simp [backfill, enteredIn]
  | cons text texts ih =>
    rw [backfill_cons, ih, section?_backfillKey, Option.map_map]
    refine congrArg (Option.map · _) (funext fun entries ↦ ?_)
    rw [Function.comp_apply, List.append_assoc, enteredIn, enteredIn, enteredIn,
      ← List.filterMap_append, List.singleton_append]

/-- Filling in some keys and then further ones is filling in all of them. -/
theorem backfill_append (dictionary : Dictionary) (first rest : List String) :
    dictionary.backfill (first ++ rest) =
      (((dictionary.backfill first).1.backfill rest).1,
        (dictionary.backfill first).2 ++ ((dictionary.backfill first).1.backfill rest).2) := by
  induction first generalizing dictionary with
  | nil => rfl
  | cons text first ih => rw [List.cons_append, backfill_cons, ih, backfill_cons, List.cons_append]

/-- Where no outcome says that an entry was made, nothing has changed. -/
theorem backfill_of_not_isChangedBy {texts : List String}
    (h : isChangedBy (dictionary.backfill texts).2 = false) :
    (dictionary.backfill texts).1 = dictionary := by
  induction texts with
  | nil => rfl
  | cons text texts ih =>
    rw [backfill_cons, isChangedBy, List.any_cons, Bool.or_eq_false_iff] at h
    have hsame := backfillKey_of_not_isInserted h.1
    rw [hsame] at h
    rw [backfill_cons, hsame]
    exact ih h.2

/-- An entry is new exactly if an outcome says that it was made. -/
theorem isNew_iff_inserted (dictionary : Dictionary) (texts : List String) (key : LabelKey)
    (value : Json) :
    dictionary.entry? key = none ∧ entry? (dictionary.backfill texts).1 key = some value ↔
      ∃ text label source, .inserted text label source ∈ (dictionary.backfill texts).2 ∧
        LabelKey.parse? text = some key ∧ value = .string label := by
  constructor
  · rintro ⟨hnone, hsome⟩
    rw [entry?_backfill] at hsome
    split_ifs at hsome with hfilled
    · obtain rfl := Option.some.inj hsome
      exact ⟨key.dotted, _, _, (inserted_mem_backfill_iff dictionary texts).mpr
        ⟨hfilled.2, key, hfilled.1, rfl⟩,
        LabelKey.parse?_dotted (gap?_eq_some_iff.mp hfilled.1).1.isWellFormed, rfl⟩
    · rw [hnone] at hsome
      cases hsome
  · rintro ⟨text, label, source, hmem, hparse, rfl⟩
    obtain ⟨htext, other, hgap, hlabel⟩ := (inserted_mem_backfill_iff dictionary texts).mp hmem
    obtain ⟨hother, rfl⟩ := gap?_eq_some_iff.mp hgap
    rw [LabelKey.parse?_dotted hother.isWellFormed] at hparse
    obtain rfl := Option.some.inj hparse
    refine ⟨hother.entry?_eq_none, ?_⟩
    rw [entry?_backfill, if_pos ⟨hgap, htext⟩, ← congrArg Prod.fst hlabel]

/-- Outcomes that say that an entry was made mean that the dictionary has changed, and others mean
that it has not. -/
theorem isChangedBy_backfill_iff (dictionary : Dictionary) (texts : List String) :
    isChangedBy (dictionary.backfill texts).2 = true ↔
      (dictionary.backfill texts).1 ≠ dictionary := by
  constructor
  · intro hchanged hsame
    obtain ⟨outcome, hmem, hinserted⟩ := List.any_eq_true.mp hchanged
    cases outcome with
    | inserted text label source =>
      obtain ⟨-, key, hgap, -⟩ := (inserted_mem_backfill_iff dictionary texts).mp hmem
      obtain ⟨hkey, rfl⟩ := gap?_eq_some_iff.mp hgap
      obtain ⟨hnone, hsome⟩ := (isNew_iff_inserted dictionary texts key (.string label)).mpr
        ⟨_, label, source, hmem, LabelKey.parse?_dotted hkey.isWellFormed, rfl⟩
      rw [hsame, hnone] at hsome
      cases hsome
    | present text => cases hinserted
    | malformed text => cases hinserted
    | conflict text other => cases hinserted
  · intro hchanged
    by_contra hnot
    exact hchanged (backfill_of_not_isChangedBy (Bool.eq_false_iff.mpr hnot))

/-- What filling in does to a dictionary is to add to it, and the outcomes say what. -/
structure OnlyAdds (dictionary : Dictionary) (texts : List String)
    (filled : Dictionary × List Outcome) : Prop where
  /-- There is one outcome for each key, in the order of the keys. -/
  keys_eq : filled.2.map Outcome.key = texts
  /-- All sections stay where they are with all their entries, and no section is new without one. -/
  sectionsGrow : SectionsGrow dictionary.sections filled.1.sections
  /-- What is there at any depth stays, but for the mappings that get new members. -/
  valueAt?_eq : ∀ path value, (Json.object dictionary.sections).valueAt? path = some value →
    (2 ≤ path.length ∨ ∀ members, value ≠ .object members) →
      (Json.object filled.1.sections).valueAt? path = some value
  /-- In each section the entries that were made in it follow those that were there. -/
  entries_eq : ∀ name, filled.1.section? name =
    (dictionary.section? name).map (· ++ enteredIn name filled.2)
  /-- An entry is new exactly if it was made. -/
  isNew_iff : ∀ key value, dictionary.entry? key = none ∧ entry? filled.1 key = some value ↔
    ∃ text label source, .inserted text label source ∈ filled.2 ∧
      LabelKey.parse? text = some key ∧ value = .string label
  /-- A key that was not entered leaves the dictionary as it is when its turn comes. -/
  unchanged : ∀ first text rest outcome, texts = first ++ text :: rest →
    filled.2[first.length]? = some outcome → outcome.isInserted = false →
      (dictionary.backfill (first ++ [text])).1 = (dictionary.backfill first).1
  /-- The dictionary has changed exactly if the outcomes say so. -/
  isChangedBy_iff : isChangedBy filled.2 = true ↔ filled.1 ≠ dictionary

/-- Filling in keys only adds to a dictionary. -/
theorem backfill_onlyAdds (dictionary : Dictionary) (texts : List String) :
    OnlyAdds dictionary texts (dictionary.backfill texts) where
  keys_eq := map_key_backfill dictionary texts
  sectionsGrow := sectionsGrow_backfill dictionary texts
  valueAt?_eq := fun _ _ hvalue hinside ↦
    (sectionsGrow_backfill dictionary texts).valueAt?_eq hvalue hinside
  entries_eq := section?_backfill dictionary texts
  isNew_iff := isNew_iff_inserted dictionary texts
  unchanged := by
    rintro first text rest outcome rfl houtcome hinserted
    have hlength : (dictionary.backfill first).2.length = first.length := by
      rw [← List.length_map Outcome.key, map_key_backfill]
    rw [backfill_append, backfill_cons, ← hlength, List.getElem?_append_right (Nat.le_refl _),
      Nat.sub_self, List.getElem?_cons_zero] at houtcome
    obtain rfl := Option.some.inj houtcome
    rw [backfill_append, backfill_cons]
    exact backfillKey_of_not_isInserted hinserted
  isChangedBy_iff := isChangedBy_backfill_iff dictionary texts

end Dictionary

end CalculatorCatalog
