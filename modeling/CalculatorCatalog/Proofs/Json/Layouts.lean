import CalculatorCatalog.Proofs.Json.Floats

/-!
# The tokens of whole values

`IsValue` is the grammar of values over tokens: which sequences of tokens make up one value that can
be passed over. Neither the size of numbers nor the nesting is limited, and strings may hold escapes
that stand for no character.

A value has the same tokens in both of its layouts, indented and without blanks (`tokensOf`), and
they are read wherever its text stands, up to what could belong to a number
(`reads_compactText`, `reads_prettyText`). They make up a value (`isValue_tokensOf`), infinite
numbers and those beyond 64 bits included.
-/

set_option autoImplicit false
set_option relaxedAutoImplicit false

namespace CalculatorCatalog.Json

open CalculatorCatalog.Number

deriving instance DecidableEq for Token

/-! ### The grammar of values -/

/-- The tokens of a member, with the value of its name. -/
def memberTokens (member : Except Fault String × List Token) : List Token :=
  .string member.1 (.ok ()) :: .colon :: member.2

/-- The tokens of a value that can be passed over. -/
inductive IsValue : List Token → Prop where
  | null : IsValue [.null]
  | bool (value : Bool) : IsValue [.bool value]
  | string (value : Except Fault String) : IsValue [.string value (.ok ())]
  | number (value : Except Fault Numeral) : IsValue [.number value (.ok ())]
  | array {items : List (List Token)} (hitems : ∀ item ∈ items, IsValue item) :
      IsValue (.openArray :: ([.comma].intercalate items ++ [.closeArray]))
  | object {members : List (Except Fault String × List Token)}
      (hmembers : ∀ member ∈ members, IsValue member.2) :
      IsValue (.openObject :: ([.comma].intercalate (members.map memberTokens) ++ [.closeObject]))

/-! ### Texts that are read wherever they stand -/

/-- The tokens of a text, whatever comes after it and does not belong to a number. -/
def Reads (text : List Char) (read : List Token) : Prop :=
  ∀ rest, EndsNumber rest → tokens (text ++ rest) = read ++ tokens rest

theorem endsNumber_nil : EndsNumber [] := by
  rintro c ⟨⟩

theorem endsNumber_of_isSpace {c : Char} (h : isSpace c = true) (text : List Char) :
    EndsNumber (c :: text) := by
  simp only [isSpace, Bool.or_eq_true, beq_iff_eq] at h
  obtain ((rfl | rfl) | rfl) | rfl := h <;> exact endsNumber_cons (by decide) text

theorem tokens_blank {blank : List Char} (h : blank.all isSpace = true) (text : List Char) :
    tokens (blank ++ text) = tokens text := by
  induction blank with
  | nil => rfl
  | cons c blank ih =>
    rw [List.all_cons, Bool.and_eq_true] at h
    rw [List.cons_append, tokens_space h.1, ih h.2]

theorem endsNumber_blank {blank text : List Char} (h : blank.all isSpace = true)
    (htext : EndsNumber text) : EndsNumber (blank ++ text) := by
  cases blank with
  | nil => exact htext
  | cons c blank =>
    rw [List.all_cons, Bool.and_eq_true] at h
    exact endsNumber_of_isSpace h.1 _

theorem all_isSpace_lineBreak (level : Nat) : (lineBreak level).all isSpace = true := by
  rw [lineBreak, List.all_cons, List.all_replicate]
  split_ifs <;> rfl

namespace Reads

variable {text : List Char} {read : List Token}

/-- A text on its own. -/
theorem tokens_eq (h : Reads text read) : tokens text = read := by
  have hown := h [] endsNumber_nil
  rw [List.append_nil] at hown
  rw [hown]
  exact List.append_nil read

theorem blank (h : Reads text read) {blank : List Char} (hblank : blank.all isSpace = true) :
    Reads (blank ++ text) read := by
  intro rest hrest
  rw [List.append_assoc, tokens_blank hblank, h rest hrest]

/-- The name of a member, its colon and its value. -/
theorem member (h : Reads text read) (name : String) (blank : List Char)
    (hblank : blank.all isSpace = true) :
    Reads (quote name ++ ':' :: (blank ++ text)) (memberTokens (.ok name, read)) := by
  intro rest hrest
  rw [List.append_assoc, List.cons_append, tokens_quote, tokens_colon, h.blank hblank rest hrest]
  rfl

/-- Texts with commas between them. -/
theorem intercalate {α : Type} {print : α → List Char} {tokensOf : α → List Token}
    {items : List α} (h : ∀ item ∈ items, Reads (print item) (tokensOf item)) :
    Reads ([','].intercalate (items.map print)) ([.comma].intercalate (items.map tokensOf)) := by
  induction items with
  | nil => exact fun _ _ ↦ rfl
  | cons item items ih =>
    obtain ⟨hitem, hitems⟩ := List.forall_mem_cons.mp h
    cases items with
    | nil => simpa using hitem
    | cons next items =>
      intro rest hrest
      simp only [List.map_cons, List.intercalate_cons_cons] at ih ⊢
      rw [List.append_assoc, List.append_assoc, List.singleton_append, List.append_assoc,
        List.append_assoc, List.singleton_append, hitem _ (endsNumber_cons (by decide) _),
        tokens_comma, ih hitems rest hrest]

/-- A text in brackets, with blanks before the closing one. -/
theorem enclose {opening closing : Char} {first last : Token} (h : Reads text read)
    (hopening : ∀ text, tokens (opening :: text) = first :: tokens text)
    (hclosing : ∀ text, tokens (closing :: text) = last :: tokens text)
    (hends : ∀ text, EndsNumber (closing :: text)) (blank : List Char)
    (hblank : blank.all isSpace = true) :
    Reads (opening :: (text ++ (blank ++ [closing]))) (first :: (read ++ [last])) := by
  intro rest _
  rw [List.cons_append, hopening, List.append_assoc, List.append_assoc, List.singleton_append,
    h _ (endsNumber_blank hblank (hends rest)), tokens_blank hblank, hclosing]
  simp

end Reads

/-! ### Layouts as lists with commas -/

/-- What writes items one by one with commas between them writes a list with commas. -/
theorem eq_intercalate {α : Type} (write : List α → List Char) {print : α → List Char}
    (hnil : write [] = []) (hone : ∀ item, write [item] = print item)
    (hmore : ∀ item next items, write (item :: next :: items) =
      print item ++ ',' :: write (next :: items)) (items : List α) :
    write items = [','].intercalate (items.map print) := by
  induction items with
  | nil => exact hnil
  | cons item items ih =>
    cases items with
    | nil => rw [hone, List.map_singleton, List.intercalate_singleton]
    | cons next items =>
      rw [hmore, ih, List.map_cons, List.map_cons, List.map_cons, List.intercalate_cons_cons,
        List.append_assoc, List.singleton_append]

theorem compactItems_eq (items : List Json) :
    compactItems items = [','].intercalate (items.map compactText) :=
  eq_intercalate compactItems rfl (fun _ ↦ rfl) (fun _ _ _ ↦ rfl) items

theorem compactMembers_eq (members : List (String × Json)) :
    compactMembers members =
      [','].intercalate (members.map fun member ↦
        quote member.1 ++ ':' :: ([] ++ compactText member.2)) :=
  eq_intercalate compactMembers rfl (fun _ ↦ rfl) (fun _ _ _ ↦ rfl) members

theorem prettyItems_eq (level : Nat) (items : List Json) :
    prettyItems level items =
      [','].intercalate (items.map fun item ↦ lineBreak level ++ prettyText level item) :=
  eq_intercalate (prettyItems level) rfl (fun _ ↦ rfl) (fun _ _ _ ↦ rfl) items

theorem prettyMembers_eq (level : Nat) (members : List (String × Json)) :
    prettyMembers level members =
      [','].intercalate (members.map fun member ↦
        lineBreak level ++ (quote member.1 ++ ':' :: ([' '] ++ prettyText level member.2))) :=
  eq_intercalate (prettyMembers level) rfl (fun _ ↦ List.append_assoc ..)
    (fun _ _ _ ↦ congrArg (· ++ _) (List.append_assoc ..)) members

/-! ### The tokens of a value -/

/-- Induction on values, with all items of an array and all members of an object at once. -/
@[elab_as_elim]
theorem induction {motive : Json → Prop} (null : motive .null)
    (bool : ∀ value, motive (.bool value)) (integer : ∀ value, motive (.integer value))
    (float : ∀ value, motive (.float value)) (string : ∀ value, motive (.string value))
    (array : ∀ items, (∀ item ∈ items, motive item) → motive (.array items))
    (object : ∀ members, (∀ member ∈ members, motive member.2) → motive (.object members))
    (value : Json) : motive value :=
  @Json.rec motive (fun items ↦ ∀ item ∈ items, motive item)
    (fun members ↦ ∀ member ∈ members, motive member.2) (fun member ↦ motive member.2)
    null bool integer float string array object (by simp)
    (fun _ _ hvalue hitems ↦ List.forall_mem_cons.mpr ⟨hvalue, hitems⟩) (by simp)
    (fun _ _ hmember hmembers ↦ List.forall_mem_cons.mpr ⟨hmember, hmembers⟩)
    (fun _ _ hvalue ↦ hvalue) value

/-- The tokens of a value. -/
def tokensOf (value : Json) : List Token :=
  tokens (compactText value)

theorem reads_null : Reads (compactText .null) [.null] :=
  fun rest _ ↦ tokens_null rest

theorem reads_bool (value : Bool) : Reads (compactText (.bool value)) [.bool value] :=
  fun rest _ ↦ tokens_boolText value rest

theorem reads_string (value : String) :
    Reads (compactText (.string value)) [.string (.ok value) (.ok ())] :=
  fun rest _ ↦ tokens_quote value rest

/-- A whole number of any size is one token. -/
theorem exists_reads_integer (value : Int) :
    ∃ numeral, Reads (compactText (.integer value)) [.number numeral (.ok ())] := by
  refine ⟨numeralOfParts (decide (value < 0)) (wholeParts value.natAbs), fun rest hrest ↦ ?_⟩
  rw [compactText, integerText_eq, List.append_assoc,
    tokens_signText _ (isProper_wholeParts _) hrest]
  rfl

/-- Any other number is one token, which is null if it is not finite. -/
theorem exists_reads_float (value : Binary64) :
    Reads (compactText (.float value)) [.null] ∨
      ∃ numeral, Reads (compactText (.float value)) [.number numeral (.ok ())] := by
  cases value with
  | finite negative units =>
    obtain ⟨numeral, htokens⟩ := tokens_floatText_finite negative units
    exact .inr ⟨numeral, htokens⟩
  | infinite negative => exact .inl reads_null
  | nan => exact .inl reads_null

theorem reads_compactText_array {items : List Json}
    (h : ∀ item ∈ items, Reads (compactText item) (tokensOf item)) :
    Reads (compactText (.array items))
      (.openArray :: ([.comma].intercalate (items.map tokensOf) ++ [.closeArray])) := by
  rw [compactText, compactItems_eq]
  exact (Reads.intercalate h).enclose tokens_openArray tokens_closeArray
    (endsNumber_cons (by decide)) [] rfl

/-- A member of an object of values, with the tokens of its value. -/
def namedTokens (member : String × Json) : List Token :=
  memberTokens (.ok member.1, tokensOf member.2)

theorem reads_compactText_object {members : List (String × Json)}
    (h : ∀ member ∈ members, Reads (compactText member.2) (tokensOf member.2)) :
    Reads (compactText (.object members))
      (.openObject :: ([.comma].intercalate (members.map namedTokens) ++ [.closeObject])) := by
  rw [compactText, compactMembers_eq]
  exact (Reads.intercalate fun member hmember ↦ (h member hmember).member member.1 [] rfl).enclose
    tokens_openObject tokens_closeObject (endsNumber_cons (by decide)) [] rfl

/-- The text of a value is read as it is on its own. -/
theorem reads_compactText (value : Json) : Reads (compactText value) (tokensOf value) := by
  have hown {read : List Token} {value : Json} (h : Reads (compactText value) read) :
      Reads (compactText value) (tokensOf value) := by
    rw [tokensOf, h.tokens_eq]
    exact h
  induction value using Json.induction with
  | null => exact hown reads_null
  | bool value => exact hown (reads_bool value)
  | integer value =>
    obtain ⟨numeral, hread⟩ := exists_reads_integer value
    exact hown hread
  | float value =>
    obtain hread | ⟨numeral, hread⟩ := exists_reads_float value
    · exact hown hread
    · exact hown hread
  | string value => exact hown (reads_string value)
  | array items ih => exact hown (reads_compactText_array ih)
  | object members ih => exact hown (reads_compactText_object ih)

theorem tokensOf_string (value : String) :
    tokensOf (.string value) = [.string (.ok value) (.ok ())] :=
  (reads_string value).tokens_eq

theorem tokensOf_array (items : List Json) :
    tokensOf (.array items) =
      .openArray :: ([.comma].intercalate (items.map tokensOf) ++ [.closeArray]) :=
  (reads_compactText_array fun item _ ↦ reads_compactText item).tokens_eq

theorem tokensOf_object (members : List (String × Json)) :
    tokensOf (.object members) =
      .openObject :: ([.comma].intercalate (members.map namedTokens) ++ [.closeObject]) :=
  (reads_compactText_object fun member _ ↦ reads_compactText member.2).tokens_eq

/-- The indented text of a value has the same tokens. -/
theorem reads_prettyText (level : Nat) (value : Json) :
    Reads (prettyText level value) (tokensOf value) := by
  induction value using Json.induction generalizing level with
  | array items ih =>
    cases items with
    | nil => exact reads_compactText (.array [])
    | cons first items =>
      rw [tokensOf_array, prettyText, prettyItems_eq, List.cons_append, List.cons_append,
        List.append_assoc]
      exact (Reads.intercalate fun item hitem ↦
        (ih item hitem (level + 1)).blank (all_isSpace_lineBreak _)).enclose
          tokens_openArray tokens_closeArray (endsNumber_cons (by decide))
          _ (all_isSpace_lineBreak level)
  | object members ih =>
    cases members with
    | nil => exact reads_compactText (.object [])
    | cons first members =>
      rw [tokensOf_object, prettyText, prettyMembers_eq, List.cons_append, List.cons_append,
        List.append_assoc]
      exact (Reads.intercalate fun member hmember ↦
        ((ih member hmember (level + 1)).member member.1 [' '] rfl).blank
          (all_isSpace_lineBreak _)).enclose
            tokens_openObject tokens_closeObject (endsNumber_cons (by decide))
            _ (all_isSpace_lineBreak level)
  | null => exact reads_compactText .null
  | bool value => exact reads_compactText (.bool value)
  | integer value => exact reads_compactText (.integer value)
  | float value => exact reads_compactText (.float value)
  | string value => exact reads_compactText (.string value)

theorem Reads.isValue_tokensOf {value : Json} {read : List Token}
    (h : Reads (compactText value) read) (hread : IsValue read) : IsValue (tokensOf value) := by
  rw [tokensOf, h.tokens_eq]
  exact hread

/-- What is written for a value makes up a value. -/
theorem isValue_tokensOf (value : Json) : IsValue (tokensOf value) := by
  induction value using Json.induction with
  | null => exact reads_null.isValue_tokensOf .null
  | bool value => exact (reads_bool value).isValue_tokensOf (.bool value)
  | integer value =>
    obtain ⟨numeral, hread⟩ := exists_reads_integer value
    exact hread.isValue_tokensOf (.number numeral)
  | float value =>
    obtain hread | ⟨numeral, hread⟩ := exists_reads_float value
    · exact hread.isValue_tokensOf .null
    · exact hread.isValue_tokensOf (.number numeral)
  | string value => exact (reads_string value).isValue_tokensOf (.string (.ok value))
  | array items ih =>
    rw [tokensOf_array]
    refine .array fun item hitem ↦ ?_
    obtain ⟨value, hvalue, rfl⟩ := List.mem_map.mp hitem
    exact ih value hvalue
  | object members ih =>
    have htokens : members.map namedTokens =
        (members.map fun member ↦ (Except.ok member.1, tokensOf member.2)).map memberTokens := by
      rw [List.map_map]
      rfl
    rw [tokensOf_object, htokens]
    refine .object fun item hitem ↦ ?_
    obtain ⟨member, hmember, rfl⟩ := List.mem_map.mp hitem
    exact ih member hmember

end CalculatorCatalog.Json
