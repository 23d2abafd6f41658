import CalculatorCatalog.Proofs.Definition.Values

/-!
# Finding attributes

Each attribute of a declaration is searched for on its own, by its name and the colon behind it, in
the inside of the declaration with nested text hidden. The name of an attribute is a word that is
preceded by no word character, and what is hidden or literal holds no colon. So a search for one
name passes over every attribute with another name (`AttributeSyntax.exists_passed`), and it finds
the attribute with that name wherever it stands (`AttributeSyntax.exists_first?_of_mem`), or nothing
if there is none (`AttributeSyntax.first?_of_notMem`).
-/

set_option autoImplicit false
set_option relaxedAutoImplicit false

namespace CalculatorCatalog.Definition

open CalculatorCatalog.Text

/-! ### The name of an attribute -/

section Name

variable {name : List Char} {before : Option Char} {text : List Char}

theorem afterAttributeName?_eq_some {rest : List Char}
    (h : afterAttributeName? name before text = some rest) :
    isWordBoundary before text.head? = true ∧
      ∃ gap tail, isBlank gap = true ∧ text = name ++ (gap ++ ':' :: tail) ∧
        rest = skipWhite tail := by
  obtain ⟨after, hword, h⟩ := Option.bind_eq_some_iff.mp h
  obtain ⟨tail, hcolon, heq⟩ := Option.bind_eq_some_iff.mp h
  unfold afterBoundedWord? at hword
  split_ifs at hword with hboundary
  obtain ⟨gap, hgap, rfl⟩ := (afterWord?_skipWhite_eq_some_iff (by decide)).mp hcolon
  refine ⟨hboundary, gap, tail, hgap, afterWord?_eq_some_iff.mp hword, ?_⟩
  exact (Option.some.inj heq).symm

/-- An attribute is recognised by its name and colon where no word precedes it. -/
theorem afterAttributeName?_append (hname : IsWord name) (hbefore : isWordAt before = false)
    {gap : List Char} (hgap : isBlank gap = true) (tail : List Char) :
    afterAttributeName? name before (name ++ (gap ++ ':' :: tail)) = some (skipWhite tail) := by
  have hboundary : isWordBoundary before (name ++ (gap ++ ':' :: tail)).head? = true := by
    rw [isWordBoundary, hbefore, hname.isWordAt_head?]
    rfl
  have hword : afterBoundedWord? name before (name ++ (gap ++ ':' :: tail)) =
      some (gap ++ ':' :: tail) := by
    rw [afterBoundedWord?, if_pos hboundary, afterWord?_append]
  have hcolon : afterWord? [':'] (skipWhite (gap ++ ':' :: tail)) = some tail :=
    (afterWord?_skipWhite_eq_some_iff (by decide)).mpr ⟨gap, hgap, rfl⟩
  rw [afterAttributeName?, hword]
  simp [hcolon]

/-- No attribute begins where no word does. -/
theorem afterAttributeName?_of_not_word (hname : IsWord name) (h : isWordAt text.head? = false) :
    afterAttributeName? name before text = none := by
  refine Option.eq_none_iff_forall_ne_some.mpr fun rest hrest ↦ ?_
  obtain ⟨-, gap, tail, -, rfl, -⟩ := afterAttributeName?_eq_some hrest
  rw [hname.isWordAt_head?] at h
  cases h

/-- No attribute begins inside a word. -/
theorem afterAttributeName?_of_inside (hbefore : isWordAt before = true)
    (h : isWordAt text.head? = true) : afterAttributeName? name before text = none := by
  refine Option.eq_none_iff_forall_ne_some.mpr fun rest hrest ↦ ?_
  have hboundary := (afterAttributeName?_eq_some hrest).1
  rw [isWordBoundary, hbefore, h] at hboundary
  cases hboundary

/-- The name of an attribute is no other attribute's name. -/
theorem afterAttributeName?_of_ne (hname : IsWord name) {other gap : List Char}
    (hother : IsWord other) (hgap : isBlank gap = true) (hne : other ≠ name) (tail : List Char) :
    afterAttributeName? name before (other ++ (gap ++ ':' :: tail)) = none := by
  refine Option.eq_none_iff_forall_ne_some.mpr fun rest hrest ↦ hne ?_
  obtain ⟨-, gap', tail', hgap', htext, -⟩ := afterAttributeName?_eq_some hrest
  have hcolon : isWordCharacter ':' = false := rfl
  rw [← (hother.split hgap hcolon tail).1, htext, (hname.split hgap' hcolon tail').1]

/-- No attribute begins in a text without a colon. -/
theorem afterAttributeName?_of_notMem (h : ':' ∉ text) :
    afterAttributeName? name before text = none := by
  refine Option.eq_none_iff_forall_ne_some.mpr fun rest hrest ↦ ?_
  obtain ⟨-, gap, tail, -, rfl, -⟩ := afterAttributeName?_eq_some hrest
  simp at h

/-- The colon of an attribute does not stand behind a comma. -/
theorem afterAttributeName?_of_comma (hname : IsWord name) (h : ':' ∉ text) (rest : List Char) :
    afterAttributeName? name before (text ++ ',' :: rest) = none := by
  refine Option.eq_none_iff_forall_ne_some.mpr fun left hleft ↦ ?_
  obtain ⟨-, gap, tail, hgap, htext, -⟩ := afterAttributeName?_eq_some hleft
  rw [← List.append_assoc] at htext
  rcases List.append_eq_append_iff.mp htext with ⟨middle, hlong, hshort⟩ | ⟨middle, hlong, hshort⟩
  · -- The comma would stand in the name or in the white space behind it.
    cases middle with
    | nil => cases (List.cons.inj hshort).1
    | cons c middle =>
      obtain ⟨rfl, -⟩ := List.cons.inj hshort
      have hcomma : ',' ∈ name ++ gap := by
        rw [hlong]
        simp
      rcases List.mem_append.mp hcomma with hmem | hmem
      · exact hname.notMem (by decide) hmem
      · exact notMem_gap hgap (by decide) hmem
  · -- The colon would stand before the comma.
    cases middle with
    | nil => cases (List.cons.inj hshort).1
    | cons c middle =>
      obtain ⟨rfl, -⟩ := List.cons.inj hshort
      exact h (by rw [hlong]; simp)

end Name

/-! ### Passing over attributes -/

/-- A recogniser that looks for the name of an attribute and reads what comes after the colon. -/
def ReadsAttribute {α : Type} (name : String) (read : List Char → Option (α × List Char))
    (recognize : Recognizer α) : Prop :=
  ∀ before text,
    recognize before text = (afterAttributeName? name.toList before text).bind read

section Declines

variable {α : Type} {name : String} {read : List Char → Option (α × List Char)}
  {recognize : Recognizer α} {before : Option Char}

theorem ReadsAttribute.eq_none (h : ReadsAttribute name read recognize) {text : List Char}
    (hname : afterAttributeName? name.toList before text = none) :
    recognize before text = none := by
  rw [h, hname]
  rfl

theorem declines_gap (h : ReadsAttribute name read recognize) (hname : IsWord name.toList)
    {gap : List Char} (hgap : isBlank gap = true) (rest : List Char) :
    Declines recognize before gap rest := by
  refine declines_of_forall (fun c hc before text ↦ h.eq_none ?_) before rest
  refine afterAttributeName?_of_not_word hname ?_
  exact isWordCharacter_of_isWhiteSpace (List.all_eq_true.mp hgap c hc)

/-- A search passes over the name of another attribute and its colon. -/
theorem declines_other (h : ReadsAttribute name read recognize) (hname : IsWord name.toList)
    {other gap : List Char} (hother : IsWord other) (hne : other ≠ name.toList)
    (hgap : isBlank gap = true) (rest : List Char) :
    Declines recognize before (other ++ (gap ++ [':'])) rest := by
  have hcolon : Declines recognize (lastOr before (other ++ gap)) [':'] rest :=
    ⟨h.eq_none (afterAttributeName?_of_not_word hname rfl), trivial⟩
  have hword : Declines recognize before other (gap ++ ':' :: rest) := by
    refine declines_word (fun before text hbefore hhead ↦ h.eq_none ?_) hother.word (h.eq_none ?_)
    · exact afterAttributeName?_of_inside hbefore hhead
    · exact afterAttributeName?_of_ne hname hother hgap hne rest
  rw [← List.append_assoc]
  refine declines_append.mpr ⟨declines_append.mpr ⟨?_, ?_⟩, hcolon⟩
  · exact hword
  · exact declines_gap h hname hgap _

/-- A search passes over a value and the comma behind it. -/
theorem declines_value (h : ReadsAttribute name read recognize) (hname : IsWord name.toList)
    {value : List Char} (hvalue : ':' ∉ value) (rest : List Char) :
    Declines recognize before (value ++ [',']) rest := by
  induction value generalizing before with
  | nil => exact ⟨h.eq_none (afterAttributeName?_of_not_word hname rfl), trivial⟩
  | cons c value ih =>
    have htext : c :: (value ++ [','] ++ rest) = (c :: value) ++ ',' :: rest := by simp
    have hplace : afterAttributeName? name.toList before (c :: (value ++ [','] ++ rest)) =
        none := by
      rw [htext]
      exact afterAttributeName?_of_comma hname hvalue rest
    exact ⟨h.eq_none hplace, ih fun hmem ↦ hvalue (List.mem_cons_of_mem c hmem)⟩

/-- A search passes over a value at the end. -/
theorem declines_end (h : ReadsAttribute name read recognize) {value : List Char}
    (hvalue : ':' ∉ value) : Declines recognize before value [] := by
  induction value generalizing before with
  | nil => exact trivial
  | cons c value ih =>
    refine ⟨h.eq_none ?_, ih fun hmem ↦ hvalue (List.mem_cons_of_mem c hmem)⟩
    rw [List.append_nil]
    exact afterAttributeName?_of_notMem hvalue

end Declines

/-! ### Searching a declaration -/

/-- The attributes of a kind of declaration: their names, and how their values are written. -/
structure AttributeSyntax (α : Type) where
  name : α → String
  writesValue : α → List Char → Prop
  isWord_name : ∀ item, IsWord (name item).toList
  isValue : ∀ item text, writesValue item text → IsValue text

namespace AttributeSyntax

variable {α β : Type} (grammar : AttributeSyntax α)

/-- How an attribute is written. -/
def Writes (item : α) : List Char → Prop :=
  PairText (· = (grammar.name item).toList) (grammar.writesValue item)

variable {grammar} {item : α} {order : List α} {text : List Char}

theorem Writes.balanced (h : grammar.Writes item text) : Balanced text := by
  obtain ⟨rfl, hgap, hgap', hvalue⟩ := h
  have hname := (grammar.isWord_name item).isPlain
  have hbalanced := (grammar.isValue _ _ hvalue).balanced
  refine (Balanced.of_plain hname).append ((Balanced.of_plain (isPlain_gap hgap)).append ?_)
  exact .plain rfl ((Balanced.of_plain (isPlain_gap hgap')).append hbalanced)

/-- An attribute with its surroundings, masked: only its value may be hidden. -/
theorem maskNested_attribute {gap gap' gap'' value : List Char} (hgap : isBlank gap = true)
    (hgap' : isBlank gap' = true) (hgap'' : isBlank gap'' = true)
    (hvalue : grammar.writesValue item value) (back : List Char) :
    maskNested (gap ++ ((grammar.name item).toList ++ (gap' ++ ':' :: (gap'' ++ value)) ++ back)) =
      gap ++ ((grammar.name item).toList ++ (gap' ++ [':'])) ++
        (gap'' ++ (maskNested value ++ maskNested back)) := by
  have hcolon : [':'].all isPlain = true := rfl
  have htext : gap ++ ((grammar.name item).toList ++ (gap' ++ ':' :: (gap'' ++ value)) ++ back) =
      gap ++ ((grammar.name item).toList ++ (gap' ++ ([':'] ++ (gap'' ++ (value ++ back))))) := by
    simp
  rw [htext, maskNested_plain_append (isPlain_gap hgap),
    maskNested_plain_append (grammar.isWord_name item).isPlain,
    maskNested_plain_append (isPlain_gap hgap'), maskNested_plain_append hcolon,
    maskNested_plain_append (isPlain_gap hgap''),
    (grammar.isValue _ _ hvalue).balanced.maskNested_append]
  simp

/-- The white space behind the last value. -/
theorem stops_gap {gap : List Char} (hgap : isBlank gap = true) : Stops gap := by
  intro c hc
  exact Or.inl (List.all_eq_true.mp hgap c (List.mem_of_head? hc))

theorem stops_comma {gap : List Char} (hgap : isBlank gap = true) (rest : List Char) :
    Stops (gap ++ ([','] ++ rest)) := by
  cases gap with
  | nil =>
    intro c hc
    exact Or.inr (Option.some.inj hc).symm
  | cons d gap =>
    rw [isBlank, List.all_cons, Bool.and_eq_true] at hgap
    intro c hc
    obtain rfl := Option.some.inj hc
    exact Or.inl hgap.1

theorem maskNested_comma {gap : List Char} (hgap : isBlank gap = true) (rest : List Char) :
    maskNested (gap ++ ',' :: rest) = gap ++ [','] ++ maskNested rest := by
  have hcomma : [','].all isPlain = true := rfl
  have htext : gap ++ ',' :: rest = gap ++ ([','] ++ rest) := rfl
  rw [htext, maskNested_plain_append (isPlain_gap hgap), maskNested_plain_append hcomma,
    List.append_assoc]

section Search

variable {name : String} {read : List Char → Option (β × List Char)} {recognize : Recognizer β}
  {before : Option Char}

/-- A search for one attribute passes over another one and the comma behind it. -/
theorem exists_passed (h : ReadsAttribute name read recognize) (before : Option Char)
    (hname : IsWord name.toList)
    (hne : grammar.name item ≠ name) {gap gap' : List Char} (hgap : isBlank gap = true)
    (hitem : grammar.Writes item text) (hgap' : isBlank gap' = true) (rest : List Char) :
    ∃ passed, maskNested (gap ++ (text ++ (gap' ++ ',' :: rest))) = passed ++ maskNested rest ∧
      Declines recognize before passed (maskNested rest) ∧ lastOr before passed = some ',' := by
  obtain ⟨rfl, hinner, hinner', hvalue⟩ := hitem
  rename_i inner inner' value
  have hne' : (grammar.name item).toList ≠ name.toList := fun heq ↦ hne (String.ext heq)
  have hcolon : ':' ∉ inner' ++ (maskNested value ++ gap') := by
    simp only [List.mem_append, not_or]
    exact ⟨notMem_gap hinner' (by decide), (grammar.isValue _ _ hvalue).colon_notMem,
      notMem_gap hgap' (by decide)⟩
  refine ⟨gap ++ ((grammar.name item).toList ++ (inner ++ [':'])) ++
    (inner' ++ (maskNested value ++ gap') ++ [',']), ?_, ?_, ?_⟩
  · rw [maskNested_attribute hgap hinner hinner' hvalue, maskNested_comma hgap']
    simp only [List.append_assoc]
  · refine declines_append.mpr ⟨declines_append.mpr ⟨?_, ?_⟩, ?_⟩
    · exact declines_gap h hname hgap _
    · exact declines_other h hname (grammar.isWord_name item) hne' hinner _
    · exact declines_value h hname hcolon _
  · rw [lastOr_append, lastOr_append _ _ [',']]
    rfl

/-- An attribute that is not there is not found. -/
theorem declines_of_notMem (h : ReadsAttribute name read recognize) (hname : IsWord name.toList)
    (htext : Separated grammar.Writes order text)
    (hnames : ∀ item ∈ order, grammar.name item ≠ name) :
    Declines recognize before (maskNested text) [] := by
  induction htext generalizing before with
  | nil hgap =>
    rw [maskNested_of_plain (isPlain_gap hgap)]
    exact declines_gap h hname hgap []
  | @last item gap text gap' hgap hitem hgap' =>
    obtain ⟨rfl, hinner, hinner', hvalue⟩ := hitem
    have hne : (grammar.name item).toList ≠ name.toList := fun heq ↦
      hnames item List.mem_cons_self (String.ext heq)
    rw [maskNested_attribute hgap hinner hinner' hvalue, maskNested_of_plain (isPlain_gap hgap')]
    refine declines_append.mpr ⟨declines_append.mpr ⟨?_, ?_⟩, declines_end h ?_⟩
    · exact declines_gap h hname hgap _
    · exact declines_other h hname (grammar.isWord_name item) hne hinner _
    · simp only [List.mem_append, not_or]
      exact ⟨notMem_gap hinner' (by decide), (grammar.isValue _ _ hvalue).colon_notMem,
        notMem_gap hgap' (by decide)⟩
  | @cons _ _ _ _ _ rest hgap hitem hgap' _ ih =>
    obtain ⟨passed, hmask, hpassed, -⟩ :=
      exists_passed h before hname (hnames _ List.mem_cons_self) hgap hitem hgap' rest
    rw [hmask]
    refine declines_append.mpr ⟨?_, ih fun other hother ↦ hnames other ?_⟩
    · rw [List.append_nil]
      exact hpassed
    · exact List.mem_cons_of_mem _ hother

/-- A search for an attribute that is not there fails. -/
theorem first?_of_notMem (h : ReadsAttribute name read recognize) (hname : IsWord name.toList)
    (htext : Separated grammar.Writes order text)
    (hnames : ∀ item ∈ order, grammar.name item ≠ name) :
    first? recognize before (maskNested text) = none := by
  have hpassed := first?_append_of_declines
    (show Declines recognize before (maskNested text) [] from
      declines_of_notMem h hname htext hnames)
  have hend : first? recognize (lastOr before (maskNested text)) [] = none := by
    rw [first?, h.eq_none (afterAttributeName?_of_not_word hname rfl)]
    rfl
  rwa [List.append_nil, hend] at hpassed

/-- An attribute is found where it stands: its value is read from behind its colon. -/
theorem first?_attribute (h : ReadsAttribute (grammar.name item) read recognize)
    (hbefore : isWordAt before = false) {gap inner inner' value back : List Char}
    (hgap : isBlank gap = true) (hinner : isBlank inner = true) (hinner' : isBlank inner' = true)
    (hvalue : grammar.writesValue item value) {result : β} {rest : List Char}
    (hread : read (maskNested value ++ maskNested back) = some (result, rest)) :
    first? recognize before (maskNested (gap ++
      ((grammar.name item).toList ++ (inner ++ ':' :: (inner' ++ value)) ++ back))) =
        some ⟨gap, result, rest⟩ := by
  have hname := grammar.isWord_name item
  have hplace : recognize (lastOr before gap) ((grammar.name item).toList ++
      (inner ++ ':' :: (inner' ++ (maskNested value ++ maskNested back)))) =
        some (result, rest) := by
    rw [h, afterAttributeName?_append hname (isWordAt_lastOr_gap hgap hbefore) hinner,
      skipWhite_append hinner', (grammar.isValue _ _ hvalue).skipWhite_append]
    exact hread
  have htext : gap ++ ((grammar.name item).toList ++ (inner ++ [':'])) ++
      (inner' ++ (maskNested value ++ maskNested back)) =
      gap ++ ((grammar.name item).toList ++
        (inner ++ ':' :: (inner' ++ (maskNested value ++ maskNested back)))) := by simp
  rw [maskNested_attribute hgap hinner hinner' hvalue, htext,
    first?_append_of_declines (declines_gap h hname hgap _), first?_of_some hplace]
  simp

/-- An attribute is found wherever it stands among others. -/
theorem exists_first?_of_mem (h : ReadsAttribute (grammar.name item) read recognize)
    (htext : Separated grammar.Writes order text) (hitem : item ∈ order)
    (hunique : ∀ other ∈ order, grammar.name other = grammar.name item → other = item)
    (hbefore : isWordAt before = false) :
    ∃ front value back, text = front ++ (value ++ back) ∧ grammar.writesValue item value ∧
      Stops (maskNested back) ∧ ∀ result rest,
        read (maskNested value ++ maskNested back) = some (result, rest) →
          ∃ passed, first? recognize before (maskNested text) = some ⟨passed, result, rest⟩ := by
  induction htext generalizing before with
  | nil => cases hitem
  | @last other gap text gap' hgap hother hgap' =>
    obtain rfl := List.mem_singleton.mp hitem
    obtain ⟨rfl, hinner, hinner', hvalue⟩ := hother
    rename_i inner inner' value
    refine ⟨gap ++ ((grammar.name item).toList ++ (inner ++ ':' :: inner')), value, gap', by simp,
      hvalue, ?_, fun result rest hread ↦ ⟨gap, ?_⟩⟩
    · rw [maskNested_of_plain (isPlain_gap hgap')]
      exact stops_gap hgap'
    · exact first?_attribute h hbefore hgap hinner hinner' hvalue hread
  | @cons other others gap text gap' rest hgap hother hgap' _ ih =>
    by_cases hsame : grammar.name other = grammar.name item
    · obtain rfl := hunique other List.mem_cons_self hsame
      obtain ⟨rfl, hinner, hinner', hvalue⟩ := hother
      rename_i inner inner' value
      refine ⟨gap ++ ((grammar.name other).toList ++ (inner ++ ':' :: inner')), value,
        gap' ++ ',' :: rest, by simp, hvalue, ?_, fun result left hread ↦ ⟨gap, ?_⟩⟩
      · rw [maskNested_comma hgap', List.append_assoc]
        exact stops_comma hgap' _
      · exact first?_attribute h hbefore hgap hinner hinner' hvalue hread
    · have hlater : item ∈ others := by
        rcases List.mem_cons.mp hitem with rfl | hmem
        · exact absurd rfl hsame
        · exact hmem
      obtain ⟨passed, hmask, hpassed, hlast⟩ :=
        exists_passed h before (grammar.isWord_name item) hsame hgap hother hgap' rest
      have hbefore' : isWordAt (lastOr before passed) = false := by
        rw [hlast]
        rfl
      obtain ⟨front, value, back, rfl, hvalue, hstops, hfound⟩ := ih hlater
        (fun other hother ↦ hunique other (List.mem_cons_of_mem _ hother)) hbefore'
      refine ⟨gap ++ (text ++ (gap' ++ ',' :: front)), value, back, by simp, hvalue, hstops,
        fun result left hread ↦ ?_⟩
      obtain ⟨passed', hfirst⟩ := hfound result left hread
      refine ⟨passed ++ passed', ?_⟩
      rw [hmask, first?_append_of_declines hpassed, hfirst]
      rfl

end Search

variable (grammar) in
/-- How the inside of a declaration is written: its attributes in any order. -/
def WritesAll (attributes : List α) (text : List Char) : Prop :=
  ∃ order, List.Perm order attributes ∧ Separated grammar.Writes order text

section Declared

variable {γ : Type} {attributes : List α} {name : String}
  {read : List Char → Option (β × List Char)} {recognize : Recognizer β} {make : γ → α}
  {declared : Option γ}

/-- The attributes of a declaration that have a given name: the one that is declared, if any. -/
structure Declares (grammar : AttributeSyntax α) (attributes : List α) (name : String)
    (make : γ → α) (declared : Option γ) : Prop where
  isWord : IsWord name.toList
  name_make : ∀ value, grammar.name (make value) = name
  mem_iff : ∀ value, make value ∈ attributes ↔ declared = some value
  exists_make : ∀ item, grammar.name item = name → ∃ value, item = make value

theorem Declares.exists_of_mem (hdeclares : grammar.Declares attributes name make declared)
    (hitem : item ∈ attributes) (hname : grammar.name item = name) :
    ∃ value, declared = some value ∧ item = make value := by
  obtain ⟨value, rfl⟩ := hdeclares.exists_make item hname
  exact ⟨value, (hdeclares.mem_iff value).mp hitem, rfl⟩

/-- A search finds the place of an attribute that is declared. -/
theorem WritesAll.exists_first? (htext : grammar.WritesAll attributes text)
    (hdeclares : grammar.Declares attributes name make declared)
    (h : ReadsAttribute name read recognize) {value : γ} (hvalue : declared = some value) :
    ∃ front written back, text = front ++ (written ++ back) ∧
      grammar.writesValue (make value) written ∧ Stops (maskNested back) ∧ ∀ result rest,
        read (maskNested written ++ maskNested back) = some (result, rest) →
          ∃ passed, first? recognize none (maskNested text) = some ⟨passed, result, rest⟩ := by
  obtain ⟨order, hperm, hseparated⟩ := htext
  have hname := hdeclares.name_make value
  refine exists_first?_of_mem (by rwa [hname]) hseparated
    (hperm.mem_iff.mpr ((hdeclares.mem_iff value).mpr hvalue)) (fun other hother hsame ↦ ?_) rfl
  rw [hname] at hsame
  obtain ⟨value', hvalue', rfl⟩ :=
    hdeclares.exists_of_mem (hperm.mem_iff.mp hother) hsame
  rw [hvalue] at hvalue'
  rw [Option.some.inj hvalue']

/-- A search for an attribute that is left out fails. -/
theorem WritesAll.first?_eq_none (htext : grammar.WritesAll attributes text)
    (hdeclares : grammar.Declares attributes name make declared)
    (h : ReadsAttribute name read recognize) (hnone : declared = none) :
    first? recognize none (maskNested text) = none := by
  obtain ⟨order, hperm, hseparated⟩ := htext
  refine first?_of_notMem h hdeclares.isWord hseparated fun item hitem hname ↦ ?_
  obtain ⟨value, hvalue, -⟩ := hdeclares.exists_of_mem (hperm.mem_iff.mp hitem) hname
  rw [hnone] at hvalue
  cases hvalue

/-- A search finds the value of an attribute exactly if it is declared. -/
theorem WritesAll.firstValue?_eq (htext : grammar.WritesAll attributes text)
    (hdeclares : grammar.Declares attributes name make declared)
    (h : ReadsAttribute name read recognize) (convert : γ → β)
    (hread : ∀ value written back, grammar.writesValue (make value) written → Stops back →
      ∃ rest, read (maskNested written ++ back) = some (convert value, rest)) :
    firstValue? recognize (maskNested text) = declared.map convert := by
  rw [firstValue?]
  cases hvalue : declared with
  | none => rw [htext.first?_eq_none hdeclares h hvalue]; rfl
  | some value =>
    obtain ⟨front, written, back, -, hwritten, hstops, hfound⟩ :=
      htext.exists_first? hdeclares h hvalue
    obtain ⟨rest, hrest⟩ := hread value written _ hwritten hstops
    obtain ⟨passed, hfirst⟩ := hfound _ _ hrest
    rw [hfirst]
    rfl

end Declared

end AttributeSyntax

end CalculatorCatalog.Definition
