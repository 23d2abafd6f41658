import CalculatorCatalog.Proofs.Edit.ElementLists
import CalculatorCatalog.Proofs.Edit.Leftovers
import Mathlib.Data.List.Sort

/-!
# Reading the elements of a list

The elements of a bracketed list (`ElementList`) are texts that begin and end with a character which
is neither white space nor a comma. A removal that is to work on the elements has to read them: the
calls with the key that it reads are the elements that are such calls (`ReadsElements`).

`CutsElements.readsElements` says that there is no other way to cut out the elements with the key
and nothing else of an element, if the constructor is a word. From left to right, a call that is
read begins with a letter of an element, which is then cut out as a whole; and an element that is
cut out is not hidden by a call that is kept, because of such a call nothing is cut out.
-/

set_option autoImplicit false
set_option relaxedAutoImplicit false

namespace CalculatorCatalog.Edit

open CalculatorCatalog.Text

/-! ### Lists -/

/-- A list between brackets: elements with one comma between two of them, and perhaps one behind the
last, with any space around the commas. -/
structure ElementList where
  opens : Char
  closes : Char
  lead : List Char
  items : List Item
  isOpening_opens : isOpening opens = true
  isClosing_closes : isClosing closes = true
  isPadding_lead : ∀ c ∈ lead, isPadding c = true
  isProper : ∀ item ∈ items, item.IsProper
  singleCommas : SingleCommas items

namespace ElementList

/-- The text of a list. -/
def text (l : ElementList) : List Char :=
  l.opens :: (l.lead ++ (body l.items ++ [l.closes]))

/-- The elements of a list. -/
def elements (l : ElementList) : List (List Char) :=
  l.items.map Item.element

/-- The elements of a list, each with the text before it. -/
def places (l : ElementList) : List (List Char × List Char) :=
  placesFrom (l.opens :: l.lead) l.items

end ElementList

/-- A list without comments. -/
structure SourceList extends ElementList where
  blankComments_text : blankComments toElementList.text = toElementList.text

/-- The calls with the key that are read in a list are the elements that are such calls. -/
def ReadsElements (constructor key : List Char) (l : ElementList) : Prop :=
  (keyedCalls constructor key l.text).map (fun call ↦ (call.before, call.block)) =
    l.places.filter fun place ↦ isKeyed constructor key place.2

/-- The elements with the key are cut out, and the others are left as they are. -/
def CutsElements (constructor key : List Char) (l : ElementList) : Prop :=
  ∀ place ∈ l.places, cut (removals constructor key l.text) (byteLength place.1) place.2 =
    if isKeyed constructor key place.2 then [] else place.2

/-! ### Places of elements -/

section Places

variable {before : List Char} {items : List Item} {place : List Char × List Char}

theorem exists_after_of_mem_placesFrom (h : place ∈ placesFrom before items) (tail : List Char) :
    ∃ after, before ++ (body items ++ tail) = place.1 ++ (place.2 ++ after) := by
  induction items generalizing before with
  | nil => cases h
  | cons item rest ih =>
    have hsplit : before ++ (body (item :: rest) ++ tail) =
        before ++ item.text ++ (body rest ++ tail) := by simp [Item.text]
    rcases List.mem_cons.mp h with rfl | hmem
    · exact ⟨item.divider ++ (body rest ++ tail), by simp⟩
    · obtain ⟨after, hafter⟩ := ih hmem
      exact ⟨after, hsplit.trans hafter⟩

/-- Elements do not overlap. -/
theorem pairwise_placesFrom (before : List Char) (items : List Item) :
    (placesFrom before items).Pairwise fun place later ↦
      place.1.length + place.2.length ≤ later.1.length := by
  have hle {before : List Char} {items : List Item} {place : List Char × List Char}
      (h : place ∈ placesFrom before items) : before.length ≤ place.1.length := by
    induction items generalizing before with
    | nil => cases h
    | cons item rest ih =>
      rcases List.mem_cons.mp h with rfl | hmem
      · exact Nat.le_refl _
      · have hrest := ih hmem
        rw [List.length_append] at hrest
        omega
  induction items generalizing before with
  | nil => exact .nil
  | cons item rest ih =>
    refine List.pairwise_cons.mpr ⟨fun later hlater ↦ ?_, ih _⟩
    have hrest := hle hlater
    rw [Item.text, List.length_append, List.length_append] at hrest
    simp only
    omega

/-- No word goes on behind a comma. -/
theorem isWordAt_behind (before : List Char) {divider : List Char} (hdivider : IsDivider divider)
    (hcomma : ',' ∈ divider) : isWordAt (before ++ divider).getLast? = false := by
  cases hlast : divider.getLast? with
  | none =>
    rw [List.getLast?_eq_none_iff.mp hlast] at hcomma
    cases hcomma
  | some c =>
    rw [List.getLast?_append, hlast, Option.some_or]
    exact isWordCharacter_of_isDivider hdivider (List.mem_of_getLast? hlast)

/-- No word goes on where an element begins. -/
theorem isWordAt_of_mem_placesFrom (h : place ∈ placesFrom before items)
    (hitems : ∀ item ∈ items, item.IsProper) (hcommas : SingleCommas items)
    (hbefore : isWordAt before.getLast? = false) : isWordAt place.1.getLast? = false := by
  induction items generalizing before with
  | nil => cases h
  | cons item rest ih =>
    obtain ⟨-, hcomma, hcommas⟩ := hcommas
    rw [List.forall_mem_cons] at hitems
    rw [placesFrom_cons] at h
    rcases List.mem_cons.mp h with rfl | hlater
    · exact hbefore
    · refine ih hlater hitems.2 hcommas (isWordAt_behind _ hitems.1.divider (hcomma ?_))
      rintro rfl
      cases hlater

/-- Where no word characters stand, a word character comes behind. -/
theorem exists_of_append_eq_append_cons {first second passed rest : List Char} {c : Char}
    (hfirst : ∀ d ∈ first, isWordCharacter d = false) (hc : isWordCharacter c = true)
    (h : first ++ second = passed ++ c :: rest) :
    ∃ middle, passed = first ++ middle ∧ second = middle ++ c :: rest := by
  rcases List.append_eq_append_iff.mp h with hmiddle | ⟨middle, rfl, heq⟩
  · exact hmiddle
  · cases middle with
    | nil => exact ⟨[], by simp, heq.symm⟩
    | cons d middle =>
      obtain ⟨rfl, -⟩ := List.cons.inj heq
      rw [hfirst c (by simp)] at hc
      cases hc

/-- A word character of a list stands in an element. -/
theorem exists_place_of_isWordCharacter (before : List Char) {closes : Char}
    (hcloses : isWordCharacter closes = false) (hitems : ∀ item ∈ items, item.IsProper)
    {passed rest : List Char} {c : Char} (hc : isWordCharacter c = true)
    (h : body items ++ [closes] = passed ++ c :: rest) :
    ∃ place ∈ placesFrom before items, ∃ inner tail, place.2 = inner ++ c :: tail ∧
      before ++ passed = place.1 ++ inner := by
  induction items generalizing before passed with
  | nil =>
    obtain ⟨middle, -, hmiddle⟩ := exists_of_append_eq_append_cons (by simpa using hcloses) hc
      ((List.append_nil _).trans h)
    cases middle <;> cases hmiddle
  | cons item items ih =>
    rw [List.forall_mem_cons] at hitems
    rw [body_cons, List.append_assoc, List.append_assoc] at h
    have hbehind : ∀ middle, passed = item.element ++ middle →
        item.divider ++ (body items ++ [closes]) = middle ++ c :: rest →
          ∃ place ∈ placesFrom before (item :: items), ∃ inner tail,
            place.2 = inner ++ c :: tail ∧ before ++ passed = place.1 ++ inner := by
      rintro middle rfl heq
      obtain ⟨middle, rfl, hbody⟩ := exists_of_append_eq_append_cons
        (fun d hd ↦ isWordCharacter_of_isDivider hitems.1.divider hd) hc heq
      obtain ⟨place, hplace, inner, tail, hinner, hpassed⟩ :=
        ih (before ++ item.text) hitems.2 hbody
      refine ⟨place, List.mem_cons_of_mem _ hplace, inner, tail, hinner, ?_⟩
      rw [← hpassed, Item.text]
      simp
    rcases List.append_eq_append_iff.mp h with ⟨middle, hpassed, heq⟩ | ⟨middle, helement, heq⟩
    · exact hbehind middle hpassed heq
    · cases middle with
      | nil => exact hbehind [] (by rw [helement, List.append_nil, List.append_nil]) heq.symm
      | cons d middle =>
        obtain ⟨rfl, rfl⟩ := List.cons.inj heq
        exact ⟨_, List.mem_cons_self, passed, middle, helement, rfl⟩

/-- Of two elements of a list that overlap one is the other. -/
theorem eq_of_overlap {place' : List Char × List Char} (h : place ∈ placesFrom before items)
    (h' : place' ∈ placesFrom before items)
    (hlow : place'.1.length < place.1.length + place.2.length)
    (hhigh : place.1.length < place'.1.length + place'.2.length) : place = place' := by
  have hpairwise := List.pairwise_iff_getElem.mp (pairwise_placesFrom before items)
  obtain ⟨i, hi, rfl⟩ := List.getElem_of_mem h
  obtain ⟨j, hj, rfl⟩ := List.getElem_of_mem h'
  rcases Nat.lt_trichotomy i j with hlt | rfl | hlt
  · have hle := hpairwise i j hi hj hlt
    omega
  · rfl
  · have hle := hpairwise j i hj hi hlt
    omega

end Places

/-! ### Reading the elements -/

section Reading

variable {ranges : List Removal} {offset : Nat}

theorem length_cut_le (ranges : List Removal) (offset : Nat) (text : List Char) :
    (cut ranges offset text).length ≤ text.length := by
  induction text generalizing offset with
  | nil => exact Nat.le_refl _
  | cons c text ih =>
    have hrest := ih (offset + c.utf8Size)
    rw [cut_cons, List.length_cons]
    split_ifs
    · omega
    · rw [List.length_cons]
      omega

/-- A text that is left as it is loses none of its characters. -/
theorem isCut_eq_false_of_cut_eq {first second : List Char} {c : Char}
    (h : cut ranges offset (first ++ c :: second) = first ++ c :: second) :
    isCut ranges (offset + byteLength first) = false := by
  rw [cut_append] at h
  have hlength := congrArg List.length h
  have hfirst := length_cut_le ranges offset first
  have hsecond := length_cut_le ranges (offset + byteLength first + c.utf8Size) second
  rw [← Bool.not_eq_true]
  intro hcut
  rw [cut_cons, if_pos hcut, List.length_append, List.length_append, List.length_cons] at hlength
  omega

/-- A text of which nothing is left loses its first character. -/
theorem isCut_of_cut_eq_nil {c : Char} {text : List Char}
    (h : cut ranges offset (c :: text) = []) : isCut ranges offset = true := by
  rw [cut_cons] at h
  split_ifs at h with hcut
  exact hcut

variable {constructor key : List Char}

/-- An element with the key is a call wherever no word goes on before it. -/
theorem exists_call_of_isKeyed {element : List Char} (h : isKeyed constructor key element = true)
    {before : List Char} (hbefore : isWordAt before.getLast? = false) (after : List Char) :
    ∃ call, callAt? constructor before (element ++ after) = some call ∧
      call.before = before ∧ call.block = element ∧ call.hasKey key = true := by
  obtain ⟨call, hcall, hkeyed⟩ : ∃ call, callAt? constructor [] element = some call ∧
      (call.after.isEmpty && call.hasKey key) = true := by
    rw [isKeyed] at h
    cases hcall : callAt? constructor [] element with
    | none => simp [hcall] at h
    | some call => exact ⟨call, rfl, by rwa [hcall] at h⟩
  rw [Bool.and_eq_true, List.isEmpty_iff] at hkeyed
  obtain ⟨-, htext, -, hboundary, -⟩ := callAt?_eq_some hcall
  obtain ⟨inner, hinner, hkey⟩ := Call.exists_inner_of_hasKey hkeyed.2
  rw [hkeyed.1, List.append_nil] at htext
  subst htext
  have hhead : isWordBoundary before.getLast? call.block.head? = true := by
    rw [isWordBoundary, List.getLast?_nil] at hboundary
    rw [isWordBoundary, hbefore]
    exact hboundary
  refine ⟨_, callAt?_of_block hcall hinner hhead after, rfl, rfl, ?_⟩
  rw [Call.hasKey, Option.any_some, hkey]

/-- A call begins with a word. -/
theorem exists_cons_of_callAt? (hword : IsWord constructor) {before text : List Char} {call : Call}
    (h : callAt? constructor before text = some call) :
    ∃ c rest, call.block = c :: rest ∧ isWordCharacter c = true := by
  obtain ⟨-, htext, hne, -⟩ := callAt?_eq_some h
  obtain ⟨read, inside, hread, heq⟩ := exists_opening_of_callAt? h
  obtain ⟨c, rest, hblock⟩ := List.exists_cons_of_ne_nil hne
  refine ⟨c, rest, hblock, ?_⟩
  have hhead : (read ++ '(' :: inside).head? = some c := by
    rw [← heq, htext, hblock]
    rfl
  have hstart {rest : List Char} (hrest : (constructor ++ rest).head? = some c) :
      isWordCharacter c = true := by
    have hconstructor := hword.isWordAt_head? rest
    rwa [hrest] at hconstructor
  cases hread with
  | plain hgap =>
    rw [List.append_assoc] at hhead
    exact hstart hhead
  | constant hspace hne' hword' hgap =>
    obtain rfl : 'c' = c := Option.some.inj hhead
    rfl

theorem ne_nil_of_isKeyed {element : List Char} (h : isKeyed constructor key element = true) :
    element ≠ [] := by
  rintro rfl
  simp [isKeyed] at h

variable {l : SourceList}

/-- No word character stands before the first element. -/
theorem ElementList.isWordCharacter_of_mem_opens (l : ElementList) :
    ∀ c ∈ l.opens :: l.lead, isWordCharacter c = false :=
  List.forall_mem_cons.mpr ⟨isWordCharacter_of_isOpening l.isOpening_opens, fun _ hc ↦
    isWordCharacter_of_isDivider (isDivider_of_isPadding l.isPadding_lead) hc⟩

theorem ElementList.isWordAt_opens (l : ElementList) :
    isWordAt (l.opens :: l.lead).getLast? = false := by
  rw [List.getLast?_cons]
  exact l.isWordCharacter_of_mem_opens _ (List.mem_of_getLast? List.getLast?_cons)

/-- An element with the key is read if what is read before it are elements: a call that hides it
would be kept, and then nothing of the element would be cut out. -/
theorem exists_keyedCall_of_isKeyed (hcuts : CutsElements constructor key l.toElementList)
    {place : List Char × List Char} (hplace : place ∈ l.places)
    (hkeyed : isKeyed constructor key place.2 = true)
    (hearlier : ∀ other ∈ keyedCalls constructor key l.text,
      other.before.length < place.1.length → (other.before, other.block) ∈ l.places) :
    ∃ call ∈ keyedCalls constructor key l.text, (call.before, call.block) = place := by
  obtain ⟨after, hafter⟩ := exists_after_of_mem_placesFrom hplace [l.closes]
  have htext : l.text = place.1 ++ (place.2 ++ after) := hafter
  have hword : isWordAt place.1.getLast? = false :=
    isWordAt_of_mem_placesFrom hplace l.isProper l.singleCommas l.isWordAt_opens
  obtain ⟨call, hcall, hbefore, hblock, hkey⟩ := exists_call_of_isKeyed hkeyed hword after
  obtain ⟨-, -, hne, -⟩ := callAt?_eq_some hcall
  have hcovered := mem_calls_or_covered hcall
  rw [← htext, ← l.blankComments_text] at hcovered
  rcases hcovered with hread | ⟨other, hother, hhides⟩
  · exact ⟨call, List.mem_filter.mpr ⟨hread, hkey⟩, Prod.ext hbefore hblock⟩
  · exfalso
    cases hotherKey : other.hasKey key with
    | true =>
      have hmem := hearlier other (List.mem_filter.mpr ⟨hother, hotherKey⟩) hhides.1
      have hsame := eq_of_overlap hplace hmem (by simp only; omega) hhides.2
      rw [hsame] at hhides
      exact absurd hhides.1 (Nat.lt_irrefl _)
    | false =>
      have hcallIn : IsCallIn constructor (blankComments l.text) call := by
        obtain ⟨-, hparts, -⟩ := callAt?_eq_some hcall
        rw [l.blankComments_text, htext]
        refine ⟨?_, ?_⟩
        · rw [hparts, hbefore]
        · rw [← hparts, hbefore, hcall]
      rw [← hbefore] at hhides
      obtain ⟨hlow, hhigh⟩ :=
        Call.Hides.byteLength_bounds hhides (isCallIn_of_mem_calls hother) hcallIn
      have hkept := isCut_eq_false_of_hasKey_eq_false hother hotherKey hlow hhigh
      have hcut := hcuts place hplace
      rw [if_pos hkeyed, ← hbefore, ← hblock] at hcut
      obtain ⟨d, tail, hcons⟩ := List.exists_cons_of_ne_nil hne
      rw [hcons] at hcut
      rw [isCut_of_cut_eq_nil hcut] at hkept
      cases hkept

/-- A call begins with a letter, and so inside an element. -/
theorem exists_place_of_mem_calls (hword : IsWord constructor) {call : Call}
    (h : call ∈ calls constructor (blankComments l.text)) :
    ∃ place ∈ l.places, ∃ inner c tail, call.before = place.1 ++ inner ∧
      place.2 = inner ++ c :: tail := by
  obtain ⟨hparts, hcall⟩ := callAt?_of_mem_calls h
  rw [l.blankComments_text] at hparts
  obtain ⟨c, rest, hblock, hc⟩ := exists_cons_of_callAt? hword hcall
  have htext : (l.opens :: l.lead) ++ (body l.items ++ [l.closes]) =
      call.before ++ c :: (rest ++ call.after) := by
    rw [← List.cons_append, ← hblock, ← hparts]
    rfl
  obtain ⟨middle, hbefore, hbody⟩ :=
    exists_of_append_eq_append_cons l.isWordCharacter_of_mem_opens hc htext
  obtain ⟨place, hplace, inner, tail, hinner, hplaceBefore⟩ :=
    exists_place_of_isWordCharacter (l.opens :: l.lead)
      (isWordCharacter_of_isClosing l.isClosing_closes) l.isProper hc hbody
  exact ⟨place, hplace, inner, c, tail, hbefore.trans hplaceBefore, hinner⟩

/-- If only elements are cut out, the calls that are read are elements with the key. The induction
is on the place of the call: the element in which it begins is cut out, and by the calls before it
this element is read itself. -/
theorem mem_places_of_mem_keyedCalls (hword : IsWord constructor)
    (hcuts : CutsElements constructor key l.toElementList) {call : Call}
    (h : call ∈ keyedCalls constructor key l.text) :
    (call.before, call.block) ∈ l.places ∧ isKeyed constructor key call.block = true := by
  induction hlength : call.before.length using Nat.strong_induction_on generalizing call with
  | _ length ih =>
    obtain ⟨hread, hkey⟩ := List.mem_filter.mp h
    obtain ⟨-, -, hne, -⟩ := callAt?_eq_some (callAt?_of_mem_calls hread).2
    obtain ⟨place, hplace, inner, c, tail, hbefore, hinner⟩ :=
      exists_place_of_mem_calls hword hread
    have hkeyed : isKeyed constructor key place.2 = true := by
      by_contra hnot
      have hcut := hcuts place hplace
      rw [if_neg hnot, hinner] at hcut
      have hkept := isCut_eq_false_of_cut_eq hcut
      obtain ⟨range, hrange, hstart, hstop⟩ := exists_range_of_mem_calls hread hkey
      have hpos : byteLength call.block ≠ 0 := fun hzero ↦ hne (byteLength_eq_zero.mp hzero)
      rw [← byteLength_append, ← hbefore, ← Bool.not_eq_true, isCut_iff] at hkept
      exact hkept ⟨range, hrange, hstart, by omega⟩
    have hlow := congrArg List.length hbefore
    have hhigh := congrArg List.length hinner
    have hblock := List.length_pos_iff.mpr hne
    rw [List.length_append] at hlow hhigh
    rw [List.length_cons] at hhigh
    obtain ⟨first, hfirst, rfl⟩ := exists_keyedCall_of_isKeyed hcuts hplace hkeyed
      fun other hother hlt ↦ (ih other.before.length (by omega) hother rfl).1
    simp only at hlow hhigh
    rcases behind_of_mem_calls hread (List.mem_filter.mp hfirst).1 with
      rfl | ⟨gap, hgap⟩ | ⟨gap, hgap⟩
    · exact ⟨hplace, hkeyed⟩
    · have hgapLength := congrArg List.length hgap
      simp only [List.length_append] at hgapLength
      omega
    · have hgapLength := congrArg List.length hgap
      simp only [List.length_append] at hgapLength
      omega

/-- If every element is cut out or left as a whole as it should be, the elements are read. -/
theorem CutsElements.readsElements (hword : IsWord constructor)
    (hcuts : CutsElements constructor key l.toElementList) :
    ReadsElements constructor key l.toElementList := by
  let earlier (place later : List Char × List Char) : Prop := place.1.length < later.1.length
  have : Std.Irrefl earlier := ⟨fun _ ↦ Nat.lt_irrefl _⟩
  have : Std.Antisymm earlier := ⟨fun _ _ hlt hlt' ↦ absurd hlt' (Nat.lt_asymm hlt)⟩
  have hcalls : ((keyedCalls constructor key l.text).map fun call ↦
      (call.before, call.block)).Pairwise earlier := by
    refine List.pairwise_map.mpr (((pairwise_callsFrom constructor 0 []
      (blankComments l.text)).filter _).imp_of_mem fun {call later} hcall _ hgap ↦ ?_)
    obtain ⟨gap, hgap⟩ := hgap
    obtain ⟨-, -, hne, -⟩ := callAt?_eq_some (callAt?_of_mem_calls (List.mem_filter.mp hcall).1).2
    have hpos := List.length_pos_iff.mpr hne
    have hlength := congrArg List.length hgap
    rw [List.length_append, List.length_append] at hlength
    change call.before.length < later.before.length
    omega
  have hplaces :
      (l.places.filter fun place ↦ isKeyed constructor key place.2).Pairwise earlier := by
    refine ((pairwise_placesFrom _ _).filter _).imp_of_mem fun {place later} hplace _ hle ↦ ?_
    have hpos := List.length_pos_iff.mpr (ne_nil_of_isKeyed (List.mem_filter.mp hplace).2)
    change place.1.length < later.1.length
    omega
  refine hcalls.eq_of_mem_iff hplaces fun place ↦ ?_
  rw [List.mem_map, List.mem_filter]
  constructor
  · rintro ⟨call, hcall, rfl⟩
    exact mem_places_of_mem_keyedCalls hword hcuts hcall
  · rintro ⟨hplace, hkeyed⟩
    exact exists_keyedCall_of_isKeyed hcuts hplace hkeyed fun other hother _ ↦
      (mem_places_of_mem_keyedCalls hword hcuts hother).1

end Reading

end CalculatorCatalog.Edit
