import CalculatorCatalog.Proofs.Edit.BlockLists

/-!
# Removing elements from a list

A removal is expected to cut out the elements of a list that are calls with the key, to leave the
others as they are, and to leave a list of those others (`RemovesElements`).

`removesElements_iff` says when the expectation is met. The elements have to be read: a call inside
an element is removed too, and then the element is no longer as it was. And the list has to be
settled: each removed element has to take a comma with it. The comma behind a block is taken on the
line of the block only, so that a comma on the next line may be left over (`not_removesElements`).
-/

set_option autoImplicit false
set_option relaxedAutoImplicit false

namespace CalculatorCatalog.Edit

open CalculatorCatalog.Text

/-- Removing the blocks with a key cuts out the elements that are such blocks and leaves the others
as they are, and what is left is a list of those others between the same brackets. -/
structure RemovesElements (constructor key : String) (l : ElementList) : Prop where
  cutsElements : CutsElements constructor.toList key.toList l
  exists_list : ∃ left : ElementList, left.opens = l.opens ∧ left.closes = l.closes ∧
    left.elements = l.elements.filter (!isKeyed constructor.toList key.toList ·) ∧
    (removeBlocks constructor key (String.ofList l.text)).content = String.ofList left.text

/-! ### One way to read a list -/

/-- A divider ends where an edge comes. -/
theorem IsDivider.append_inj {first second rest rest' : List Char} (hfirst : IsDivider first)
    (hsecond : IsDivider second) (hrest : StartsWithEdge rest) (hrest' : StartsWithEdge rest')
    (h : first ++ rest = second ++ rest') : first = second ∧ rest = rest' := by
  have hnone {divider middle tail tail' : List Char} (hdivider : IsDivider (divider ++ middle))
      (hedge : StartsWithEdge tail) (heq : tail = middle ++ tail') : middle = [] := by
    cases middle with
    | nil => rfl
    | cons c middle =>
      obtain ⟨d, rest, rfl, hd⟩ := hedge
      obtain ⟨rfl, -⟩ := List.cons.inj heq
      rcases hdivider d (by simp) with hpadding | rfl
      · rw [hd.isPadding_eq] at hpadding
        cases hpadding
      · exact absurd rfl hd.2
  rcases List.append_eq_append_iff.mp h with ⟨middle, rfl, heq⟩ | ⟨middle, rfl, heq⟩
  · obtain rfl := hnone hsecond hrest heq
    exact ⟨(List.append_nil first).symm, heq⟩
  · obtain rfl := hnone hfirst hrest' heq
    exact ⟨List.append_nil second, heq.symm⟩

/-- Two lists of the same elements with the same text are the same list. -/
theorem items_eq_of_text_eq {closes : Char} (hcloses : IsEdge closes) {items items' : List Item}
    {lead lead' : List Char} (hlead : IsDivider lead) (hlead' : IsDivider lead')
    (hitems : ∀ item ∈ items, item.IsProper) (hitems' : ∀ item ∈ items', item.IsProper)
    (helements : items.map Item.element = items'.map Item.element)
    (h : lead ++ (body items ++ [closes]) = lead' ++ (body items' ++ [closes])) :
    lead = lead' ∧ items = items' := by
  obtain ⟨rfl, hbody⟩ := hlead.append_inj hlead' (startsWithEdge_body hitems hcloses)
    (startsWithEdge_body hitems' hcloses) h
  refine ⟨rfl, ?_⟩
  clear h hlead hlead'
  induction items generalizing items' with
  | nil => exact (List.map_eq_nil_iff.mp helements.symm).symm
  | cons item rest ih =>
    cases items' with
    | nil => cases helements
    | cons item' rest' =>
      obtain ⟨element, divider⟩ := item
      obtain ⟨element', divider'⟩ := item'
      obtain ⟨rfl : element = element', hrest⟩ := List.cons.inj helements
      rw [List.forall_mem_cons] at hitems hitems'
      simp only [body_cons, List.append_assoc, List.append_cancel_left_eq] at hbody
      obtain ⟨rfl, htail⟩ := hitems.1.divider.append_inj hitems'.1.divider
        (startsWithEdge_body hitems.2 hcloses) (startsWithEdge_body hitems'.2 hcloses) hbody
      rw [ih hitems.2 hitems'.2 hrest htail]

theorem spaced_false_iff (item : Item) (rest : List Item) :
    Spaced false (item.divider.count ',') rest ↔ SingleCommas (item :: rest) := by
  induction rest generalizing item with
  | nil => simp [Spaced, SingleCommas]
  | cons next rest ih =>
    have hunfold : SingleCommas (item :: next :: rest) ↔ item.divider.count ',' ≤ 1 ∧
        0 < item.divider.count ',' ∧ SingleCommas (next :: rest) := by
      rw [List.count_pos_iff]
      simp [SingleCommas]
    rw [Spaced, ih, hunfold, if_neg Bool.false_ne_true, ← and_assoc]
    refine and_congr_left fun _ ↦ ?_
    omega

/-- A list is spaced if there is no comma before the first element and single ones behind them. -/
theorem spaced_true_iff {commas : Nat} {items : List Item} :
    Spaced true commas items ↔ commas = 0 ∧ SingleCommas items := by
  cases items with
  | nil => simp [Spaced, SingleCommas]
  | cons item rest => rw [Spaced, spaced_false_iff]; simp

/-! ### The list that is left -/

section Left

variable {constructor key : List Char}

theorem ElementList.endsWithEdge_opens (l : ElementList) : EndsWithEdge [l.opens] :=
  ⟨[], l.opens, rfl, isEdge_of_isOpening l.isOpening_opens⟩

/-- The search for ranges begins behind the opening bracket. -/
theorem ElementList.cursor (l : ElementList) : Cursor 0 [l.opens] [] l.lead where
  edge := l.endsWithEdge_opens
  divider := isDivider_of_isPadding l.isPadding_lead
  count_comma := by
    rw [List.count_eq_zero.mpr fun hmem ↦ ne_comma_of_isPadding (l.isPadding_lead _ hmem) rfl]
    exact Nat.zero_le 1
  floor_le := Nat.zero_le _
  passed_eq := .inl rfl
  line := fun _ _ _ _ ↦ Nat.zero_le _

/-- What is left of a list whose elements are read. -/
theorem ReadsElements.exists_remains {l : SourceList}
    (h : ReadsElements constructor key l.toElementList) :
    (∃ lead left, Remains constructor key l.lead l.lead l.items lead left ∧
      cut (removals constructor key l.text) 0 l.text =
        l.opens :: (lead ++ (body left ++ [l.closes]))) ∧
      CutsElements constructor key l.toElementList := by
  have htext : ∀ call ∈ keyedCalls constructor key l.text,
      call.before ++ (call.block ++ call.after) =
        [l.opens] ++ ([] ++ l.lead) ++ (body l.items ++ [l.closes]) := by
    intro call hcall
    have hparts := (callAt?_of_mem_calls (List.mem_filter.mp hcall).1).1
    rw [l.blankComments_text] at hparts
    rw [← hparts, ElementList.text]
    simp
  obtain ⟨hstart, ⟨lead, left, hremains, hcut⟩, hplaces⟩ := l.cursor.leaves
    (isEdge_of_isClosing l.isClosing_closes) l.isProper l.singleCommas h htext
  have hranges : removals constructor key l.text =
      rangesOf 0 (keyedCalls constructor key l.text) := removals_eq_rangesOf constructor key l.text
  rw [← hranges] at hstart hcut hplaces
  refine ⟨⟨lead, left, hremains, ?_⟩, hplaces⟩
  have hopens : cut (removals constructor key l.text) 0 [l.opens] = [l.opens] := by
    refine cut_of_le_start fun range hrange ↦ ?_
    rw [Nat.zero_add]
    exact hstart range hrange
  rw [List.append_nil] at hcut
  change cut _ 0 ([l.opens] ++ (l.lead ++ (body l.items ++ [l.closes]))) = _
  rw [cut_append, hopens, Nat.zero_add, hcut]
  rfl

/-- Where the elements are read, the removal does what is expected exactly if the list is
settled. -/
theorem ReadsElements.removes_iff_settled {constructor key : String} {l : SourceList}
    (h : ReadsElements constructor.toList key.toList l.toElementList) :
    RemovesElements constructor key l.toElementList ↔
      Settled constructor.toList key.toList 0 false l.lead l.items := by
  obtain ⟨⟨lead, left, hremains, hcut⟩, hplaces⟩ := h.exists_remains
  have hlead : ',' ∉ l.lead := fun hmem ↦ ne_comma_of_isPadding (l.isPadding_lead _ hmem) rfl
  have hcount : l.lead.count ',' = 0 := List.count_eq_zero.mpr hlead
  have hspaced : Spaced true (0 + lead.count ',') left ↔
      Settled constructor.toList key.toList 0 false l.lead l.items :=
    hremains.spaced_iff l.singleCommas (fun _ ↦ by simp [hlead]) (fun _ ↦ rfl)
      (fun _ ↦ by simp [hcount]) (by simp [hcount])
  rw [Nat.zero_add, spaced_true_iff] at hspaced
  obtain ⟨hdivider, hproper⟩ :=
    hremains.isProper (isDivider_of_isPadding l.isPadding_lead) l.isProper
  have hcontent : (removeBlocks constructor key (String.ofList l.text)).content =
      String.ofList (l.opens :: (lead ++ (body left ++ [l.closes]))) := by
    rw [removeBlocks, String.toList_ofList, hcut]
  rw [← hspaced]
  constructor
  · rintro ⟨-, other, hopens, hcloses, helements, hresult⟩
    rw [hcontent, ElementList.text, hopens, hcloses, String.ofList_inj] at hresult
    obtain ⟨rfl, rfl⟩ := items_eq_of_text_eq (isEdge_of_isClosing l.isClosing_closes) hdivider
      (isDivider_of_isPadding other.isPadding_lead) hproper other.isProper
      (hremains.elements.trans helements.symm) (List.cons.inj hresult).2
    refine ⟨List.count_eq_zero.mpr fun hmem ↦ ?_, other.singleCommas⟩
    exact ne_comma_of_isPadding (other.isPadding_lead _ hmem) rfl
  · rintro ⟨hnone, hcommas⟩
    refine ⟨hplaces, ⟨l.opens, l.closes, lead, left, l.isOpening_opens, l.isClosing_closes,
      fun c hc ↦ hdivider.isPadding_of_notMem (List.count_eq_zero.mp hnone) hc, hproper, hcommas⟩,
      rfl, rfl, hremains.elements, hcontent⟩

end Left

/-! ### When a list is left -/

/-- A removal does what is expected of it on a list without comments, whose elements it reads,
exactly if the list is settled. That the elements are read is needed: where the constructor is a
word, no other list meets the expectation. They are in a list of blocks, and of elements without the
name of the constructor. -/
theorem removesElements_iff (constructor key : String) (l : SourceList) :
    (ReadsElements constructor.toList key.toList l.toElementList →
      (RemovesElements constructor key l.toElementList ↔
        Settled constructor.toList key.toList 0 false l.lead l.items)) ∧
    (IsWord constructor.toList →
      (RemovesElements constructor key l.toElementList ↔
        ReadsElements constructor.toList key.toList l.toElementList ∧
          Settled constructor.toList key.toList 0 false l.lead l.items) ∧
      ((∀ element ∈ l.elements,
          IsBlock constructor.toList element ∨ ¬constructor.toList <:+: element) →
        (RemovesElements constructor key l.toElementList ↔
          Settled constructor.toList key.toList 0 false l.lead l.items))) := by
  refine ⟨fun hreads ↦ hreads.removes_iff_settled, fun hword ↦ ⟨⟨fun hremoves ↦ ?_, ?_⟩,
    fun hblocks ↦ (readsElements_of_blocks hword hblocks).removes_iff_settled⟩⟩
  · have hreads := hremoves.cutsElements.readsElements hword
    exact ⟨hreads, hreads.removes_iff_settled.mp hremoves⟩
  · rintro ⟨hreads, hsettled⟩
    exact hreads.removes_iff_settled.mpr hsettled

/-- Blocks on lines of their own, each with its comma behind it. -/
example : Settled "Field".toList "a".toList 0 false "\n  ".toList
    [⟨"Field(key: 'b')".toList, ",\n  ".toList⟩, ⟨"Field(key: 'a')".toList, ",\n  ".toList⟩,
      ⟨"Field(key: 'c')".toList, ",\n".toList⟩] := by
  decide +kernel

/-- A list of two blocks, with the comma between them on the line of the second. -/
def commaFirstList : SourceList where
  opens := '['
  closes := ']'
  lead := []
  items := [⟨"Field(key: 'a')".toList, "\n, ".toList⟩, ⟨"Field(key: 'b')".toList, []⟩]
  isOpening_opens := rfl
  isClosing_closes := rfl
  isPadding_lead := by simp
  isProper := by
    have hedges (key : Char) : StartsWithEdge ("Field(key: '".toList ++ (key :: "')".toList)) ∧
        EndsWithEdge ("Field(key: '".toList ++ (key :: "')".toList)) :=
      ⟨⟨'F', _, rfl, rfl, by decide⟩, "Field(key: '".toList ++ [key, '\''], ')', rfl, rfl,
        by decide⟩
    refine List.forall_mem_cons.mpr ⟨⟨(hedges 'a').1, (hedges 'a').2, ?_⟩,
      List.forall_mem_singleton.mpr ⟨(hedges 'b').1, (hedges 'b').2, by simp [IsDivider]⟩⟩
    intro c hc
    simp only [String.reduceToList, List.mem_cons, List.not_mem_nil, or_false] at hc
    obtain rfl | rfl | rfl := hc
    · exact .inl rfl
    · exact .inr rfl
    · exact .inl rfl
  singleCommas := by simp [SingleCommas]
  blankComments_text := by decide +kernel

/-- Only on its own line does a block take a comma behind it, so that here the comma is left before
the first element. -/
theorem not_removesElements :
    commaFirstList.text = "[Field(key: 'a')\n, Field(key: 'b')]".toList ∧
      ¬RemovesElements "Field" "a" commaFirstList.toElementList := by
  refine ⟨by decide +kernel, ?_⟩
  rintro ⟨-, left, hopens, hcloses, helements, hresult⟩
  have hkept : commaFirstList.elements.filter
      (!isKeyed "Field".toList "a".toList ·) = ["Field(key: 'b')".toList] := by decide +kernel
  have hcontent : (removeBlocks "Field" "a" (String.ofList commaFirstList.text)).content =
      String.ofList ('[' ::
        ("\n, ".toList ++ (body [⟨"Field(key: 'b')".toList, []⟩] ++ [']']))) := by
    decide +kernel
  obtain ⟨hfirst, hsecond⟩ := List.forall_mem_cons.mp commaFirstList.isProper
  rw [hcontent, ElementList.text, hopens, hcloses, String.ofList_inj] at hresult
  obtain ⟨hlead, -⟩ := items_eq_of_text_eq (isEdge_of_isClosing rfl) hfirst.divider
    (isDivider_of_isPadding left.isPadding_lead) hsecond left.isProper
    (hkept.symm.trans helements.symm) (List.cons.inj hresult).2
  have hcomma : isPadding ',' = true := left.isPadding_lead ',' (by rw [← hlead]; decide)
  cases hcomma

end CalculatorCatalog.Edit
