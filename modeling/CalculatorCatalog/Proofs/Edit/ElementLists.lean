import CalculatorCatalog.Proofs.Edit.Separators

/-!
# Lists of elements

The inside of a bracketed list is a sequence of elements with a divider behind each (`Item`). When
the elements with the key are cut out, what is left is again such a sequence: the dividers around
the removed elements, each without what has gone with an element, run together (`Remains`).
`Cursor.leaves` is the induction over the elements.

Whether one comma is left between two elements depends on how many of the removed ones between them
have taken none: all have to take one, apart from one behind the last element of a list without a
comma at its end (`Settled`). `Remains.spaced_iff` counts the commas.
-/

set_option autoImplicit false
set_option relaxedAutoImplicit false

namespace CalculatorCatalog.Edit

open CalculatorCatalog.Text

/-! ### Items -/

/-- An element of a list and the divider behind it. -/
structure Item where
  element : List Char
  divider : List Char

/-- The text of an item. -/
def Item.text (item : Item) : List Char :=
  item.element ++ item.divider

/-- The text of a sequence of items. -/
def body (items : List Item) : List Char :=
  items.flatMap Item.text

/-- An element begins and ends with edges, and the divider behind it is one. -/
structure Item.IsProper (item : Item) : Prop where
  starts : StartsWithEdge item.element
  ends : EndsWithEdge item.element
  divider : IsDivider item.divider

/-- One comma stands behind each element, and one at most behind the last. -/
def SingleCommas : List Item → Prop
  | [] => True
  | item :: rest =>
    item.divider.count ',' ≤ 1 ∧ (rest ≠ [] → ',' ∈ item.divider) ∧ SingleCommas rest

/-- Each element with the text before it. -/
def placesFrom (before : List Char) : List Item → List (List Char × List Char)
  | [] => []
  | item :: rest => (before, item.element) :: placesFrom (before ++ item.text) rest

/-- Whether an element is a call of the constructor with the key, from its first character to its
last. -/
def isKeyed (constructor key element : List Char) : Bool :=
  (callAt? constructor [] element).any fun call ↦ call.after.isEmpty && call.hasKey key

@[simp] theorem body_nil : body [] = [] := rfl

@[simp] theorem body_cons (item : Item) (rest : List Item) :
    body (item :: rest) = item.element ++ (item.divider ++ body rest) := by
  rw [body, List.flatMap_cons, Item.text, List.append_assoc]
  rfl

theorem placesFrom_cons (before : List Char) (item : Item) (rest : List Item) :
    placesFrom before (item :: rest) =
      (before, item.element) :: placesFrom (before ++ item.element ++ item.divider) rest := by
  rw [placesFrom, Item.text, List.append_assoc]

/-- Behind a divider comes an element or the closing bracket. -/
theorem startsWithEdge_body {items : List Item} (h : ∀ item ∈ items, item.IsProper) {closes : Char}
    (hcloses : IsEdge closes) : StartsWithEdge (body items ++ [closes]) := by
  cases items with
  | nil => exact ⟨closes, [], rfl, hcloses⟩
  | cons item rest =>
    obtain ⟨c, tail, hitem, hc⟩ := (h item List.mem_cons_self).starts
    exact ⟨c, tail ++ (item.divider ++ body rest) ++ [closes], by simp [hitem], hc⟩

theorem byteLength_le_of_mem_placesFrom {before : List Char} {items : List Item}
    {place : List Char × List Char} (h : place ∈ placesFrom before items) :
    byteLength before ≤ byteLength place.1 := by
  induction items generalizing before with
  | nil => cases h
  | cons item rest ih =>
    rcases List.mem_cons.mp h with rfl | hmem
    · exact Nat.le_refl _
    · have hle := ih hmem
      rw [byteLength_append] at hle
      omega

/-! ### Cutting out one range -/

theorem cut_of_le_start {ranges : List Removal} {offset : Nat} {text : List Char}
    (h : ∀ range ∈ ranges, offset + byteLength text ≤ range.start) :
    cut ranges offset text = text := by
  refine cut_eq_self fun place _ hhigh ↦ ?_
  rw [← Bool.not_eq_true, isCut_iff]
  rintro ⟨range, hrange, hstart, -⟩
  have hle := h range hrange
  omega

theorem cut_range {range : Removal} {ranges : List Removal} {offset : Nat}
    {first middle : List Char} (hstart : range.start = offset + byteLength first)
    (hstop : range.stop = offset + byteLength first + byteLength middle)
    (hlater : ∀ later ∈ ranges, range.stop ≤ later.start) (rest : List Char) :
    cut (range :: ranges) offset (first ++ (middle ++ rest)) =
      first ++ cut ranges range.stop rest := by
  have hfirst : cut (range :: ranges) offset first = first := by
    refine cut_of_le_start
      (List.forall_mem_cons.mpr ⟨Nat.le_of_eq hstart.symm, fun later hmem ↦ ?_⟩)
    have hle := hlater later hmem
    omega
  have hmiddle : cut (range :: ranges) (offset + byteLength first) middle = [] := by
    refine cut_eq_nil fun place hlow hhigh ↦ isCut_iff.mpr ⟨range, List.mem_cons_self, ?_, ?_⟩
    · omega
    · omega
  rw [cut_append, cut_append, hfirst, hmiddle, List.nil_append, ← hstop,
    cut_cons_of_stop_le (Nat.le_refl _)]

/-! ### What is left of a list -/

/-- What is left of a sequence of items when the elements with the key are removed, given the
divider before it and what is still there of that divider: the divider before the first element
that is left, and the items from there on. -/
inductive Remains (constructor key : List Char) :
    List Char → List Char → List Item → List Char → List Item → Prop
  | nil (divider pending : List Char) : Remains constructor key divider pending [] pending []
  | kept {divider pending lead : List Char} {item : Item} {rest left : List Item}
      (hitem : isKeyed constructor key item.element = false)
      (hrest : Remains constructor key item.divider item.divider rest lead left) :
      Remains constructor key divider pending (item :: rest) pending (⟨item.element, lead⟩ :: left)
  | removed {divider pending kept lead trail leftover lead' : List Char} {item : Item}
      {rest left : List Item} (hitem : isKeyed constructor key item.element = true)
      (hreach : Reach divider pending item.divider kept lead trail leftover)
      (hrest : Remains constructor key item.divider leftover rest lead' left) :
      Remains constructor key divider pending (item :: rest) (kept ++ lead') left

/-- What ranges cut out of the items behind a place in a divider: no range begins before the place,
and every element is cut out or left as a whole. -/
structure Leaves (constructor key : List Char) (closes : Char) (ranges : List Removal)
    (before passed pending : List Char) (items : List Item) : Prop where
  le_start : ∀ range ∈ ranges, byteLength (before ++ passed) ≤ range.start
  exists_remains : ∃ lead left,
    Remains constructor key (passed ++ pending) pending items lead left ∧
    cut ranges (byteLength (before ++ passed)) (pending ++ (body items ++ [closes])) =
      lead ++ (body left ++ [closes])
  cut_element : ∀ place ∈ placesFrom (before ++ (passed ++ pending)) items,
    cut ranges (byteLength place.1) place.2 =
      if isKeyed constructor key place.2 then [] else place.2

section Induction

variable {constructor key before passed pending : List Char} {floor : Nat} {closes : Char}
  {item : Item} {rest : List Item}

/-- Behind an element that stays nothing of the divider has been passed. -/
theorem Cursor.kept (h : Cursor floor before passed pending) (hitem : item.IsProper)
    (hcommas : item.divider.count ',' ≤ 1) :
    Cursor floor (before ++ (passed ++ pending) ++ item.element) [] item.divider := by
  obtain ⟨init, c, hinit, hc⟩ := hitem.ends
  refine ⟨⟨before ++ (passed ++ pending) ++ init, c, ?_, hc⟩, hitem.divider, hcommas, ?_, .inl rfl,
    fun _ _ _ _ ↦ Nat.zero_le _⟩
  · rw [hinit, ← List.append_assoc]
  · have hfloor := h.floor_le
    simp only [byteLength_append] at hfloor ⊢
    omega

/-- Behind a removed element the search goes on where its range ends. -/
theorem Cursor.removed {divider kept lead trail leftover : List Char} (hitem : item.IsProper)
    (hcommas : item.divider.count ',' ≤ 1)
    (hreach : Reach divider pending item.divider kept lead trail leftover) :
    Cursor (byteLength (before ++ item.element) + byteLength trail) (before ++ item.element) trail
      leftover := by
  obtain ⟨init, c, hinit, hc⟩ := hitem.ends
  have hdivider := hitem.divider
  rw [hreach.divider_eq] at hdivider hcommas
  refine ⟨⟨before ++ init, c, ?_, hc⟩, hdivider, ?_, ?_, .inr ?_, ?_⟩
  · rw [hinit, List.append_assoc]
  · rw [List.count_append] at hcommas
    omega
  · rw [byteLength_append (before ++ item.element)]
  · rw [byteLength_append (before ++ item.element)]
  · rw [← hreach.divider_eq]
    exact hreach.line

/-- An element without the key is left with the divider behind it. -/
theorem Leaves.kept {ranges : List Removal} (hkeyed : isKeyed constructor key item.element = false)
    (h : Leaves constructor key closes ranges (before ++ (passed ++ pending) ++ item.element) []
      item.divider rest) :
    Leaves constructor key closes ranges before passed pending (item :: rest) := by
  obtain ⟨hstart, ⟨lead, left, hremains, hcut⟩, hplaces⟩ := h
  have hle : ∀ range ∈ ranges,
      byteLength (before ++ (passed ++ pending)) + byteLength item.element ≤ range.start := by
    intro range hrange
    have hbound := hstart range hrange
    rwa [List.append_nil, byteLength_append _ item.element] at hbound
  refine ⟨fun range hrange ↦ ?_, ⟨pending, _, .kept hkeyed hremains, ?_⟩, ?_⟩
  · have hbound := hle range hrange
    simp only [byteLength_append] at hbound ⊢
    omega
  · have htail : pending ++ (body (item :: rest) ++ [closes]) =
        (pending ++ item.element) ++ (item.divider ++ (body rest ++ [closes])) := by simp
    have hoffset : byteLength (before ++ passed) + byteLength (pending ++ item.element) =
        byteLength (before ++ (passed ++ pending) ++ item.element ++ []) := by
      simp only [byteLength_append, byteLength_nil]
      omega
    rw [htail, cut_append, hoffset, hcut, cut_of_le_start]
    · simp
    · intro range hrange
      have hbound := hle range hrange
      simp only [byteLength_append] at hbound ⊢
      omega
  · rw [placesFrom_cons]
    refine List.forall_mem_cons.mpr ⟨?_, hplaces⟩
    rw [hkeyed, if_neg Bool.false_ne_true]
    exact cut_of_le_start hle

/-- An element with the key is cut out with what it reaches of the dividers around it. -/
theorem Leaves.removed {ranges : List Removal} {range : Removal}
    {kept lead trail leftover : List Char} (hkeyed : isKeyed constructor key item.element = true)
    (hreach : Reach (passed ++ pending) pending item.divider kept lead trail leftover)
    (hstart : range.start = byteLength (before ++ (passed ++ kept)))
    (hstop : range.stop =
      byteLength (before ++ (passed ++ pending)) + byteLength item.element + byteLength trail)
    (h : Leaves constructor key closes ranges (before ++ (passed ++ pending) ++ item.element) trail
      leftover rest) :
    Leaves constructor key closes (range :: ranges) before passed pending (item :: rest) := by
  obtain ⟨hlater, ⟨lead', left, hremains, hcut⟩, hplaces⟩ := h
  have hoffset : byteLength (before ++ (passed ++ pending) ++ item.element ++ trail) =
      range.stop := by
    rw [hstop, byteLength_append, byteLength_append _ item.element]
  rw [hoffset] at hlater hcut
  rw [← hreach.divider_eq] at hremains hplaces
  have hpending := congrArg byteLength hreach.pending_eq
  simp only [byteLength_append] at hstart hstop hpending
  refine ⟨List.forall_mem_cons.mpr ⟨?_, fun later hmem ↦ ?_⟩,
    ⟨_, left, .removed hkeyed hreach hremains, ?_⟩, ?_⟩
  · rw [byteLength_append]
    omega
  · have hbound := hlater later hmem
    rw [byteLength_append]
    omega
  · have htail : pending ++ (body (item :: rest) ++ [closes]) =
        kept ++ ((lead ++ (item.element ++ trail)) ++ (leftover ++ (body rest ++ [closes]))) := by
      rw [body_cons, hreach.divider_eq, hreach.pending_eq]
      simp
    rw [htail, cut_range ?_ ?_ hlater, hcut, List.append_assoc]
    · rw [byteLength_append]
      omega
    · simp only [byteLength_append]
      omega
  · rw [placesFrom_cons]
    refine List.forall_mem_cons.mpr ⟨?_, fun place hmem ↦ ?_⟩
    · rw [hkeyed, if_pos rfl]
      refine cut_eq_nil fun offset hlow hhigh ↦ isCut_iff.mpr ⟨_, List.mem_cons_self, ?_, ?_⟩
      · simp only [byteLength_append] at hlow
        omega
      · simp only [byteLength_append] at hhigh
        omega
    · have hle := byteLength_le_of_mem_placesFrom hmem
      rw [hreach.divider_eq, ← List.append_assoc, byteLength_append, hoffset] at hle
      rw [cut_cons_of_stop_le (by omega)]
      exact hplaces place hmem

/-- What is left of the items of a list behind a place, if the calls that are read from there on are
the elements with the key. -/
theorem Cursor.leaves (hcloses : IsEdge closes) {items : List Item}
    (h : Cursor floor before passed pending) (hitems : ∀ item ∈ items, item.IsProper)
    (hcommas : SingleCommas items) {list : List Call}
    (hlist : list.map (fun call ↦ (call.before, call.block)) =
      (placesFrom (before ++ (passed ++ pending)) items).filter fun place ↦
        isKeyed constructor key place.2)
    (htext : ∀ call ∈ list, call.before ++ (call.block ++ call.after) =
      before ++ (passed ++ pending) ++ (body items ++ [closes])) :
    Leaves constructor key closes (rangesOf floor list) before passed pending items := by
  induction items generalizing floor before passed pending list with
  | nil =>
    obtain rfl : list = [] := List.map_eq_nil_iff.mp hlist
    exact ⟨by simp [rangesOf], ⟨pending, [], .nil _ pending, by simp [rangesOf]⟩, by
      simp [placesFrom]⟩
  | cons item rest ih =>
    obtain ⟨hitem, hrest⟩ := List.forall_mem_cons.mp hitems
    obtain ⟨hcount, -, hcommas⟩ := hcommas
    rw [placesFrom_cons, List.filter_cons] at hlist
    cases hkeyed : isKeyed constructor key item.element with
    | false =>
      simp only [hkeyed, Bool.false_eq_true, if_false] at hlist
      exact .kept hkeyed (ih (h.kept hitem hcount) hrest hcommas hlist (by simpa using htext))
    | true =>
      simp only [hkeyed, if_true] at hlist
      obtain ⟨call, later, rfl, hcall, hlater⟩ := List.map_eq_cons_iff.mp hlist
      obtain ⟨hbefore, hblock⟩ := Prod.mk.inj hcall
      rw [List.forall_mem_cons, hbefore, hblock] at htext
      have hafter : call.after = item.divider ++ (body rest ++ [closes]) := by
        have hsame := htext.1
        rw [body_cons, List.append_assoc item.element, List.append_assoc item.divider] at hsame
        exact List.append_cancel_left (List.append_cancel_left hsame)
      obtain ⟨kept, lead, trail, leftover, hreach, hrange⟩ :=
        h.exists_removal_eq (startsWithEdge_body hrest hcloses) item.divider item.element
      rw [hreach.divider_eq] at hlater
      have hbehind := ih (Cursor.removed hitem hcount hreach) hrest hcommas hlater (by
        simpa [hreach.divider_eq] using htext.2)
      rw [byteLength_append _ item.element] at hbehind
      rw [rangesOf, hbefore, hblock, hafter]
      simp only [hrange]
      exact .removed hkeyed hreach rfl rfl hbehind

end Induction

namespace Remains

variable {constructor key divider pending lead : List Char} {items left : List Item}

theorem elements (h : Remains constructor key divider pending items lead left) :
    left.map Item.element =
      (items.map Item.element).filter fun element ↦ !isKeyed constructor key element := by
  induction h with
  | nil divider pending => rfl
  | kept hitem _ ih => simp [hitem, ih]
  | removed hitem _ _ ih => simp [hitem, ih]

theorem isProper (h : Remains constructor key divider pending items lead left)
    (hpending : IsDivider pending) (hitems : ∀ item ∈ items, item.IsProper) :
    IsDivider lead ∧ ∀ item ∈ left, item.IsProper := by
  induction h with
  | nil divider pending => exact ⟨hpending, by simp⟩
  | kept _ _ ih =>
    rw [List.forall_mem_cons] at hitems
    obtain ⟨hlead, hleft⟩ := ih hitems.1.divider hitems.2
    exact ⟨hpending, List.forall_mem_cons.mpr ⟨⟨hitems.1.starts, hitems.1.ends, hlead⟩, hleft⟩⟩
  | removed _ hreach _ ih =>
    rw [List.forall_mem_cons] at hitems
    have hdivider := hitems.1.divider
    rw [hreach.divider_eq] at hdivider
    rw [hreach.pending_eq] at hpending
    obtain ⟨hlead, hleft⟩ := ih hdivider.of_append.2 hitems.2
    exact ⟨hpending.of_append.1.append hlead, hleft⟩

end Remains

/-! ### Counting commas -/

/-- One comma stands between two elements, none before the first and one at most behind the last.
`first` says whether no element has come yet, and `commas` counts the commas since the last one. -/
def Spaced : Bool → Nat → List Item → Prop
  | first, commas, [] => commas ≤ if first then 0 else 1
  | first, commas, item :: rest =>
    commas = (if first then 0 else 1) ∧ Spaced false (item.divider.count ',') rest

/-- Every removed element before one that stays takes a comma, and behind the last one that stays
all do, or all but one if there is no comma at the end. `missed` counts the removed elements since
the last one that stays which have taken none, and `free` says whether the divider before the next
element still has its comma. -/
def Settled (constructor key : List Char) : Nat → Bool → List Char → List Item → Prop
  | missed, _, divider, [] => missed + divider.count ',' ≤ 1
  | missed, free, divider, item :: rest =>
    if isKeyed constructor key item.element then
      Settled constructor key (missed + if takesComma free divider item.divider then 0 else 1)
        (!commaOnLine item.divider) item.divider rest
    else missed = 0 ∧ Settled constructor key 0 true item.divider rest

instance decidableSettled (constructor key : List Char) :
    ∀ (missed : Nat) (free : Bool) (divider : List Char) (items : List Item),
      Decidable (Settled constructor key missed free divider items)
  | missed, _, divider, [] => inferInstanceAs (Decidable (missed + divider.count ',' ≤ 1))
  | missed, free, divider, item :: rest =>
    have := decidableSettled constructor key
      (missed + if takesComma free divider item.divider then 0 else 1)
      (!commaOnLine item.divider) item.divider rest
    have := decidableSettled constructor key 0 true item.divider rest
    inferInstanceAs (Decidable (if isKeyed constructor key item.element then _ else _))

/-- The comma between two elements has not been taken from the left exactly if it does not come on
the line of the element before it. -/
theorem Reach.comma_mem_leftover_iff {divider pending divider' kept lead trail left : List Char}
    (h : Reach divider pending divider' kept lead trail left) (hmem : ',' ∈ divider')
    (hcount : divider'.count ',' ≤ 1) : ',' ∈ left ↔ commaOnLine divider' = false := by
  rw [← Bool.not_eq_true, ← h.comma_mem_iff, ← List.count_pos_iff, ← List.count_pos_iff]
  rw [← List.count_pos_iff] at hmem
  rw [h.divider_eq, List.count_append] at hmem hcount
  omega

/-- The commas that are left fit the elements that are left exactly if the list is settled. The
balance says how many commas have been left since the last element, and `missing` whether the list
has no comma at its end. -/
theorem Remains.spaced_iff {constructor key divider pending lead : List Char}
    {items left : List Item} (h : Remains constructor key divider pending items lead left)
    (hcommas : SingleCommas items) {first free : Bool} {missed commas missing : Nat}
    (hfree : items ≠ [] → free = decide (',' ∈ pending))
    (hinner : items ≠ [] → missing = 0)
    (hend : items = [] → (missed + divider.count ',' ≤ 1 ↔ missed ≤ missing))
    (hbalance : commas + pending.count ',' + missing = (if first then 0 else 1) + missed) :
    Spaced first (commas + lead.count ',') left ↔
      Settled constructor key missed free divider items := by
  induction h generalizing first free missed commas missing with
  | nil divider pending =>
    rw [Spaced, Settled, hend rfl]
    omega
  | @kept divider pending lead item rest left hitem _ ih =>
    obtain ⟨hcount, hmem, hcommas⟩ := hcommas
    have hmissing := hinner (List.cons_ne_nil _ _)
    have hnext : Spaced false (0 + lead.count ',') left ↔
        Settled constructor key 0 true item.divider rest := by
      refine @ih hcommas false true 0 0 (1 - item.divider.count ',') (fun hne ↦ ?_) (fun hne ↦ ?_)
        (fun _ ↦ ?_) ?_
      · simp [hmem hne]
      · have hpos := List.count_pos_iff.mpr (hmem hne)
        omega
      · omega
      · simp only [Bool.false_eq_true, if_false]
        omega
    rw [Nat.zero_add] at hnext
    rw [Spaced, Settled, hitem, if_neg Bool.false_ne_true, hnext]
    refine and_congr_left fun _ ↦ ?_
    omega
  | @removed divider pending kept lead trail leftover lead' item rest left hitem hreach _ ih =>
    obtain ⟨hcount, hmem, hcommas⟩ := hcommas
    have hmissing := hinner (List.cons_ne_nil _ _)
    have htaken := hreach.count_comma
    have hpending := congrArg (List.count ',') hreach.pending_eq
    have hdivider := congrArg (List.count ',') hreach.divider_eq
    rw [← hfree (List.cons_ne_nil _ _)] at htaken
    rw [List.count_append] at hpending hdivider
    rw [Settled, hitem, if_pos rfl, List.count_append, ← Nat.add_assoc]
    refine @ih hcommas first _ _ _ (1 - item.divider.count ',') (fun hne ↦ ?_) (fun hne ↦ ?_)
      (fun _ ↦ ?_) ?_
    · rw [Bool.eq_iff_iff, decide_eq_true_eq, hreach.comma_mem_leftover_iff (hmem hne) hcount,
        Bool.not_eq_true']
    · have hpos := List.count_pos_iff.mpr (hmem hne)
      omega
    · omega
    · generalize (if first = true then 0 else 1) = base at hbalance ⊢
      cases htakes : takesComma free divider item.divider with
      | true =>
        rw [htakes, if_pos rfl] at htaken
        simp only [if_true]
        omega
      | false =>
        rw [htakes, if_neg Bool.false_ne_true] at htaken
        simp only [Bool.false_eq_true, if_false]
        omega

end CalculatorCatalog.Edit
