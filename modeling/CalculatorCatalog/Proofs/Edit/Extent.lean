import CalculatorCatalog.Proofs.Edit.Comments
import CalculatorCatalog.Proofs.Edit.Idempotence
import CalculatorCatalog.Proofs.Text.Layout
import CalculatorCatalog.Proofs.Text.Slice
import Mathlib.Data.List.Forall2

/-!
# What a removal takes out of a source

The ranges that are removed belong to the calls with the key, one range to one call and in the same
order (`forall₂_removals`). A range is the block of its call, from the opening to the bracket that
closes it, with white space and at most one comma around it. The ranges do not overlap
(`pairwise_removals`): the next call begins at a word boundary, and behind a block a word boundary
comes only after everything that goes with the block.

All bounds are places of the source itself, so the source can be cut at them. What is left is the
text between the ranges (`keptFrom?_eq_cut`).
-/

set_option autoImplicit false
set_option relaxedAutoImplicit false

namespace CalculatorCatalog.Edit

open CalculatorCatalog.Text

/-! ### Margins -/

/-- What goes with a block: white space and commas. -/
def IsMarginal (c : Char) : Prop :=
  isWhiteSpace c = true ∨ c = ','

theorem isWhiteSpace_of_isHorizontal {c : Char} (h : isHorizontal c = true) :
    isWhiteSpace c = true := by
  simp only [isHorizontal, Bool.or_eq_true, beq_iff_eq] at h
  obtain rfl | rfl := h <;> rfl

theorem IsMarginal.isWordCharacter_eq {c : Char} (h : IsMarginal c) :
    isWordCharacter c = false := by
  obtain h | rfl := h
  · exact isWordCharacter_of_isWhiteSpace h
  · rfl

theorem isWordCharacter_of_isOpening {c : Char} (h : isOpening c = true) :
    isWordCharacter c = false := by
  simp only [isOpening, Bool.or_eq_true, beq_iff_eq] at h
  obtain (rfl | rfl) | rfl := h <;> rfl

theorem isWordCharacter_of_isClosing {c : Char} (h : isClosing c = true) :
    isWordCharacter c = false := by
  simp only [isClosing, Bool.or_eq_true, beq_iff_eq] at h
  obtain (rfl | rfl) | rfl := h <;> rfl

/-- White space only. -/
def IsGap (text : List Char) : Prop :=
  ∀ c ∈ text, isWhiteSpace c = true

theorem IsGap.append {first second : List Char} (h : IsGap first) (hsecond : IsGap second) :
    IsGap (first ++ second) :=
  List.forall_mem_append.mpr ⟨h, hsecond⟩

theorem IsGap.count_comma {text : List Char} (h : IsGap text) : text.count ',' = 0 :=
  List.count_eq_zero.mpr fun hmem ↦ absurd (h ',' hmem) (by decide)

theorem isGap_of_all_isHorizontal {text : List Char} (h : text.all isHorizontal = true) :
    IsGap text :=
  fun c hc ↦ isWhiteSpace_of_isHorizontal (List.all_eq_true.mp h c hc)

theorem LineEnd.isGap {lineEnd rest : List Char} (h : LineEnd lineEnd rest) : IsGap lineEnd := by
  cases h with
  | endOfText => simp [IsGap]
  | lineBreak => simp [IsGap]; rfl
  | windowsLineBreak => simp [IsGap]; exact ⟨rfl, rfl⟩

/-- White space with at most one comma in it. -/
def IsMargin (text : List Char) : Prop :=
  (∀ c ∈ text, IsMarginal c) ∧ text.count ',' ≤ 1

theorem IsGap.isMargin {text : List Char} (h : IsGap text) : IsMargin text :=
  ⟨fun c hc ↦ .inl (h c hc), by rw [h.count_comma]; exact Nat.zero_le 1⟩

theorem isMargin_comma {first second : List Char} (h : IsGap first) (hsecond : IsGap second) :
    IsMargin (first ++ ',' :: second) := by
  refine ⟨?_, ?_⟩
  · intro c hc
    rcases List.mem_append.mp hc with hc | hc
    · exact .inl (h c hc)
    · rcases List.mem_cons.mp hc with rfl | hc
      · exact .inr rfl
      · exact .inl (hsecond c hc)
  · refine Nat.le_of_eq ?_
    rw [List.count_append, List.count_cons_self, h.count_comma, hsecond.count_comma]

/-- What goes with a block is white space with at most one comma in it. -/
theorem Margins.isMargin {head lead trail tail : List Char} (h : Margins head lead trail tail) :
    IsMargin (lead ++ trail) := by
  cases h with
  | @ownLine _ separator lineEnd _ _ indentation _ _ separated stop =>
    have hlead : IsGap lead := fun c hc ↦ List.all_eq_true.mp indentation c hc
    cases separated with
    | blanks blank =>
      exact (hlead.append ((isGap_of_all_isHorizontal blank).append stop.isGap)).isMargin
    | @comma gap gap' blank blank' =>
      have hsplit : lead ++ (gap ++ ',' :: gap' ++ lineEnd) =
          (lead ++ gap) ++ ',' :: (gap' ++ lineEnd) := by simp
      rw [hsplit]
      exact isMargin_comma (hlead.append (isGap_of_all_isHorizontal blank))
        ((isGap_of_all_isHorizontal blank').append stop.isGap)
  | following separated _ =>
    cases separated with
    | comma blank blank' =>
      exact isMargin_comma (isGap_of_all_isHorizontal blank) (isGap_of_all_isHorizontal blank')
  | @preceding gap _ blank _ =>
    have hgap : IsGap gap := by
      intro c hc
      rcases blank c hc with hc | rfl | rfl
      · exact isWhiteSpace_of_isHorizontal hc
      · rfl
      · rfl
    rw [List.append_nil, ← List.nil_append (',' :: gap)]
    exact isMargin_comma (by simp [IsGap]) hgap
  | bare _ => exact ⟨by simp, by simp⟩

/-! ### Blocks -/

theorem Call.exists_inner_of_hasKey {key : List Char} {call : Call} (h : call.hasKey key = true) :
    ∃ inner, call.inner = some inner ∧ Edit.hasKey key inner = true := by
  rw [Call.hasKey] at h
  cases hinner : call.inner with
  | none => simp [hinner] at h
  | some inner =>
    rw [hinner] at h
    exact ⟨inner, rfl, h⟩

/-! ### The order of the ranges -/

/-- A call that is read begins behind those that have been read before it. -/
theorem pairwise_callsFrom (constructor : List Char) (skip : Nat) (before text : List Char) :
    (callsFrom constructor skip before text).Pairwise fun call later ↦
      ∃ gap, later.before = call.before ++ (call.block ++ gap) := by
  induction text generalizing skip before with
  | nil => cases skip <;> exact .nil
  | cons c text ih =>
    cases skip with
    | succ skip => exact ih skip (before ++ [c])
    | zero =>
      rw [callsFrom]
      cases hcall : callAt? constructor before (c :: text) with
      | none => exact ih 0 (before ++ [c])
      | some call =>
        refine List.pairwise_cons.mpr ⟨fun later hlater ↦ ?_, ih _ _⟩
        obtain ⟨rfl, hsplit, hblock, -⟩ := callAt?_eq_some hcall
        obtain ⟨passed, rest, htext, hskip, hplace⟩ := exists_place_of_mem_callsFrom hlater
        obtain ⟨hbefore, -⟩ := callAt?_eq_some hplace
        -- What has been passed over after the first character covers the rest of the block.
        have hlength : call.block.length ≤ (c :: passed).length := by
          rw [List.length_cons]
          omega
        have hprefix : call.block ++ call.after = (c :: passed) ++ rest := by
          rw [← hsplit, htext, List.cons_append]
        obtain ⟨gap, hgap, -⟩ | ⟨gap, hgap, -⟩ := List.append_eq_append_iff.mp hprefix
        · exact ⟨gap, by rw [hbefore, List.append_assoc, List.singleton_append, hgap]⟩
        · have hnil : gap = [] := by
            have hlengths := congrArg List.length hgap
            rw [List.length_append] at hlengths
            exact List.eq_nil_of_length_eq_zero (by omega)
          refine ⟨[], ?_⟩
          rw [hbefore, List.append_assoc, List.singleton_append, hgap, hnil]
          simp

/-- Nothing that goes with a block is taken from the next call. -/
theorem byteLength_trail_le {constructor text : List Char} {call later : Call}
    (hcall : call ∈ calls constructor text) (hlater : later ∈ calls constructor text)
    (hclosed : call.inner.isSome = true) {gap : List Char}
    (hgap : later.before = call.before ++ (call.block ++ gap)) {trail tail : List Char}
    (hafter : call.after = trail ++ tail) (hmargin : ∀ c ∈ trail, IsMarginal c) :
    byteLength trail ≤ byteLength gap := by
  obtain ⟨htext, hplace⟩ := callAt?_of_mem_calls hcall
  obtain ⟨htext', hplace'⟩ := callAt?_of_mem_calls hlater
  obtain ⟨-, -, -, -, hbracket⟩ := callAt?_eq_some hplace
  obtain ⟨last, hlast, hclosing⟩ := hbracket hclosed
  obtain ⟨-, -, hblock, hboundary, -⟩ := callAt?_eq_some hplace'
  have hsame : trail ++ tail = gap ++ (later.block ++ later.after) := by
    rw [← hafter]
    have heq : call.before ++ call.block ++ call.after =
        call.before ++ call.block ++ (gap ++ (later.block ++ later.after)) := by
      rw [List.append_assoc, ← htext, htext', hgap]
      simp
    exact List.append_cancel_left heq
  by_contra hlt
  obtain ⟨middle, rfl, hmiddle⟩ := exists_eq_append_of_byteLength_le hsame.symm (by omega)
  cases middle with
  | nil => simp at hlt
  | cons c middle =>
    -- The next call would begin inside the trail, where no word begins or ends.
    have hhead : (later.block ++ later.after).head? = some c := by
      rw [hmiddle]
      rfl
    have hbefore : isWordAt later.before.getLast? = false := by
      rw [hgap, List.getLast?_append, List.getLast?_append, hlast]
      cases hgapLast : gap.getLast? with
      | none => exact isWordCharacter_of_isClosing hclosing
      | some d =>
        refine (hmargin d ?_).isWordCharacter_eq
        exact List.mem_append_left _ (List.mem_of_getLast? hgapLast)
    have hafterPlace : isWordAt (some c) = false :=
      (hmargin c (List.mem_append_right _ List.mem_cons_self)).isWordCharacter_eq
    rw [hhead, isWordBoundary, hbefore, hafterPlace] at hboundary
    exact absurd hboundary (by decide)

/-- What goes with a call that is closed leaves the later calls alone. -/
def Call.LeavesAlone (call later : Call) : Prop :=
  ∀ head lead trail tail, call.after = trail ++ tail → Margins head lead trail tail →
    byteLength call.before + byteLength call.block + byteLength trail ≤ byteLength later.before

theorem pairwise_keyedCalls (constructor key content : List Char) :
    (keyedCalls constructor key content).Pairwise Call.LeavesAlone := by
  refine (List.Pairwise.filter _ (pairwise_callsFrom constructor 0 [] _)).imp_of_mem ?_
  intro call later hcall hlater hbefore head lead trail tail hafter hmargins
  obtain ⟨gap, hgap⟩ := hbefore
  obtain ⟨hread, hkey⟩ := List.mem_filter.mp hcall
  obtain ⟨inner, hinner, -⟩ := Call.exists_inner_of_hasKey hkey
  have hmargin : ∀ c ∈ trail, IsMarginal c := fun c hc ↦
    hmargins.isMargin.1 c (List.mem_append_right _ hc)
  have hle := byteLength_trail_le hread (List.mem_filter.mp hlater).1 (by rw [hinner]; rfl) hgap
    hafter hmargin
  rw [hgap, byteLength_append, byteLength_append]
  omega

/-- A range is the block of a call with its margins. -/
def IsRangeOf (call : Call) (range : Removal) : Prop :=
  ∃ head lead trail tail, call.before = head ++ lead ∧ call.after = trail ++ tail ∧
    Margins head lead trail tail ∧
    range = ⟨byteLength head, byteLength call.before + byteLength call.block + byteLength trail,
      byteLength call.before⟩

/-- The ranges of calls that leave one another alone belong to them one by one, and none reaches
into the one before it. -/
theorem rangesOf_spec {floor : Nat} {list : List Call}
    (hfloor : ∀ call ∈ list, floor ≤ byteLength call.before)
    (hlist : list.Pairwise Call.LeavesAlone) :
    List.Forall₂ IsRangeOf list (rangesOf floor list) ∧
      (rangesOf floor list).Pairwise (fun range later ↦ range.stop ≤ later.start) ∧
      ∀ range ∈ rangesOf floor list, floor ≤ range.start := by
  induction list generalizing floor with
  | nil => exact ⟨.nil, .nil, fun range hrange ↦ absurd hrange List.not_mem_nil⟩
  | cons call list ih =>
    obtain ⟨hcall, hrest⟩ := List.pairwise_cons.mp hlist
    rw [List.forall_mem_cons] at hfloor
    obtain ⟨head, lead, trail, tail, hbefore, hafter, hmargins, hhead, hrange⟩ :=
      removal_eq floor call.before call.block call.after
    have hstop : ∀ later ∈ list, byteLength call.before + byteLength call.block +
        byteLength trail ≤ byteLength later.before := fun later hlater ↦
      hcall later hlater head lead trail tail hafter hmargins
    obtain ⟨hranges, hpairwise, hstart⟩ := ih hstop hrest
    have hfloor' := hhead hfloor.1
    have hle : floor ≤ byteLength call.before + byteLength call.block + byteLength trail :=
      Nat.le_trans hfloor.1 (by omega)
    rw [rangesOf]
    simp only [hrange]
    refine ⟨.cons ⟨head, lead, trail, tail, hbefore, hafter, hmargins, rfl⟩ hranges,
      List.pairwise_cons.mpr ⟨hstart, hpairwise⟩, List.forall_mem_cons.mpr ⟨hfloor', ?_⟩⟩
    exact fun range hrange ↦ Nat.le_trans hle (hstart range hrange)

theorem removals_spec (constructor key content : List Char) :
    List.Forall₂ IsRangeOf (keyedCalls constructor key content)
        (removals constructor key content) ∧
      (removals constructor key content).Pairwise fun range later ↦ range.stop ≤ later.start := by
  rw [removals_eq_rangesOf]
  obtain ⟨hranges, hpairwise, -⟩ :=
    rangesOf_spec (fun call _ ↦ Nat.zero_le _) (pairwise_keyedCalls constructor key content)
  exact ⟨hranges, hpairwise⟩

/-! ### The bounds as places of the source -/

section Places

variable {constructor key content : List Char} {range : Removal}

theorem isPlace_start (h : range ∈ removals constructor key content) :
    IsPlace content range.start := by
  obtain ⟨before, after, hhidden, hstart, -, hshape⟩ := exists_start_of_mem_removals h
  rw [← hstart]
  refine isPlace_of_blankComments hhidden fun hlast hhead ↦ ?_
  rcases hshape with (rfl | hline) | hboundary | hcomma
  · cases hlast
  · rw [hlast] at hline
    cases hline
  · rw [isWordBoundary_of_blank (.inl hlast) (.inl hhead)] at hboundary
    cases hboundary
  · rw [hhead] at hcomma
    cases hcomma

theorem isPlace_stop (h : range ∈ removals constructor key content) :
    IsPlace content range.stop := by
  obtain ⟨before, after, hhidden, hstop, hshape⟩ := exists_stop_of_mem_removals h
  rw [← hstop]
  refine isPlace_of_blankComments hhidden fun hlast hhead ↦ ?_
  rcases hshape with rfl | hline | hblank | ⟨c, hclosing, hc⟩
  · cases hhead
  · rw [hlast] at hline
    cases hline
  · exact absurd (hblank ' ' hhead) (by decide)
  · rw [hlast] at hclosing
    obtain rfl := Option.some.inj hclosing
    cases hc

/-- A call that is read begins at a place of the source. -/
theorem isPlace_of_mem_calls {call : Call} (h : call ∈ calls constructor (blankComments content)) :
    IsPlace content (byteLength call.before) := by
  obtain ⟨htext, hplace⟩ := callAt?_of_mem_calls h
  obtain ⟨-, -, -, hboundary, -⟩ := callAt?_eq_some hplace
  refine isPlace_of_blankComments htext fun hlast hhead ↦ ?_
  rw [isWordBoundary_of_blank (.inl hlast) (.inl hhead)] at hboundary
  cases hboundary

/-- A range is not empty, and the place of its block lies inside it. -/
theorem bounds_of_mem_removals (h : range ∈ removals constructor key content) :
    range.start ≤ range.block ∧ range.block < range.stop ∧ IsPlace content range.block := by
  obtain ⟨call, hcall, -, head, lead, trail, tail, hbefore, -, -, rfl⟩ :=
    exists_call_of_mem_removals h
  obtain ⟨-, hplace⟩ := callAt?_of_mem_calls hcall
  obtain ⟨-, -, hblock, -⟩ := callAt?_eq_some hplace
  have hlength := congrArg byteLength hbefore
  have hpos : byteLength call.block ≠ 0 := fun hzero ↦ hblock (byteLength_eq_zero.mp hzero)
  rw [byteLength_append] at hlength
  refine ⟨?_, ?_, isPlace_of_mem_calls hcall⟩
  · simp only
    omega
  · simp only
    omega

end Places

/-! ### What is left -/

/-- The text between ranges, from the offset `last` on; `none` if an offset is no place of the text
or if they are out of order. -/
def keptFrom? (text : List Char) (last : Nat) : List Removal → Option (List Char)
  | [] => slice? last (byteLength text) text
  | range :: ranges => do
    let kept ← slice? last range.start text
    let rest ← keptFrom? text range.stop ranges
    return kept ++ rest

/-- Ranges that a text has been passed cut nothing out of it. -/
theorem cut_cons_of_stop_le {range : Removal} {ranges : List Removal} {offset : Nat}
    (h : range.stop ≤ offset) (text : List Char) :
    cut (range :: ranges) offset text = cut ranges offset text := by
  induction text generalizing offset with
  | nil => rfl
  | cons c text ih =>
    have hpassed : isCut (range :: ranges) offset = isCut ranges offset := by
      rw [isCut, isCut, List.any_cons]
      simp only [Bool.or_eq_right_iff_imp, Bool.and_eq_true, decide_eq_true_eq]
      omega
    rw [cut_cons, cut_cons, hpassed, ih (by omega)]

/-- Cutting ordered ranges out of a text leaves the text between them, which can be cut out of the
text at the bounds of the ranges. -/
theorem keptFrom?_eq_cut {ranges : List Removal} {before text : List Char}
    (hpairwise : ranges.Pairwise fun range later ↦ range.stop ≤ later.start)
    (hstart : ∀ range ∈ ranges, byteLength before ≤ range.start)
    (hbounds : ∀ range ∈ ranges, range.start ≤ range.stop ∧
      IsPlace (before ++ text) range.start ∧ IsPlace (before ++ text) range.stop) :
    keptFrom? (before ++ text) (byteLength before) ranges =
      some (cut ranges (byteLength before) text) := by
  induction ranges generalizing before text with
  | nil =>
    have hslice := slice?_append before text []
    rw [List.append_nil] at hslice
    rw [keptFrom?, byteLength_append, hslice, cut_no_ranges]
  | cons range ranges ih =>
    obtain ⟨hrange, hrest⟩ := List.pairwise_cons.mp hpairwise
    rw [List.forall_mem_cons] at hstart hbounds
    obtain ⟨⟨hle, ⟨first, second, hfirst, hfirstLength⟩, third, fourth, hthird, hthirdLength⟩,
      hplaces⟩ := hbounds
    obtain ⟨kept, rfl, rfl⟩ := exists_eq_append_of_byteLength_le hfirst
      (Nat.le_trans hstart.1 (Nat.le_of_eq hfirstLength.symm))
    obtain ⟨removed, rfl, rfl⟩ := exists_eq_append_of_byteLength_le
      ((List.append_assoc before kept second).trans hthird) (by omega)
    rw [byteLength_append] at hfirstLength
    rw [byteLength_append, byteLength_append] at hthirdLength
    have hslice : slice? (byteLength before) range.start
        (before ++ (kept ++ (removed ++ fourth))) = some kept := by
      rw [← hfirstLength]
      exact slice?_append _ _ _
    have hkept : cut (range :: ranges) (byteLength before) kept = kept := by
      refine cut_eq_self fun place hlow hhigh ↦ ?_
      rw [← Bool.not_eq_true, isCut_iff]
      rintro ⟨other, hother, hin, -⟩
      rcases List.mem_cons.mp hother with rfl | hother
      · omega
      · have hlater := hrange other hother
        omega
    have hremoved : cut (range :: ranges) range.start removed = [] := by
      refine cut_eq_nil fun place hlow hhigh ↦ isCut_iff.mpr ⟨range, List.mem_cons_self, hlow, ?_⟩
      omega
    have hrecursion : keptFrom? (before ++ (kept ++ (removed ++ fourth))) range.stop ranges =
        some (cut ranges range.stop fourth) := by
      have hsplit : before ++ (kept ++ (removed ++ fourth)) =
          (before ++ kept ++ removed) ++ fourth := by simp
      have hlength : byteLength (before ++ kept ++ removed) = range.stop := by
        rw [byteLength_append, byteLength_append, hthirdLength]
      have hlater := hplaces
      rw [hsplit] at hlater ⊢
      rw [← hlength]
      exact ih hrest (fun other hother ↦ by rw [hlength]; exact hrange other hother) hlater
    rw [keptFrom?, hslice, hrecursion]
    simp only [Option.bind_eq_bind, Option.bind_some]
    rw [cut_append, cut_append, hkept, hfirstLength, hremoved]
    have hstop : range.start + byteLength removed = range.stop := by omega
    rw [hstop, cut_cons_of_stop_le (Nat.le_refl _), List.nil_append]
    rfl

/-! ### The account of a removal -/

/-- A range takes out one call with the key and what goes with it. In the source with its comments
hidden it is the block of the call, from its opening to the bracket that closes it, with white space
and at most one comma around it. Its bounds are places of the source. -/
structure TakesOut (constructor key content : List Char) (call : Call) (range : Removal) :
    Prop where
  /-- The range in the source with its comments hidden. -/
  hidden : ∃ head lead trail tail,
    blankComments content = head ++ (lead ++ (call.block ++ (trail ++ tail))) ∧
      call.before = head ++ lead ∧ range.start = byteLength head ∧
      range.block = byteLength (head ++ lead) ∧
      range.stop = byteLength (head ++ (lead ++ (call.block ++ trail))) ∧
      IsMargin (lead ++ trail)
  /-- The block runs from an opening to its bracket, and what is inside has the key. -/
  block : ∃ read inner c after, call.block = read ++ '(' :: (inner ++ [c]) ∧
    blockOpening constructor call.before.getLast? (call.block ++ after) =
      some ((), inner ++ c :: after) ∧
    blankComments content = call.before ++ (call.block ++ after) ∧
    closingOffset? (blankComments content) (range.block + byteLength read) =
      some (range.block + byteLength (read ++ '(' :: inner)) ∧
    Edit.hasKey key inner = true
  place_start : IsPlace content range.start
  place_block : IsPlace content range.block
  place_stop : IsPlace content range.stop

theorem takesOut_of_isRangeOf {constructor key content : List Char} {call : Call} {range : Removal}
    (hcall : call ∈ keyedCalls constructor key content)
    (hrange : range ∈ removals constructor key content) (h : IsRangeOf call range) :
    TakesOut constructor key content call range := by
  obtain ⟨hread, hkey⟩ := List.mem_filter.mp hcall
  obtain ⟨htext, hplace⟩ := callAt?_of_mem_calls hread
  obtain ⟨inner, hinner, hinnerKey⟩ := Call.exists_inner_of_hasKey hkey
  obtain ⟨read, c, hc, hblock, hopening, henclosed⟩ := exists_block_of_callAt? hplace hinner
  have hstart := isPlace_start hrange
  have hstop := isPlace_stop hrange
  obtain ⟨head, lead, trail, tail, hbefore, hafter, hmargins, rfl⟩ := h
  have hlength := congrArg byteLength hbefore
  refine ⟨⟨head, lead, trail, tail, ?_, hbefore, rfl, hlength, ?_, hmargins.isMargin⟩,
    ⟨read, inner, c, call.after, hblock, hopening, htext, ?_, hinnerKey⟩, hstart,
    isPlace_of_mem_calls hread, hstop⟩
  · rw [htext, hbefore, hafter, List.append_assoc]
  · simp only [byteLength_append] at hlength ⊢
    omega
  · have hsplit : blankComments content =
        (call.before ++ read) ++ '(' :: (inner ++ c :: call.after) := by
      rw [htext, hblock]
      simp
    have hsize : ('(').utf8Size = 1 := rfl
    simp only
    rw [hsplit, ← byteLength_append, closingOffset?, splitBytes?_append]
    have hopens : isOpening '(' = true := rfl
    simp only [hopens, if_true, henclosed, Option.map_some, byteLength_append, byteLength_cons,
      hsize, Nat.add_assoc]

/-- Removing blocks removes nothing else. There is one range for each call with the key that is
read, in the order of the calls; the ranges do not overlap, each is the block of its call with white
space and at most one comma around it, and the source can be cut at their bounds. The result is the
source without them. There is one change for each range, with the line of the source on which the
block opens, and without a call with the key the source stays as it is. -/
theorem removeBlocks_takes_out (constructor key content : String) :
    let ranges := removals constructor.toList key.toList content.toList
    ranges.Pairwise (fun range later ↦ range.stop ≤ later.start) ∧
    List.Forall₂ (TakesOut constructor.toList key.toList content.toList)
      (keyedCalls constructor.toList key.toList content.toList) ranges ∧
    keptFrom? content.toList 0 ranges =
      some (removeBlocks constructor key content).content.toList ∧
    List.Forall₂ (fun range change ↦ ∃ before after, content.toList = before ++ after ∧
      byteLength before = range.block ∧ change = .blockRemoved (1 + before.count '\n'))
      ranges (removeBlocks constructor key content).changes ∧
    (keyedCalls constructor.toList key.toList content.toList = [] →
      removeBlocks constructor key content = ⟨content, []⟩) := by
  obtain ⟨hranges, hpairwise⟩ := removals_spec constructor.toList key.toList content.toList
  rw [List.forall₂_iff_zip] at hranges
  refine ⟨hpairwise, List.forall₂_iff_zip.mpr ⟨hranges.1, fun {call range} hpair ↦ ?_⟩, ?_, ?_,
    removeBlocks_eq_self_iff.mpr⟩
  · obtain ⟨hcall, hrange⟩ := List.of_mem_zip hpair
    exact takesOut_of_isRangeOf hcall hrange (hranges.2 hpair)
  · have hkept : keptFrom? ([] ++ content.toList) (byteLength [])
        (removals constructor.toList key.toList content.toList) = _ :=
      keptFrom?_eq_cut hpairwise (fun range _ ↦ Nat.zero_le _) fun range hrange ↦
        ⟨Nat.le_trans (bounds_of_mem_removals hrange).1
          (Nat.le_of_lt (bounds_of_mem_removals hrange).2.1), isPlace_start hrange,
          isPlace_stop hrange⟩
    rw [removeBlocks, String.toList_ofList]
    exact hkept
  · rw [removeBlocks, List.forall₂_map_right_iff, List.forall₂_same]
    intro range hrange
    obtain ⟨before, after, hcontent, hlength⟩ := (bounds_of_mem_removals hrange).2.2
    refine ⟨before, after, hcontent, hlength, ?_⟩
    rw [Source.lineNumber, ← hlength, hcontent, takeBytes_byteLength_append]

end CalculatorCatalog.Edit
