import CalculatorCatalog.Proofs.Edit.Extent

/-!
# The comma that a removal takes

The elements of a list are divided by commas with blanks and line breaks around them. Which comma
goes with a removed element depends on the divider before it and the divider behind it: on whether a
comma comes on the same line (`commaOnLine`), on whether the element has its lines for itself
(`startsLine`, `breaksLine`), and on whether the comma before it has already been taken.

`Cursor.exists_removal_eq` says what is taken of either divider. An element takes one comma if a
comma follows on its line, or if the one before it is still there and the element does not go with
its whole lines (`takesComma`); otherwise it takes none.
-/

set_option autoImplicit false
set_option relaxedAutoImplicit false

namespace CalculatorCatalog.Edit

open CalculatorCatalog.Text

/-! ### Dividers and edges -/

/-- A space, a tab or a character of a line break. -/
def isPadding (c : Char) : Bool :=
  isHorizontal c || c == '\n' || c == '\r'

/-- What stands between two elements: commas and the space around them. -/
def IsDivider (text : List Char) : Prop :=
  ∀ c ∈ text, isPadding c = true ∨ c = ','

/-- A character with which an element can begin or end. -/
def IsEdge (c : Char) : Prop :=
  isWhiteSpace c = false ∧ c ≠ ','

/-- An edge comes first. -/
def StartsWithEdge (text : List Char) : Prop :=
  ∃ c tail, text = c :: tail ∧ IsEdge c

/-- An edge comes last. -/
def EndsWithEdge (text : List Char) : Prop :=
  ∃ init c, text = init ++ [c] ∧ IsEdge c

theorem isWhiteSpace_of_isPadding {c : Char} (h : isPadding c = true) : isWhiteSpace c = true := by
  simp only [isPadding, Bool.or_eq_true, beq_iff_eq] at h
  obtain (h | rfl) | rfl := h
  · exact isWhiteSpace_of_isHorizontal h
  · rfl
  · rfl

theorem isPadding_iff {c : Char} :
    isPadding c = true ↔ isHorizontal c = true ∨ c = '\n' ∨ c = '\r' := by
  simp only [isPadding, Bool.or_eq_true, beq_iff_eq, or_assoc]

theorem ne_comma_of_isPadding {c : Char} (h : isPadding c = true) : c ≠ ',' := by
  rintro rfl
  cases h

theorem utf8Size_of_isPadding {c : Char} (h : isPadding c = true) : c.utf8Size = 1 := by
  simp only [isPadding, isHorizontal, Bool.or_eq_true, beq_iff_eq] at h
  obtain ((rfl | rfl) | rfl) | rfl := h <;> rfl

theorem IsEdge.isPadding_eq {c : Char} (h : IsEdge c) : isPadding c = false := by
  cases hpadding : isPadding c with
  | false => rfl
  | true =>
    rw [IsEdge, isWhiteSpace_of_isPadding hpadding] at h
    cases h.1

theorem IsEdge.isHorizontal_eq {c : Char} (h : IsEdge c) : isHorizontal c = false := by
  have hpadding := h.isPadding_eq
  simp only [isPadding, Bool.or_eq_false_iff] at hpadding
  exact hpadding.1.1

theorem IsEdge.ne_lineBreak {c : Char} (h : IsEdge c) : c ≠ '\n' ∧ c ≠ '\r' := by
  have hpadding := h.isPadding_eq
  simp only [isPadding, Bool.or_eq_false_iff, beq_eq_false_iff_ne] at hpadding
  exact ⟨hpadding.1.2, hpadding.2⟩

theorem isEdge_of_isOpening {c : Char} (h : isOpening c = true) : IsEdge c := by
  simp only [isOpening, Bool.or_eq_true, beq_iff_eq] at h
  obtain (rfl | rfl) | rfl := h <;> exact ⟨rfl, by decide⟩

theorem isEdge_of_isClosing {c : Char} (h : isClosing c = true) : IsEdge c := by
  simp only [isClosing, Bool.or_eq_true, beq_iff_eq] at h
  obtain (rfl | rfl) | rfl := h <;> exact ⟨rfl, by decide⟩

theorem isDivider_of_isPadding {text : List Char} (h : ∀ c ∈ text, isPadding c = true) :
    IsDivider text :=
  fun c hc ↦ .inl (h c hc)

theorem IsDivider.of_append {first second : List Char} (h : IsDivider (first ++ second)) :
    IsDivider first ∧ IsDivider second :=
  List.forall_mem_append.mp h

theorem IsDivider.of_cons {c : Char} {text : List Char} (h : IsDivider (c :: text)) :
    IsDivider text :=
  (List.forall_mem_cons.mp h).2

theorem IsDivider.append {first second : List Char} (h : IsDivider first)
    (hsecond : IsDivider second) : IsDivider (first ++ second) :=
  List.forall_mem_append.mpr ⟨h, hsecond⟩

/-- A divider without a comma is white space. -/
theorem IsDivider.isPadding_of_notMem {text : List Char} (h : IsDivider text) (hcomma : ',' ∉ text)
    {c : Char} (hc : c ∈ text) : isPadding c = true := by
  rcases h c hc with hpadding | rfl
  · exact hpadding
  · exact absurd hc hcomma

theorem isWordCharacter_of_isDivider {divider : List Char} (h : IsDivider divider) {c : Char}
    (hc : c ∈ divider) : isWordCharacter c = false := by
  rcases h c hc with hpadding | rfl
  · exact isWordCharacter_of_isWhiteSpace (isWhiteSpace_of_isPadding hpadding)
  · rfl

theorem IsDivider.isBlank_eq {text : List Char} (h : IsDivider text) :
    isBlank text = decide (',' ∉ text) := by
  rw [Bool.eq_iff_iff, isBlank, List.all_eq_true, decide_eq_true_eq]
  constructor
  · intro hblank hmem
    exact absurd (hblank ',' hmem) (by decide)
  · exact fun hcomma c hc ↦ isWhiteSpace_of_isPadding (h.isPadding_of_notMem hcomma hc)

/-! ### The layout of a divider -/

/-- Whether a comma comes on the line on which the element before the divider ends. -/
def commaOnLine (divider : List Char) : Bool :=
  (afterBlock divider).1

/-- Whether the line ends behind the element before the divider and the comma on its line. -/
def breaksLine (divider : List Char) : Bool :=
  !(afterBlock divider).2.isEmpty && (lineEnd? (afterBlock divider).2).isSome

/-- Whether a line begins behind the comma of the divider, so that nothing but space comes before
the next element on its line. -/
def startsLine (divider : List Char) : Bool :=
  decide ('\n' ∈ divider ∧ ',' ∉ Source.openLine divider)

/-- Whether an element between two dividers takes a comma when it is removed, where `free` says
whether the first divider still has its comma. -/
def takesComma (free : Bool) (divider divider' : List Char) : Bool :=
  commaOnLine divider' || (free && !(startsLine divider && breaksLine divider'))

theorem afterBlock_append {rest : List Char} (h : StartsWithEdge rest) (divider : List Char) :
    afterBlock (divider ++ rest) = ((afterBlock divider).1, (afterBlock divider).2 ++ rest) := by
  obtain ⟨c, tail, rfl, hc⟩ := h
  have hhorizontal := hc.isHorizontal_eq
  rw [afterBlock, afterBlock, dropWhile_append_barrier hhorizontal]
  cases hdrop : divider.dropWhile isHorizontal with
  | nil =>
    rw [List.nil_append]
    split
    · next rest heq => exact absurd (List.cons.inj heq).1 hc.2
    · rfl
  | cons d left =>
    rw [List.cons_append]
    by_cases hd : d = ','
    · subst hd
      simp only [dropWhile_append_barrier hhorizontal]
    · split
      · next rest heq => exact absurd (List.cons.inj heq).1 hd
      · split
        · next rest heq => exact absurd (List.cons.inj heq).1 hd
        · rfl

theorem lineEnd?_append {rest : List Char} (h : StartsWithEdge rest) (text : List Char) :
    lineEnd? (text ++ rest) = if text.isEmpty then none else lineEnd? text := by
  obtain ⟨c, tail, rfl, hc⟩ := h
  obtain ⟨hbreak, hreturn⟩ := hc.ne_lineBreak
  match text with
  | [] => simp [lineEnd?, hbreak, hreturn]
  | [d] =>
    by_cases hd : d = '\n'
    · subst hd
      rfl
    · by_cases hd' : d = '\r'
      · subst hd'
        simp [lineEnd?, hbreak]
      · simp [lineEnd?, hd, hd']
  | d :: d' :: text =>
    by_cases hd : d = '\n'
    · subst hd
      rfl
    · by_cases hd' : d = '\r'
      · subst hd'
        by_cases hd'' : d' = '\n'
        · subst hd''
          rfl
        · simp [lineEnd?, hd'']
      · simp [lineEnd?, hd, hd']

/-! ### The line before an element -/

theorem openLine_append {line : List Char} (h : '\n' ∉ line) (before : List Char) :
    Source.openLine (before ++ '\n' :: line) = line := by
  have hline : ∀ c ∈ line.reverse, (c != '\n') = true := by
    intro c hc
    rw [bne_iff_ne]
    rintro rfl
    exact h (List.mem_reverse.mp hc)
  have hsplit : (before ++ '\n' :: line).reverse = line.reverse ++ '\n' :: before.reverse := by simp
  rw [Source.openLine, hsplit, List.takeWhile_append_of_pos hline,
    List.takeWhile_cons_of_neg (by simp), List.append_nil, List.reverse_reverse]

/-- The last line break of a text. -/
theorem exists_lastLine {text : List Char} (h : '\n' ∈ text) :
    ∃ closed line, text = closed ++ '\n' :: line ∧ '\n' ∉ line := by
  obtain ⟨lines, htext, hlines, hline⟩ := Source.exists_lines text
  rcases hlines with rfl | hlast
  · rw [htext] at h
    exact absurd h hline
  · obtain ⟨closed, rfl⟩ := List.getLast?_eq_some_iff.mp hlast
    rw [List.append_assoc] at htext
    exact ⟨closed, Source.openLine text, htext, hline⟩

theorem startsLine_append {closed line : List Char} (h : '\n' ∉ line) :
    startsLine (closed ++ '\n' :: line) = decide (',' ∉ line) := by
  simp [startsLine, openLine_append h]

/-- Whether only space stands before an element on its line. The text before the divider ends in
something else. -/
theorem isBlank_openLine {before divider : List Char} (hbefore : EndsWithEdge before)
    (hdivider : IsDivider divider) :
    isBlank (Source.openLine (before ++ divider)) = startsLine divider := by
  by_cases hbreak : '\n' ∈ divider
  · obtain ⟨closed, line, rfl, hline⟩ := exists_lastLine hbreak
    rw [← List.append_assoc, openLine_append hline, startsLine_append hline]
    have hparts := hdivider.of_append.2
    exact IsDivider.isBlank_eq fun c hc ↦ hparts c (List.mem_cons_of_mem _ hc)
  · obtain ⟨init, c, rfl, hc⟩ := hbefore
    have hstarts : startsLine divider = false := by simp [startsLine, hbreak]
    have hpassed : ∀ d ∈ divider.reverse, (d != '\n') = true := by
      intro d hd
      rw [bne_iff_ne]
      rintro rfl
      exact hbreak (List.mem_reverse.mp hd)
    have hmem : c ∈ Source.openLine (init ++ [c] ++ divider) := by
      have hsplit :
          (init ++ [c] ++ divider).reverse = divider.reverse ++ c :: init.reverse := by simp
      rw [Source.openLine, hsplit, List.takeWhile_append_of_pos hpassed,
        List.takeWhile_cons_of_pos (by simp [hc.ne_lineBreak.1])]
      simp
    rw [hstarts, ← Bool.not_eq_true, isBlank, List.all_eq_true]
    intro hblank
    have hwhite := hblank c hmem
    rw [hc.1] at hwhite
    cases hwhite

/-! ### The comma before an element -/

/-- A comma that is not too far back is found through the space behind it. -/
theorem precedingComma?_of_comma {gap : List Char} (hgap : ∀ c ∈ gap, isPadding c = true)
    {room : Nat} (hroom : byteLength gap < room) (before : List Char) :
    precedingComma? room (gap ++ ',' :: before) = some (byteLength gap + 1) := by
  induction gap generalizing room with
  | nil =>
    cases room with
    | zero => cases hroom
    | succ room => rfl
  | cons c gap ih =>
    rw [List.forall_mem_cons] at hgap
    rw [byteLength_cons] at hroom ⊢
    have hsize : c.utf8Size = 1 := utf8Size_of_isPadding hgap.1
    cases room with
    | zero => cases hroom
    | succ room =>
      rw [List.cons_append, precedingComma?, if_neg (ne_comma_of_isPadding hgap.1),
        if_pos (isPadding_iff.mp hgap.1), ih hgap.2 (by omega), Option.map_some]
      congr 1
      omega

/-- No comma is found where the space before a place ends at an edge or is not to be left. -/
theorem precedingComma?_of_padding {gap : List Char} (hgap : ∀ c ∈ gap, isPadding c = true)
    {room : Nat} {before : List Char}
    (h : room ≤ byteLength gap ∨ ∃ c tail, before = c :: tail ∧ IsEdge c) :
    precedingComma? room (gap ++ before) = none := by
  induction gap generalizing room with
  | nil =>
    cases room with
    | zero => rfl
    | succ room =>
      rcases h with hroom | ⟨c, tail, rfl, hc⟩
      · cases hroom
      · have hpadding := hc.isPadding_eq
        rw [List.nil_append, precedingComma?, if_neg hc.2, if_neg]
        rw [← isPadding_iff, hpadding]
        exact Bool.false_ne_true
  | cons c gap ih =>
    rw [List.forall_mem_cons] at hgap
    have hsize : c.utf8Size = 1 := utf8Size_of_isPadding hgap.1
    cases room with
    | zero => rfl
    | succ room =>
      have hroom : room ≤ byteLength gap ∨ ∃ c tail, before = c :: tail ∧ IsEdge c := by
        refine h.imp_left fun hle ↦ ?_
        rw [byteLength_cons] at hle
        omega
      rw [List.cons_append, precedingComma?, if_neg (ne_comma_of_isPadding hgap.1),
        if_pos (isPadding_iff.mp hgap.1), ih hgap.2 hroom]
      rfl

/-! ### What goes with an element -/

/-- A text that has no line break, or ends in one, does not reach behind the last line break. -/
theorem byteLength_le_of_line {trail left closed line : List Char}
    (h : trail ++ left = closed ++ '\n' :: line) (hline : '\n' ∉ line)
    (htrail : '\n' ∉ trail ∨ trail.getLast? = some '\n') :
    byteLength trail ≤ byteLength (closed ++ ['\n']) := by
  by_contra hlt
  have hsplit : (closed ++ ['\n']) ++ line = trail ++ left := by
    rw [h, List.append_assoc]
    rfl
  obtain ⟨middle, rfl, rfl⟩ := exists_eq_append_of_byteLength_le hsplit (Nat.le_of_not_le hlt)
  rcases htrail with hnone | hlast
  · exact hnone (by simp)
  · cases hmiddle : middle.getLast? with
    | none =>
      rw [List.getLast?_eq_none_iff.mp hmiddle, List.append_nil] at hlt
      exact hlt (Nat.le_refl _)
    | some c =>
      rw [List.getLast?_append, hmiddle, Option.some_or, Option.some.injEq] at hlast
      subst hlast
      exact hline (List.mem_append_left _ (List.mem_of_getLast? hmiddle))

/-- The parts of two dividers that go with the element between them: the end `lead` of what is left
of the first, which is `pending`, and the beginning `trail` of the second. -/
structure Reach (divider pending divider' kept lead trail left : List Char) : Prop where
  pending_eq : pending = kept ++ lead
  divider_eq : divider' = trail ++ left
  count_comma : lead.count ',' + trail.count ',' =
    if takesComma (decide (',' ∈ pending)) divider divider' then 1 else 0
  comma_mem_iff : ',' ∈ trail ↔ commaOnLine divider' = true
  line : ∀ closed line, divider' = closed ++ '\n' :: line → '\n' ∉ line →
    byteLength trail ≤ byteLength (closed ++ ['\n'])

theorem Separator.count_comma {gap : List Char} {hasComma : Bool} (h : Separator gap hasComma) :
    gap.count ',' = if hasComma then 1 else 0 := by
  cases h with
  | blanks blank => exact (isGap_of_all_isHorizontal blank).count_comma
  | comma blank blank' =>
    rw [List.count_append, List.count_cons_self, (isGap_of_all_isHorizontal blank).count_comma,
      (isGap_of_all_isHorizontal blank').count_comma]
    rfl

theorem Separator.lineBreak_notMem {gap : List Char} {hasComma : Bool}
    (h : Separator gap hasComma) : '\n' ∉ gap := by
  have hhorizontal {text : List Char} (htext : text.all isHorizontal = true) : '\n' ∉ text :=
    fun hmem ↦ absurd (List.all_eq_true.mp htext _ hmem) (by decide)
  cases h with
  | blanks blank => exact hhorizontal blank
  | comma blank blank' => simp [hhorizontal blank, hhorizontal blank']

theorem LineEnd.getLast?_append {lineEnd rest : List Char} (h : LineEnd lineEnd rest)
    (hne : lineEnd ++ rest ≠ []) (before : List Char) :
    (before ++ lineEnd).getLast? = some '\n' := by
  cases h with
  | endOfText => exact absurd rfl hne
  | lineBreak => simp
  | windowsLineBreak => simp

namespace Reach

variable {divider pending divider' kept lead separator lineEnd left gap : List Char}

/-- An element that has its lines for itself takes a comma on its line. -/
theorem ownLine (hpending : pending = kept ++ lead) (hlead : ',' ∉ lead)
    (hdivider : divider' = separator ++ (lineEnd ++ left))
    (hseparator : Separator separator (commaOnLine divider')) (hlineEnd : LineEnd lineEnd left)
    (hne : lineEnd ++ left ≠ []) (hstarts : startsLine divider = true)
    (hbreaks : breaksLine divider' = true) :
    Reach divider pending divider' kept lead (separator ++ lineEnd) left := by
  have hcount : (separator ++ lineEnd).count ',' = if commaOnLine divider' then 1 else 0 := by
    rw [List.count_append, hseparator.count_comma, hlineEnd.isGap.count_comma, Nat.add_zero]
  refine ⟨hpending, by rw [hdivider, List.append_assoc], ?_, ?_, fun closed line hsplit hline ↦ ?_⟩
  · rw [List.count_eq_zero.mpr hlead, hcount, takesComma, hstarts, hbreaks]
    simp
  · rw [← List.count_pos_iff, hcount]
    split_ifs with hcomma <;> simp [hcomma]
  · rw [hdivider, ← List.append_assoc] at hsplit
    exact byteLength_le_of_line hsplit hline (.inr (hlineEnd.getLast?_append hne separator))

/-- An element takes a comma that follows on its line. -/
theorem following (hdivider : divider' = separator ++ left)
    (hseparator : Separator separator (commaOnLine divider'))
    (hcomma : commaOnLine divider' = true) :
    Reach divider pending divider' pending [] separator left := by
  have hcount := hseparator.count_comma
  rw [hcomma, if_pos rfl] at hcount
  refine ⟨(List.append_nil pending).symm, hdivider, ?_, ?_, fun closed line hsplit hline ↦ ?_⟩
  · rw [hcount, takesComma, hcomma]
    rfl
  · rw [← List.count_pos_iff, hcount, hcomma]
    simp
  · exact byteLength_le_of_line (hdivider.symm.trans hsplit) hline
      (.inl hseparator.lineBreak_notMem)

/-- An element takes the comma before it if none follows on its line. -/
theorem preceding (hpending : pending = kept ++ ',' :: gap) (hgap : ',' ∉ gap)
    (hown : (startsLine divider && breaksLine divider') = false)
    (hcomma : commaOnLine divider' = false) :
    Reach divider pending divider' kept (',' :: gap) [] divider' := by
  refine ⟨hpending, rfl, ?_, by simp [hcomma], fun _ _ _ _ ↦ Nat.zero_le _⟩
  rw [List.count_cons_self, List.count_eq_zero.mpr hgap, takesComma, hcomma, hown, hpending]
  simp

/-- An element takes no comma if the one before it has been taken. -/
theorem bare (hpending : ',' ∉ pending) (hcomma : commaOnLine divider' = false) :
    Reach divider pending divider' pending [] [] divider' := by
  refine ⟨(List.append_nil pending).symm, rfl, ?_, by simp [hcomma], fun _ _ _ _ ↦ Nat.zero_le _⟩
  simp [takesComma, hcomma, hpending]

end Reach

/-- A place in a divider up to which ranges have been found: `passed` comes before the place, where
the last range may have ended at `floor`, and `pending` behind it. -/
structure Cursor (floor : Nat) (before passed pending : List Char) : Prop where
  edge : EndsWithEdge before
  divider : IsDivider (passed ++ pending)
  count_comma : pending.count ',' ≤ 1
  floor_le : floor ≤ byteLength (before ++ passed)
  passed_eq : passed = [] ∨ floor = byteLength (before ++ passed)
  line : ∀ closed line, passed ++ pending = closed ++ '\n' :: line → '\n' ∉ line →
    byteLength passed ≤ byteLength (closed ++ ['\n'])

section Removal

variable {floor stop : Nat} {before passed pending divider divider' separator after : List Char}

/-- What the search for the range of an element sees of the text around it. -/
theorem removal_append (hbefore : EndsWithEdge before) (hdivider : IsDivider divider)
    (hafter : StartsWithEdge after) (hsplit : divider' = separator ++ (afterBlock divider').2) :
    removal floor (byteLength (before ++ divider)) stop (before ++ divider).reverse
        (divider' ++ after) =
      let start := byteLength (before ++ divider)
      let lineStart := start - byteLength (Source.openLine (before ++ divider))
      match if floor ≤ lineStart ∧ (startsLine divider && breaksLine divider') = true then
        lineEnd? (afterBlock divider').2 else none with
      | some length => ⟨lineStart, stop + byteLength separator + length, start⟩
      | none =>
        if commaOnLine divider' then ⟨start, stop + byteLength separator, start⟩
        else match precedingComma? (start - floor) (before ++ divider).reverse with
          | some distance => ⟨start - distance, stop, start⟩
          | none => ⟨start, stop, start⟩ := by
  have hindentation : (before ++ divider).reverse.takeWhile (· != '\n') =
      (Source.openLine (before ++ divider)).reverse := (List.reverse_reverse _).symm
  have hblank : isBlank (Source.openLine (before ++ divider)).reverse = startsLine divider := by
    rw [← isBlank_openLine hbefore hdivider, isBlank, isBlank, List.all_reverse]
  have htail : stop + byteLength (divider' ++ after) -
      byteLength ((afterBlock divider').2 ++ after) = stop + byteLength separator := by
    have hlength := congrArg byteLength hsplit
    simp only [byteLength_append] at hlength ⊢
    omega
  have hbreaks :
      (if (afterBlock divider').2.isEmpty then none else lineEnd? (afterBlock divider').2) =
        if breaksLine divider' then lineEnd? (afterBlock divider').2 else none := by
    rw [breaksLine]
    cases (afterBlock divider').2.isEmpty <;>
      cases lineEnd? (afterBlock divider').2 <;> rfl
  unfold removal
  simp only [afterBlock_append hafter, hindentation, hblank, htail, lineEnd?_append hafter,
    byteLength_reverse, hbreaks, Bool.and_eq_true, ite_and]
  rfl

/-- An element that has its lines for itself goes with what is left of its first line and with the
end of its last one. -/
theorem Cursor.exists_ownLine (h : Cursor floor before passed pending)
    (hown : (startsLine (passed ++ pending) && breaksLine divider') = true)
    (hsplit : divider' = separator ++ (afterBlock divider').2)
    (hseparator : Separator separator (commaOnLine divider')) :
    ∃ kept lead lineEnd left,
      Reach (passed ++ pending) pending divider' kept lead (separator ++ lineEnd) left ∧
      floor ≤ byteLength (before ++ (passed ++ kept)) ∧
      byteLength (before ++ (passed ++ pending)) -
          byteLength (Source.openLine (before ++ (passed ++ pending))) =
        byteLength (before ++ (passed ++ kept)) ∧
      lineEnd? (afterBlock divider').2 = some (byteLength lineEnd) := by
  obtain ⟨hstarts, hbreaks⟩ := (Bool.and_eq_true _ _).mp hown
  obtain ⟨hmem, -⟩ := of_decide_eq_true hstarts
  obtain ⟨closed, line, hclosed, hbreak⟩ := exists_lastLine hmem
  have hopen : Source.openLine (before ++ (passed ++ pending)) = line := by
    rw [hclosed, ← List.append_assoc, openLine_append hbreak]
  have hcomma : ',' ∉ line := by
    rwa [hclosed, startsLine_append hbreak, decide_eq_true_eq] at hstarts
  have hlast : passed ++ pending = (closed ++ ['\n']) ++ line := by
    rw [hclosed, List.append_assoc]
    rfl
  obtain ⟨kept, -, rfl⟩ :=
    exists_eq_append_of_byteLength_le hlast (h.line closed line hclosed hbreak)
  have hends := hbreaks
  rw [breaksLine, Bool.and_eq_true, Bool.not_eq_true', Option.isSome_iff_exists] at hends
  obtain ⟨hne, length, hlength⟩ := hends
  obtain ⟨lineEnd, left, hleft, rfl, hlineEnd⟩ := lineEnd?_eq_some hlength
  rw [hleft] at hsplit hne
  refine ⟨kept, line, lineEnd, left, .ownLine rfl hcomma hsplit hseparator hlineEnd
    (List.isEmpty_eq_false_iff.mp hne) hstarts hbreaks, ?_, ?_, hlength⟩
  · rw [← List.append_assoc, byteLength_append]
    exact Nat.le_add_right_of_le h.floor_le
  · rw [hopen]
    simp only [byteLength_append]
    omega

/-- An element with nothing to take behind it takes the comma before it, if it is still there. -/
theorem Cursor.exists_preceding (h : Cursor floor before passed pending)
    (hown : (startsLine (passed ++ pending) && breaksLine divider') = false)
    (hcomma : commaOnLine divider' = false) (stop : Nat) :
    ∃ kept lead, Reach (passed ++ pending) pending divider' kept lead [] divider' ∧
      (match precedingComma? (byteLength (before ++ (passed ++ pending)) - floor)
          (before ++ (passed ++ pending)).reverse with
        | some distance => ⟨byteLength (before ++ (passed ++ pending)) - distance, stop,
          byteLength (before ++ (passed ++ pending))⟩
        | none => ⟨byteLength (before ++ (passed ++ pending)), stop,
          byteLength (before ++ (passed ++ pending))⟩ : Removal) =
        ⟨byteLength (before ++ (passed ++ kept)), stop,
          byteLength (before ++ (passed ++ pending))⟩ := by
  obtain ⟨hbefore, hdivider, hpending, hfloor, hpassed, -⟩ := h
  by_cases hmem : ',' ∈ pending
  · obtain ⟨kept, gap, rfl, hkept⟩ := List.eq_append_cons_of_mem hmem
    have hgap : ',' ∉ gap := by
      rw [List.count_append, List.count_cons_self] at hpending
      exact List.count_eq_zero.mp (by omega)
    have hpadding : ∀ c ∈ gap.reverse, isPadding c = true := fun c hc ↦
      hdivider.of_append.2.of_append.2.of_cons.isPadding_of_notMem hgap (List.mem_reverse.mp hc)
    have hreverse : (before ++ (passed ++ (kept ++ ',' :: gap))).reverse =
        gap.reverse ++ ',' :: (before ++ (passed ++ kept)).reverse := by simp
    have hsize : (',').utf8Size = 1 := rfl
    have hroom : byteLength gap.reverse <
        byteLength (before ++ (passed ++ (kept ++ ',' :: gap))) - floor := by
      simp only [byteLength_append, byteLength_cons, byteLength_reverse] at hfloor ⊢
      omega
    refine ⟨kept, ',' :: gap, .preceding rfl hgap hown hcomma, ?_⟩
    rw [hreverse, precedingComma?_of_comma hpadding hroom]
    simp only [Removal.mk.injEq, and_true]
    simp only [byteLength_append, byteLength_cons, byteLength_reverse]
    omega
  · have hpadding : ∀ c ∈ pending.reverse, isPadding c = true := fun c hc ↦
      hdivider.of_append.2.isPadding_of_notMem hmem (List.mem_reverse.mp hc)
    have hnothing : precedingComma? (byteLength (before ++ (passed ++ pending)) - floor)
        (before ++ (passed ++ pending)).reverse = none := by
      have hreverse : (before ++ (passed ++ pending)).reverse =
          pending.reverse ++ (before ++ passed).reverse := by simp
      rw [hreverse]
      refine precedingComma?_of_padding hpadding ?_
      rcases hpassed with rfl | rfl
      · obtain ⟨init, c, rfl, hc⟩ := hbefore
        exact .inr ⟨c, init.reverse, by simp, hc⟩
      · left
        simp only [byteLength_append, byteLength_reverse]
        omega
    refine ⟨pending, [], .bare hmem hcomma, ?_⟩
    rw [hnothing]

/-- The range of an element between two dividers. -/
theorem Cursor.exists_removal_eq (h : Cursor floor before passed pending)
    (hafter : StartsWithEdge after) (divider' element : List Char) :
    ∃ kept lead trail left,
      Reach (passed ++ pending) pending divider' kept lead trail left ∧
      removal floor (byteLength (before ++ (passed ++ pending)))
          (byteLength (before ++ (passed ++ pending)) + byteLength element)
          (before ++ (passed ++ pending)).reverse (divider' ++ after) =
        ⟨byteLength (before ++ (passed ++ kept)),
          byteLength (before ++ (passed ++ pending)) + byteLength element + byteLength trail,
          byteLength (before ++ (passed ++ pending))⟩ := by
  obtain ⟨separator, hsplit, hseparator, -⟩ := afterBlock_eq divider'
  rw [removal_append h.edge h.divider hafter hsplit]
  simp only
  cases hown : startsLine (passed ++ pending) && breaksLine divider' with
  | true =>
    obtain ⟨kept, lead, lineEnd, left, hreach, hfloor, hstart, hlineEnd⟩ :=
      h.exists_ownLine hown hsplit hseparator
    refine ⟨kept, lead, separator ++ lineEnd, left, hreach, ?_⟩
    rw [hstart, if_pos ⟨hfloor, rfl⟩, hlineEnd, byteLength_append separator, ← Nat.add_assoc]
  | false =>
    rw [if_neg fun hline ↦ Bool.false_ne_true hline.2]
    cases hcomma : commaOnLine divider' with
    | true =>
      exact ⟨pending, [], separator, _, .following hsplit hseparator hcomma, if_pos rfl⟩
    | false =>
      obtain ⟨kept, lead, hreach, hpreceding⟩ := h.exists_preceding hown hcomma
        (byteLength (before ++ (passed ++ pending)) + byteLength element)
      exact ⟨kept, lead, [], divider', hreach, hpreceding⟩

end Removal

end CalculatorCatalog.Edit
