import CalculatorCatalog.Proofs.Edit.Rereading

/-!
# Removing blocks and comments

Blocks are searched for with comments hidden but line breaks kept, and the ranges are then cut out
of the source itself. Most bounds of a range cannot lie strictly inside a comment, because there the
hidden text has blanks on both sides: a block begins at a word boundary and ends at a bracket, and
the blanks behind it are passed over. What remains are bounds at a line break, and a comment of
several lines has line breaks inside. `boundsOutsideComments_iff` says that the bounds strictly
inside a comment are those at such a line break.

If no bound is, cutting commutes with hiding comments unless the cut changes where a comment begins,
by joining two slashes or by taking away the quote of a literal. `keepsComments_iff` puts the two
conditions together, and `not_keepsComments` is a block behind a comment of two lines: the
line on which it stands begins inside the comment, the end of the comment is removed with the line,
and what comes after is commented out.
-/

set_option autoImplicit false
set_option relaxedAutoImplicit false

namespace CalculatorCatalog.Edit

open CalculatorCatalog.Text

variable {constructor key content : List Char} {range : Removal}

/-! ### The bounds of a range -/

/-- What can stand at the start of a range: the start of a line, a word boundary or a comma. -/
theorem exists_start_of_mem_removals (h : range ∈ removals constructor key content) :
    ∃ before after, blankComments content = before ++ after ∧ byteLength before = range.start ∧
      after ≠ [] ∧ (StartsLine before ∨ isWordBoundary before.getLast? after.head? = true ∨
        after.head? = some ',') := by
  obtain ⟨call, hcall, -, head, lead, trail, tail, hbefore, hafter, hmargins, rfl⟩ :=
    exists_call_of_mem_removals h
  obtain ⟨htext, hplace⟩ := callAt?_of_mem_calls hcall
  obtain ⟨-, -, hblock, hboundary, -⟩ := callAt?_eq_some hplace
  refine ⟨head, lead ++ (call.block ++ call.after), ?_, rfl, by simp [hblock], ?_⟩
  · rw [htext, hbefore, List.append_assoc]
  · cases hmargins with
    | ownLine indentation sameLine start separated stop => exact Or.inl start
    | following separated stop =>
      rw [hbefore, List.append_nil] at hboundary
      exact Or.inr (Or.inl hboundary)
    | preceding blank last => exact Or.inr (Or.inr rfl)
    | bare last =>
      rw [hbefore, List.append_nil] at hboundary
      exact Or.inr (Or.inl hboundary)

theorem LineEnd.eq_nil_or_getLast? {lineEnd rest : List Char} (h : LineEnd lineEnd rest)
    (before : List Char) : rest = [] ∨ (before ++ lineEnd).getLast? = some '\n' := by
  cases h with
  | endOfText => exact Or.inl rfl
  | lineBreak => exact Or.inr (by simp)
  | windowsLineBreak => exact Or.inr (by simp)

/-- What can stand at the end of a range: the end of the text or of a line, something that is no
blank, or a closing bracket. -/
theorem exists_stop_of_mem_removals (h : range ∈ removals constructor key content) :
    ∃ before after, blankComments content = before ++ after ∧ byteLength before = range.stop ∧
      (after = [] ∨ before.getLast? = some '\n' ∨ NotHorizontal after ∨
        ∃ c, before.getLast? = some c ∧ isClosing c = true) := by
  obtain ⟨call, hcall, hkey, head, lead, trail, tail, hbefore, hafter, hmargins, rfl⟩ :=
    exists_call_of_mem_removals h
  obtain ⟨htext, hplace⟩ := callAt?_of_mem_calls hcall
  obtain ⟨-, -, -, -, hclosed⟩ := callAt?_eq_some hplace
  have hinner : call.inner.isSome = true := by
    rw [Call.hasKey] at hkey
    cases hcase : call.inner with
    | none => simp [hcase] at hkey
    | some inner => rfl
  obtain ⟨c, hlast, hclosing⟩ := hclosed hinner
  refine ⟨call.before ++ call.block ++ trail, tail, ?_, ?_, ?_⟩
  · rw [htext, hafter]
    simp only [List.append_assoc]
  · simp only [byteLength_append]
  · cases hmargins with
    | ownLine indentation sameLine start separated stop =>
      rw [← List.append_assoc]
      rcases stop.eq_nil_or_getLast? _ with htail | hbreak
      · exact Or.inl htail
      · exact Or.inr (Or.inl hbreak)
    | following separated stop => exact Or.inr (Or.inr (Or.inl stop))
    | preceding blank last =>
      refine Or.inr (Or.inr (Or.inr ⟨c, ?_, hclosing⟩))
      rw [List.append_nil, List.getLast?_append, hlast, Option.some_or]
    | bare last =>
      refine Or.inr (Or.inr (Or.inr ⟨c, ?_, hclosing⟩))
      rw [List.append_nil, List.getLast?_append, hlast, Option.some_or]

/-- No word begins or ends between blanks. -/
theorem isWordBoundary_of_blank {before after : Option Char}
    (hbefore : before = some ' ' ∨ before = some '\n')
    (hafter : after = some ' ' ∨ after = some '\n') : isWordBoundary before after = false := by
  rcases hbefore with rfl | rfl <;> rcases hafter with rfl | rfl <;> decide

/-- A range begins strictly inside a comment only at a line break. -/
theorem atLineBreak_start (h : range ∈ removals constructor key content)
    (hinside : InsideComment content range.start) : AtLineBreak content range.start := by
  obtain ⟨before, after, htext, hlength, -, hshape⟩ := exists_start_of_mem_removals h
  rw [← hlength] at hinside ⊢
  obtain ⟨hbefore, hafter, hbreak⟩ := neighbours_of_insideComment htext hinside
  rcases hshape with (rfl | hline) | hboundary | hcomma
  · simp at hbefore
  · exact hbreak (Or.inl hline)
  · rw [isWordBoundary_of_blank hbefore hafter] at hboundary
    cases hboundary
  · rw [hcomma] at hafter
    simp at hafter

/-- A range ends strictly inside a comment only at a line break. -/
theorem atLineBreak_stop (h : range ∈ removals constructor key content)
    (hinside : InsideComment content range.stop) : AtLineBreak content range.stop := by
  obtain ⟨before, after, htext, hlength, hshape⟩ := exists_stop_of_mem_removals h
  rw [← hlength] at hinside ⊢
  obtain ⟨hbefore, hafter, hbreak⟩ := neighbours_of_insideComment htext hinside
  rcases hshape with rfl | hline | hblank | ⟨c, hlast, hclosing⟩
  · simp at hafter
  · exact hbreak (Or.inl hline)
  · rcases hafter with hspace | hline
    · cases hblank ' ' hspace
    · exact hbreak (Or.inr hline)
  · rw [hlast] at hbefore
    simp only [Option.some.injEq] at hbefore
    rcases hbefore with rfl | rfl <;> cases hclosing

/-! ### Ranges that spare comments -/

/-- No range begins or ends strictly inside a comment. -/
def BoundsOutsideComments (ranges : List Removal) (text : List Char) : Prop :=
  ∀ range ∈ ranges, ¬InsideComment text range.start ∧ ¬InsideComment text range.stop

/-- No range begins or ends at a line break inside a comment. -/
def NoBoundAtCommentBreak (ranges : List Removal) (text : List Char) : Prop :=
  ∀ range ∈ ranges, (AtLineBreak text range.start → ¬InsideComment text range.start) ∧
    (AtLineBreak text range.stop → ¬InsideComment text range.stop)

theorem boundsOutsideComments_iff :
    BoundsOutsideComments (removals constructor key content) content ↔
      NoBoundAtCommentBreak (removals constructor key content) content := by
  refine forall₂_congr fun range hrange ↦ ?_
  constructor
  · rintro ⟨hstart, hstop⟩
    exact ⟨fun _ ↦ hstart, fun _ ↦ hstop⟩
  · rintro ⟨hstart, hstop⟩
    exact ⟨fun hinside ↦ hstart (atLineBreak_start hrange hinside) hinside,
      fun hinside ↦ hstop (atLineBreak_stop hrange hinside) hinside⟩

/-- A place of the hidden text that is not strictly inside a comment is a place of the text. -/
theorem exists_place_of_not_insideComment {text before after : List Char}
    (h : blankComments text = before ++ after)
    (houtside : ¬InsideComment text (byteLength before)) :
    ∃ first second, text = first ++ second ∧ byteLength first = byteLength before ∧
      blankTo .code first second.head? = before ∧
      blankFrom (modeAfter .code first second.head?) second = after := by
  rcases exists_place_of_blank h with ⟨first, second, htext, hfirst, hsecond⟩ |
      ⟨first, c, second, htext, hkind, hlow, hhigh, -⟩
  · exact ⟨first, second, htext, by rw [← hfirst, byteLength_blankTo], hfirst, hsecond⟩
  · exact absurd ⟨first, c, second, htext, hkind, Or.inr ⟨hlow, hhigh⟩⟩ houtside

/-- Outside comments the reader is in no mode of comment, or at the end of a line comment. -/
theorem mode_of_not_insideComment {first rest : List Char} {c : Char}
    (h : ¬InsideComment (first ++ c :: rest) (byteLength first)) :
    (modeAfter .code first (some c)).isComment = false ∨
      modeAfter .code first (some c) = .lineComment ∧ c = '\n' := by
  cases hcomment : (modeAfter .code first (some c)).isComment with
  | false => exact Or.inl rfl
  | true =>
    rcases kind_eq_comment_or_lineBreak hcomment c rest.head? with hkind | hbreak
    · exact absurd (insideComment_place_iff.mpr ⟨c, rest, rfl, hcomment, hkind⟩) h
    · exact Or.inr hbreak

theorem step_lineBreak_ne_lineComment (mode : Mode) (next : Option Char) :
    (mode.step '\n' next).2 ≠ .lineComment := by
  cases mode with
  | code => simp [Mode.step, isQuote]
  | literal quote => simp [Mode.step]
  | escaped quote => simp [Mode.step]
  | lineComment => simp [Mode.step]
  | blockOpening => simp [Mode.step]
  | blockComment => simp [Mode.step]
  | blockClosing => simp [Mode.step]

/-- Before the end of a line comment the hidden text has a space. -/
theorem getLast?_blankTo_of_lineComment {first : List Char} {next : Option Char}
    (h : modeAfter .code first next = .lineComment) :
    (blankTo .code first next).getLast? = some ' ' := by
  obtain ⟨init, d, rfl, hkind⟩ := exists_concat_of_isComment (by rw [h]; rfl)
  rw [modeAfter_concat] at h
  have hd : d ≠ '\n' := by
    rintro rfl
    exact step_lineBreak_ne_lineComment _ next h
  rw [blankTo_concat, hkind, getLast?_withoutComment_comment, if_neg hd]

/-- The removal spares comments if no range begins or ends inside one. -/
theorem sparesComments_removals
    (h : BoundsOutsideComments (removals constructor key content) content) :
    SparesComments (removals constructor key content) content where
  start := by
    intro range hrange
    obtain ⟨before, after, htext, hlength, hafter, hshape⟩ := exists_start_of_mem_removals hrange
    have houtside := (h range hrange).1
    rw [← hlength] at houtside ⊢
    obtain ⟨first, second, rfl, hfirst, hbefore, hafter'⟩ :=
      exists_place_of_not_insideComment htext houtside
    refine ⟨first, second, rfl, hfirst, ?_⟩
    cases second with
    | nil => exact absurd hafter'.symm hafter
    | cons c rest =>
      rw [← hfirst] at houtside
      rcases mode_of_not_insideComment houtside with hmode | ⟨hmode, rfl⟩
      · exact hmode
      · -- The end of a line comment is no start of a range: it has a space before it.
        have hlast : before.getLast? = some ' ' := by
          rw [← hbefore, List.head?_cons]
          exact getLast?_blankTo_of_lineComment hmode
        have hhead : after.head? = some '\n' := by
          rw [← hafter', List.head?_cons, hmode]
          rfl
        rcases hshape with (rfl | hline) | hboundary | hcomma
        · simp at hlast
        · simp [hlast] at hline
        · rw [isWordBoundary_of_blank (Or.inl hlast) (Or.inr hhead)] at hboundary
          cases hboundary
        · simp [hhead] at hcomma
  stop := by
    intro range hrange
    obtain ⟨before, after, htext, hlength, -⟩ := exists_stop_of_mem_removals hrange
    have houtside := (h range hrange).2
    rw [← hlength] at houtside ⊢
    obtain ⟨first, second, rfl, hfirst, -⟩ := exists_place_of_not_insideComment htext houtside
    refine ⟨first, second, rfl, hfirst, ?_⟩
    rintro c rest rfl
    rw [← hfirst] at houtside
    exact mode_of_not_insideComment houtside

/-! ### Comments after a removal -/

/-- A removal keeps comments if it cuts none in two, and if what is a comment, and what is not, is
the same in the result: hiding the comments of the result gives the source with its comments hidden
and the same ranges cut out. -/
def KeepsComments (constructor key content : String) : Prop :=
  BoundsOutsideComments (removals constructor.toList key.toList content.toList) content.toList ∧
    blankComments (removeBlocks constructor key content).content.toList =
      cut (removals constructor.toList key.toList content.toList) 0 (blankComments content.toList)

/-- A removal keeps comments exactly if no range is bounded by a line break inside a comment and at
every place that stays a comment begins in the result if and only if one begins in the source. -/
theorem keepsComments_iff (constructor key content : String) :
    KeepsComments constructor key content ↔
      NoBoundAtCommentBreak (removals constructor.toList key.toList content.toList)
          content.toList ∧
        ∀ first second, content.toList = first ++ second →
          BeginsAlike (removals constructor.toList key.toList content.toList) first second := by
  rw [KeepsComments, ← boundsOutsideComments_iff]
  refine and_congr_right fun hbounds ↦ ?_
  have hresult : (removeBlocks constructor key content).content.toList =
      cut (removals constructor.toList key.toList content.toList) 0 content.toList :=
    String.toList_ofList
  rw [hresult]
  exact blankComments_cut_iff (sparesComments_removals hbounds)

/-- The line of a block may begin inside a comment. The end of the comment is then removed along
with the line, and what comes after is commented out. -/
theorem not_keepsComments :
    ¬KeepsComments "Field" "a"
      "/* first\n second */ Field(key: 'a'),\nField(key: 'b'),\n" := by
  rintro ⟨-, hblank⟩
  revert hblank
  decide +kernel

end CalculatorCatalog.Edit
