import CalculatorCatalog.Proofs.Text.Offset
import CalculatorCatalog.Text.Lexical

/-!
# Reading a source in parts

The reader of `Text.Lexical` sees one character ahead, so reading a text in two parts needs the
first character of the second part: `modeAfter` and `scanTo` take it as an argument, and
`scanFrom_append` puts the parts together.

`InsideComment text offset` says that an offset lies strictly inside a comment. Hiding the comments
of a text keeps offsets: a place of the hidden text is a place of the text unless it falls into a
character of a comment (`exists_place_of_blank`), and strictly inside a comment the hidden text has
nothing but spaces and line breaks on both sides (`neighbours_of_insideComment`).
-/

set_option autoImplicit false
set_option relaxedAutoImplicit false

namespace CalculatorCatalog.Text

/-! ### Parts of a text -/

/-- The mode after reading a text, given the character that comes next. -/
def modeAfter : Mode → List Char → Option Char → Mode
  | mode, [], _ => mode
  | mode, c :: text, next => modeAfter (mode.step c (text.head?.or next)).2 text next

/-- Each character of a text with what it belongs to, given the character that comes next. -/
def scanTo : Mode → List Char → Option Char → List (Char × Kind)
  | _, [], _ => []
  | mode, c :: text, next =>
    (c, (mode.step c (text.head?.or next)).1) ::
      scanTo (mode.step c (text.head?.or next)).2 text next

theorem modeAfter_append (mode : Mode) (first second : List Char) (next : Option Char) :
    modeAfter mode (first ++ second) next =
      modeAfter (modeAfter mode first (second.head?.or next)) second next := by
  induction first generalizing mode with
  | nil => rfl
  | cons c first ih =>
    rw [List.cons_append, modeAfter, modeAfter, ih, List.head?_append, Option.or_assoc]

/-- One more character. -/
theorem modeAfter_concat (mode : Mode) (text : List Char) (c : Char) (next : Option Char) :
    modeAfter mode (text ++ [c]) next = ((modeAfter mode text (some c)).step c next).2 := by
  rw [modeAfter_append]
  rfl

theorem scanFrom_append (mode : Mode) (first second : List Char) :
    scanFrom mode (first ++ second) =
      scanTo mode first second.head? ++ scanFrom (modeAfter mode first second.head?) second := by
  induction first generalizing mode with
  | nil => rfl
  | cons c first ih =>
    rw [List.cons_append, scanFrom, scanTo, modeAfter, ih, List.head?_append, List.cons_append]

theorem scanTo_concat (mode : Mode) (text : List Char) (c : Char) (next : Option Char) :
    scanTo mode (text ++ [c]) next =
      scanTo mode text (some c) ++ [(c, ((modeAfter mode text (some c)).step c next).1)] := by
  induction text generalizing mode with
  | nil => rfl
  | cons d text ih =>
    have hhead : (text ++ [c]).head?.or next = text.head?.or (some c) := by
      cases text <;> rfl
    rw [List.cons_append, scanTo, scanTo, modeAfter, ih, hhead, List.cons_append]

theorem map_fst_scanFrom (mode : Mode) (text : List Char) :
    (scanFrom mode text).map (·.1) = text := by
  induction text generalizing mode with
  | nil => rfl
  | cons c text ih => rw [scanFrom, List.map_cons, ih]

theorem map_fst_scanTo (mode : Mode) (text : List Char) (next : Option Char) :
    (scanTo mode text next).map (·.1) = text := by
  induction text generalizing mode with
  | nil => rfl
  | cons c text ih => rw [scanTo, List.map_cons, ih]

/-! ### Comments -/

/-- Whether the next character stands inside a comment that has been opened. -/
def Mode.isComment : Mode → Bool
  | .code | .literal _ | .escaped _ => false
  | .lineComment | .blockOpening | .blockComment | .blockClosing => true

/-- Whatever leads into a comment belongs to it. -/
theorem kind_of_isComment_step {mode : Mode} {c : Char} {next : Option Char}
    (h : (mode.step c next).2.isComment = true) : (mode.step c next).1 = .comment := by
  cases mode with
  | code =>
    simp only [Mode.step] at h ⊢
    split_ifs at h ⊢
    · cases h
    · rfl
    · rfl
    · cases h
  | literal quote =>
    simp only [Mode.step] at h ⊢
    split_ifs at h <;> cases h
  | escaped quote => cases h
  | lineComment =>
    simp only [Mode.step] at h ⊢
    split_ifs at h ⊢
    · cases h
    · rfl
  | blockOpening => rfl
  | blockComment =>
    simp only [Mode.step]
    split_ifs <;> rfl
  | blockClosing => rfl

/-- In a comment only the line break after a line comment is no part of it. -/
theorem kind_eq_comment_or_lineBreak {mode : Mode} (hmode : mode.isComment = true) (c : Char)
    (next : Option Char) :
    (mode.step c next).1 = .comment ∨ mode = .lineComment ∧ c = '\n' := by
  cases mode with
  | code => cases hmode
  | literal quote => cases hmode
  | escaped quote => cases hmode
  | lineComment =>
    by_cases hc : c = '\n'
    · exact Or.inr ⟨rfl, hc⟩
    · left
      simp [Mode.step, hc]
  | blockOpening => exact Or.inl rfl
  | blockComment =>
    left
    simp only [Mode.step]
    split_ifs <;> rfl
  | blockClosing => exact Or.inl rfl

/-- An offset lies strictly inside a comment if the reader is in a comment there and the comment
goes on with the next character, or if the offset falls into a character of a comment. -/
def InsideComment (text : List Char) (offset : Nat) : Prop :=
  ∃ before c after, text = before ++ c :: after ∧
    ((modeAfter .code before (some c)).step c after.head?).1 = .comment ∧
    (offset = byteLength before ∧ (modeAfter .code before (some c)).isComment = true ∨
      byteLength before < offset ∧ offset < byteLength before + c.utf8Size)

/-- At a place of a text the second case of `InsideComment` does not arise. -/
theorem insideComment_place_iff {before after : List Char} :
    InsideComment (before ++ after) (byteLength before) ↔
      ∃ c rest, after = c :: rest ∧ (modeAfter .code before (some c)).isComment = true ∧
        ((modeAfter .code before (some c)).step c rest.head?).1 = .comment := by
  constructor
  · rintro ⟨first, c, rest, htext, hkind, ⟨hoffset, hmode⟩ | ⟨hlow, hhigh⟩⟩
    · obtain ⟨rfl, rfl⟩ := append_inj_of_byteLength htext hoffset
      exact ⟨c, rest, rfl, hmode, hkind⟩
    · have hplace := not_byteLength_between htext hlow
      omega
  · rintro ⟨c, rest, rfl, hmode, hkind⟩
    exact ⟨before, c, rest, rfl, hkind, Or.inl ⟨rfl, hmode⟩⟩

/-! ### Hiding comments -/

/-- A text with its comments hidden, read from a given mode on. -/
def blankFrom (mode : Mode) (text : List Char) : List Char :=
  (scanFrom mode text).flatMap withoutComment

/-- A part of a text with its comments hidden, given the character that comes next. -/
def blankTo (mode : Mode) (text : List Char) (next : Option Char) : List Char :=
  (scanTo mode text next).flatMap withoutComment

theorem blankComments_eq_blankFrom (text : List Char) : blankComments text = blankFrom .code text :=
  rfl

theorem blankFrom_cons (mode : Mode) (c : Char) (text : List Char) :
    blankFrom mode (c :: text) =
      withoutComment (c, (mode.step c text.head?).1) ++
        blankFrom (mode.step c text.head?).2 text := by
  rw [blankFrom, scanFrom, List.flatMap_cons]
  rfl

theorem blankTo_concat (mode : Mode) (text : List Char) (c : Char) (next : Option Char) :
    blankTo mode (text ++ [c]) next =
      blankTo mode text (some c) ++
        withoutComment (c, ((modeAfter mode text (some c)).step c next).1) := by
  rw [blankTo, scanTo_concat, List.flatMap_append, List.flatMap_singleton]
  rfl

theorem withoutComment_of_ne_comment {kind : Kind} (h : kind ≠ .comment) (c : Char) :
    withoutComment (c, kind) = [c] := by
  cases kind with
  | comment => exact absurd rfl h
  | code => rfl
  | literal => rfl

/-- A character of a comment that is no line break gives way to spaces. -/
theorem withoutComment_comment {c : Char} (hc : c ≠ '\n') :
    withoutComment (c, .comment) = List.replicate c.utf8Size ' ' := by
  rw [withoutComment, if_neg hc]
  rfl

theorem byteLength_withoutComment (c : Char) (kind : Kind) :
    byteLength (withoutComment (c, kind)) = c.utf8Size := by
  by_cases hkind : kind = .comment
  · subst hkind
    by_cases hc : c = '\n'
    · subst hc
      rfl
    · rw [withoutComment_comment hc, byteLength_replicate_space]
  · rw [withoutComment_of_ne_comment hkind, byteLength_cons, byteLength_nil, Nat.add_zero]

/-- Hiding comments keeps offsets. -/
theorem byteLength_blankTo (mode : Mode) (text : List Char) (next : Option Char) :
    byteLength (blankTo mode text next) = byteLength text := by
  induction text generalizing mode with
  | nil => rfl
  | cons c text ih =>
    have hrest := ih (mode.step c (text.head?.or next)).2
    rw [blankTo] at hrest ⊢
    rw [scanTo, List.flatMap_cons, byteLength_append, byteLength_withoutComment, hrest,
      byteLength_cons]

theorem blankTo_cons (mode : Mode) (c : Char) (text : List Char) (next : Option Char) :
    blankTo mode (c :: text) next =
      withoutComment (c, (mode.step c (text.head?.or next)).1) ++
        blankTo (mode.step c (text.head?.or next)).2 text next := by
  rw [blankTo, scanTo, List.flatMap_cons]
  rfl

/-- A hidden character cut in two. -/
theorem withoutComment_eq_append {c : Char} {kind : Kind} {first second : List Char}
    (h : withoutComment (c, kind) = first ++ second) (hfirst : first ≠ []) (hsecond : second ≠ []) :
    kind = .comment ∧ byteLength first < c.utf8Size ∧ first.getLast? = some ' ' ∧
      second.head? = some ' ' := by
  have hlength := congrArg List.length h
  have hfirstPos := List.length_pos_of_ne_nil hfirst
  have hsecondPos := List.length_pos_of_ne_nil hsecond
  rw [List.length_append] at hlength
  by_cases hkind : kind = .comment
  · subst hkind
    by_cases hc : c = '\n'
    · rw [withoutComment, if_pos hc, List.length_singleton] at hlength
      omega
    · rw [withoutComment_comment hc] at h
      have hbytes := congrArg byteLength h
      rw [byteLength_replicate_space, byteLength_append] at hbytes
      have hsecondBytes : byteLength second ≠ 0 := fun h ↦ hsecond (byteLength_eq_zero.mp h)
      obtain ⟨-, hspaces, hspaces'⟩ := List.replicate_eq_append_iff.mp h
      refine ⟨rfl, by omega, ?_, ?_⟩
      · refine (congrArg List.getLast? hspaces).trans ?_
        rw [List.getLast?_replicate, if_neg (Nat.ne_of_gt hfirstPos)]
      · refine (congrArg List.head? hspaces').trans ?_
        rw [List.head?_replicate, if_neg (Nat.ne_of_gt hsecondPos)]
  · rw [withoutComment_of_ne_comment hkind, List.length_singleton] at hlength
    omega

/-- A place of a text whose comments are hidden is a place of the text, or it falls into a character
of a comment and has spaces on both sides. -/
theorem exists_place_of_blank {mode : Mode} {text before after : List Char}
    (h : blankFrom mode text = before ++ after) :
    (∃ first second, text = first ++ second ∧ blankTo mode first second.head? = before ∧
        blankFrom (modeAfter mode first second.head?) second = after) ∨
      ∃ first c second, text = first ++ c :: second ∧
        ((modeAfter mode first (some c)).step c second.head?).1 = .comment ∧
        byteLength first < byteLength before ∧
        byteLength before < byteLength first + c.utf8Size ∧
        before.getLast? = some ' ' ∧ after.head? = some ' ' := by
  induction text generalizing mode before with
  | nil =>
    obtain ⟨rfl, rfl⟩ := List.append_eq_nil_iff.mp h.symm
    exact Or.inl ⟨[], [], rfl, rfl, rfl⟩
  | cons c text ih =>
    rcases before with _ | ⟨d, before⟩
    · exact Or.inl ⟨[], c :: text, rfl, rfl, h⟩
    · rw [blankFrom_cons] at h
      rcases List.append_eq_append_iff.mp h with
        ⟨middle, hbefore, hrest⟩ | ⟨middle, hhidden, hafter⟩
      · rcases ih hrest with ⟨first, second, rfl, hfirst, hsecond⟩ |
            ⟨first, e, second, rfl, hkind, hlow, hhigh, hlast, hhead⟩
        · rw [List.head?_append] at hbefore hfirst hsecond
          refine Or.inl ⟨c :: first, second, rfl, ?_, ?_⟩
          · rw [blankTo_cons, hfirst, hbefore]
          · rw [modeAfter, hsecond]
        · refine Or.inr ⟨c :: first, e, second, rfl, ?_, ?_, ?_, ?_, hhead⟩
          · rwa [List.head?_append] at hkind
          · rw [hbefore, byteLength_append, byteLength_withoutComment, byteLength_cons]
            omega
          · rw [hbefore, byteLength_append, byteLength_withoutComment, byteLength_cons]
            omega
          · rw [hbefore, List.getLast?_append, hlast]
            rfl
      · rcases middle with _ | ⟨e, middle⟩
        · rw [List.append_nil] at hhidden
          refine Or.inl ⟨[c], text, rfl, ?_, ?_⟩
          · rw [blankTo_cons, ← hhidden]
            exact List.append_nil _
          · exact hafter.symm
        · obtain ⟨hkind, hbytes, hlast, hhead⟩ :=
            withoutComment_eq_append hhidden (List.cons_ne_nil d before) (List.cons_ne_nil e middle)
          have hpos := d.utf8Size_pos
          refine Or.inr ⟨[], c, text, rfl, hkind, ?_, ?_, hlast, ?_⟩
          · rw [byteLength_nil, byteLength_cons]
            omega
          · rw [byteLength_nil, Nat.zero_add]
            exact hbytes
          · rw [hafter]
            exact hhead

/-- A place of a text whose comments are hidden is a place of the text, unless it stands between
spaces. -/
theorem isPlace_of_blankComments {text before after : List Char}
    (h : blankComments text = before ++ after)
    (hspaces : before.getLast? = some ' ' → after.head? ≠ some ' ') :
    IsPlace text (byteLength before) := by
  rw [blankComments_eq_blankFrom] at h
  rcases exists_place_of_blank h with
    ⟨first, second, htext, rfl, -⟩ | ⟨-, -, -, -, -, -, -, hlast, hhead⟩
  · exact ⟨first, second, htext, (byteLength_blankTo _ _ _).symm⟩
  · exact absurd hhead (hspaces hlast)

/-- A line break stands directly before or after the place with the given offset. -/
def AtLineBreak (text : List Char) (offset : Nat) : Prop :=
  ∃ before after, text = before ++ after ∧ byteLength before = offset ∧
    (before.getLast? = some '\n' ∨ after.head? = some '\n')

/-- The first character of what a hidden character leaves. -/
theorem head?_withoutComment_comment (c : Char) (rest : List Char) :
    (withoutComment (c, .comment) ++ rest).head? = if c = '\n' then some '\n' else some ' ' := by
  by_cases hc : c = '\n'
  · subst hc
    rfl
  · rw [withoutComment_comment hc, if_neg hc, List.head?_append, List.head?_replicate,
      if_neg (Nat.ne_of_gt c.utf8Size_pos)]
    rfl

/-- The last character of what a hidden character leaves. -/
theorem getLast?_withoutComment_comment (text : List Char) (c : Char) :
    (text ++ withoutComment (c, .comment)).getLast? =
      if c = '\n' then some '\n' else some ' ' := by
  by_cases hc : c = '\n'
  · subst hc
    rw [withoutComment, if_pos rfl, if_pos rfl, List.getLast?_append]
    rfl
  · rw [withoutComment_comment hc, if_neg hc, List.getLast?_append, List.getLast?_replicate,
      if_neg (Nat.ne_of_gt c.utf8Size_pos)]
    rfl

/-- A place at which the reader is in a comment comes after a character of the comment. -/
theorem exists_concat_of_isComment {text : List Char} {next : Option Char}
    (h : (modeAfter .code text next).isComment = true) :
    ∃ init c, text = init ++ [c] ∧
      ((modeAfter .code init (some c)).step c next).1 = .comment := by
  rcases List.eq_nil_or_concat text with rfl | ⟨init, c, rfl⟩
  · cases h
  · rw [List.concat_eq_append, modeAfter_concat] at h
    exact ⟨init, c, List.concat_eq_append, kind_of_isComment_step h⟩

/-- Strictly inside a comment the hidden text has a space or a line break on both sides, and a line
break only where the text itself has one. -/
theorem neighbours_of_insideComment {text before after : List Char}
    (h : blankComments text = before ++ after) (hinside : InsideComment text (byteLength before)) :
    (before.getLast? = some ' ' ∨ before.getLast? = some '\n') ∧
      (after.head? = some ' ' ∨ after.head? = some '\n') ∧
      (before.getLast? = some '\n' ∨ after.head? = some '\n' →
        AtLineBreak text (byteLength before)) := by
  rcases exists_place_of_blank (blankComments_eq_blankFrom text ▸ h) with
    ⟨first, second, rfl, rfl, rfl⟩ | ⟨-, -, -, -, -, -, -, hlast, hhead⟩
  · rw [byteLength_blankTo] at hinside ⊢
    obtain ⟨c, rest, rfl, hmode, hkind⟩ := insideComment_place_iff.mp hinside
    obtain ⟨init, d, rfl, hlastKind⟩ := exists_concat_of_isComment hmode
    have hafter : (blankFrom (modeAfter .code (init ++ [d]) (c :: rest).head?) (c :: rest)).head? =
        if c = '\n' then some '\n' else some ' ' := by
      rw [List.head?_cons, blankFrom_cons, hkind, head?_withoutComment_comment]
    have hbefore : (blankTo .code (init ++ [d]) (c :: rest).head?).getLast? =
        if d = '\n' then some '\n' else some ' ' := by
      rw [List.head?_cons, blankTo_concat, hlastKind, getLast?_withoutComment_comment]
    refine ⟨?_, ?_, ?_⟩
    · rw [hbefore]
      split_ifs <;> simp
    · rw [hafter]
      split_ifs <;> simp
    · rw [hbefore, hafter]
      intro hbreak
      refine ⟨init ++ [d], c :: rest, rfl, rfl, ?_⟩
      split_ifs at hbreak with hd hc hc
      · exact Or.inl (by simp [hd])
      · exact Or.inl (by simp [hd])
      · exact Or.inr (by simp [hc])
      · simp at hbreak
  · simp [hlast, hhead]

end CalculatorCatalog.Text
