import CalculatorCatalog.Proofs.Edit.Ranges

/-!
# Comments after a cut

When ranges are cut out of a source, what is left is read again, and a character that stays may then
be read in another mode. This module compares the two readings. The comparison is possible for
ranges that leave comments whole (`SparesComments`): no range begins inside a comment, and none ends
there. A character that stays is then inside a comment for both readings or for neither, as long as
they have agreed on where comments begin (`Aligned`), and `blankComments_cut_iff` follows by
induction on what is left to read: cutting commutes with hiding comments exactly if the same
comments begin before and after the cut.
-/

set_option autoImplicit false
set_option relaxedAutoImplicit false

namespace CalculatorCatalog.Edit

open CalculatorCatalog.Text

variable {ranges : List Removal}

/-! ### Ranges at places of a text -/

/-- Ranges that begin and end at places of a text, none of them inside a comment. A range may end
before the line break that ends a line comment. -/
structure SparesComments (ranges : List Removal) (text : List Char) : Prop where
  start : ∀ range ∈ ranges, ∃ first second, text = first ++ second ∧
    byteLength first = range.start ∧ (modeAfter .code first second.head?).isComment = false
  stop : ∀ range ∈ ranges, ∃ first second, text = first ++ second ∧
    byteLength first = range.stop ∧ ∀ c rest, second = c :: rest →
      (modeAfter .code first (some c)).isComment = false ∨
        modeAfter .code first (some c) = .lineComment ∧ c = '\n'

/-- A character is cut out as a whole or not at all. -/
theorem SparesComments.isCut_eq {text first rest : List Char} {c : Char}
    (h : SparesComments ranges text) (htext : text = first ++ c :: rest) {offset : Nat}
    (hlow : byteLength first ≤ offset) (hhigh : offset < byteLength first + c.utf8Size) :
    isCut ranges offset = isCut ranges (byteLength first) := by
  rw [Bool.eq_iff_iff, isCut_iff, isCut_iff]
  refine exists_congr fun range ↦ and_congr_right fun hrange ↦ ?_
  obtain ⟨before, after, hstartText, hstart, -⟩ := h.start range hrange
  obtain ⟨before', after', hstopText, hstop, -⟩ := h.stop range hrange
  have hbegins : byteLength first < range.start → byteLength first + c.utf8Size ≤ range.start := by
    intro hlt
    rw [← hstart] at hlt ⊢
    exact not_byteLength_between (hstartText.symm.trans htext) hlt
  have hends : byteLength first < range.stop → byteLength first + c.utf8Size ≤ range.stop := by
    intro hlt
    rw [← hstop] at hlt ⊢
    exact not_byteLength_between (hstopText.symm.trans htext) hlt
  constructor
  · rintro ⟨hle, hlt⟩
    refine ⟨?_, by omega⟩
    by_contra hstart
    have hbeyond := hbegins (by omega)
    omega
  · rintro ⟨hle, hlt⟩
    have hbeyond := hends hlt
    exact ⟨by omega, by omega⟩

/-- A range begins where the text stops staying. -/
theorem SparesComments.exists_start {text first rest : List Char} {c : Char}
    (h : SparesComments ranges text) (htext : text = first ++ c :: rest)
    (hkept : isCut ranges (byteLength first) = false)
    (hcut : isCut ranges (byteLength (first ++ [c])) = true) :
    ∃ range ∈ ranges, range.start = byteLength (first ++ [c]) := by
  obtain ⟨range, hrange, hstart, hstop⟩ := isCut_iff.mp hcut
  refine ⟨range, hrange, Nat.le_antisymm hstart ?_⟩
  have hafter : byteLength first < range.start := by
    by_contra hle
    have hcut' : isCut ranges (byteLength first) = true := by
      refine isCut_iff.mpr ⟨range, hrange, Nat.le_of_not_lt hle, ?_⟩
      rw [byteLength_append] at hstop
      omega
    rw [hkept] at hcut'
    cases hcut'
  obtain ⟨before, after, hplace, hlength, -⟩ := h.start range hrange
  rw [← hlength] at hafter ⊢
  have hbeyond := not_byteLength_between (hplace.symm.trans htext) hafter
  rw [byteLength_concat]
  omega

/-- A range ends where the text stays again. -/
theorem SparesComments.exists_stop {text first rest : List Char} {c : Char}
    (h : SparesComments ranges text) (htext : text = first ++ c :: rest)
    (hcut : isCut ranges (byteLength first) = true)
    (hkept : isCut ranges (byteLength (first ++ [c])) = false) :
    ∃ range ∈ ranges, range.stop = byteLength (first ++ [c]) := by
  obtain ⟨range, hrange, hstart, hstop⟩ := isCut_iff.mp hcut
  refine ⟨range, hrange, Nat.le_antisymm ?_ ?_⟩
  · by_contra hlt
    have hcut' : isCut ranges (byteLength (first ++ [c])) = true := by
      refine isCut_iff.mpr ⟨range, hrange, ?_, Nat.lt_of_not_le hlt⟩
      rw [byteLength_append]
      omega
    rw [hkept] at hcut'
    cases hcut'
  · obtain ⟨before, after, hplace, hlength, -⟩ := h.stop range hrange
    rw [← hlength] at hstop ⊢
    have hbeyond := not_byteLength_between (hplace.symm.trans htext) hstop
    rw [byteLength_concat]
    omega

theorem cut_eq_self {offset : Nat} {text : List Char}
    (h : ∀ place, offset ≤ place → place < offset + byteLength text → isCut ranges place = false) :
    cut ranges offset text = text := by
  induction text generalizing offset with
  | nil => rfl
  | cons c text ih =>
    have hpos := c.utf8Size_pos
    rw [byteLength_cons] at h
    rw [cut_cons, h offset (Nat.le_refl _) (by omega), if_neg Bool.false_ne_true, ih]
    intro place hlow hhigh
    exact h place (by omega) (by omega)

theorem cut_eq_nil {offset : Nat} {text : List Char}
    (h : ∀ place, offset ≤ place → place < offset + byteLength text → isCut ranges place = true) :
    cut ranges offset text = [] := by
  induction text generalizing offset with
  | nil => rfl
  | cons c text ih =>
    have hpos := c.utf8Size_pos
    rw [byteLength_cons] at h
    rw [cut_cons, h offset (Nat.le_refl _) (by omega), if_pos rfl, ih]
    intro place hlow hhigh
    exact h place (by omega) (by omega)

/-- What a hidden character leaves is cut out with it. -/
theorem SparesComments.cut_withoutComment {text first rest : List Char} {c : Char}
    (h : SparesComments ranges text) (htext : text = first ++ c :: rest) (kind : Kind) :
    cut ranges (byteLength first) (withoutComment (c, kind)) =
      if isCut ranges (byteLength first) then [] else withoutComment (c, kind) := by
  have hwhole (place : Nat) (hlow : byteLength first ≤ place)
      (hhigh : place < byteLength first + byteLength (withoutComment (c, kind))) :
      isCut ranges place = isCut ranges (byteLength first) := by
    rw [byteLength_withoutComment] at hhigh
    exact h.isCut_eq htext hlow hhigh
  cases hcut : isCut ranges (byteLength first) with
  | true => exact cut_eq_nil fun place hlow hhigh ↦ (hwhole place hlow hhigh).trans hcut
  | false => exact cut_eq_self fun place hlow hhigh ↦ (hwhole place hlow hhigh).trans hcut

/-! ### Where comments begin -/

/-- A comment begins at the place between two parts of a text. -/
def CommentBegins (before after : List Char) : Prop :=
  modeAfter .code before after.head? = .code ∧
    ∃ c rest, after = '/' :: c :: rest ∧ (c = '/' ∨ c = '*')

/-- Whether a character opens a comment. -/
def Opens (mode : Mode) (c : Char) (next : Option Char) : Prop :=
  mode = .code ∧ c = '/' ∧ (next = some '/' ∨ next = some '*')

theorem not_commentBegins_nil (before : List Char) : ¬CommentBegins before [] := by
  rintro ⟨-, c, rest, hnil, -⟩
  cases hnil

theorem commentBegins_cons_iff {before rest : List Char} {c : Char} :
    CommentBegins before (c :: rest) ↔
      Opens (modeAfter .code before (some c)) c rest.head? := by
  constructor
  · rintro ⟨hmode, d, tail, heq, hd⟩
    obtain ⟨rfl, rfl⟩ := List.cons.inj heq
    exact ⟨hmode, rfl, hd.imp (congrArg some) (congrArg some)⟩
  · rintro ⟨hmode, rfl, hnext⟩
    cases rest with
    | nil => rcases hnext with hnext | hnext <;> cases hnext
    | cons d tail =>
      exact ⟨hmode, d, tail, rfl, hnext.imp Option.some.inj Option.some.inj⟩

theorem Opens.step {mode : Mode} {c : Char} {next : Option Char} (h : Opens mode c next) :
    (mode.step c next).1 = .comment ∧ (mode.step c next).2.isComment = true := by
  obtain ⟨rfl, rfl, rfl | rfl⟩ := h <;> exact ⟨rfl, rfl⟩

/-- Outside comments nothing but an opening leads into one. -/
theorem step_of_not_opens {mode : Mode} {c : Char} {next : Option Char}
    (hmode : mode.isComment = false) (h : ¬Opens mode c next) :
    (mode.step c next).1 ≠ .comment ∧ (mode.step c next).2.isComment = false := by
  cases mode with
  | code =>
    have hline : ¬(c = '/' ∧ next = some '/') := fun ⟨hc, hnext⟩ ↦ h ⟨rfl, hc, Or.inl hnext⟩
    have hblock : ¬(c = '/' ∧ next = some '*') := fun ⟨hc, hnext⟩ ↦ h ⟨rfl, hc, Or.inr hnext⟩
    rw [Mode.step, if_neg hline, if_neg hblock]
    split_ifs <;> exact ⟨by simp, rfl⟩
  | literal quote =>
    rw [Mode.step]
    split_ifs <;> exact ⟨by simp, rfl⟩
  | escaped quote => exact ⟨by simp [Mode.step], rfl⟩
  | lineComment => cases hmode
  | blockOpening => cases hmode
  | blockComment => cases hmode
  | blockClosing => cases hmode

theorem kind_eq_comment_iff_opens {mode : Mode} {c : Char} {next : Option Char}
    (hmode : mode.isComment = false) : (mode.step c next).1 = .comment ↔ Opens mode c next := by
  constructor
  · intro hkind
    by_contra hopens
    exact (step_of_not_opens hmode hopens).1 hkind
  · exact fun hopens ↦ hopens.step.1

theorem not_opens_of_isComment {mode : Mode} (hmode : mode.isComment = true) (c : Char)
    (next : Option Char) : ¬Opens mode c next := by
  rintro ⟨rfl, -⟩
  cases hmode

/-- In a comment the lookahead does not matter for what a character belongs to. -/
theorem kind_congr_of_isComment {mode : Mode} (hmode : mode.isComment = true) (c : Char)
    (next next' : Option Char) : (mode.step c next).1 = (mode.step c next').1 := by
  cases mode with
  | code => cases hmode
  | literal quote => cases hmode
  | escaped quote => cases hmode
  | lineComment => rfl
  | blockOpening => rfl
  | blockComment =>
    simp only [Mode.step]
    split_ifs <;> rfl
  | blockClosing => rfl

/-- Nor does it matter for whether the comment goes on. -/
theorem isComment_congr_of_isComment {mode : Mode} (hmode : mode.isComment = true) (c : Char)
    (next next' : Option Char) :
    (mode.step c next).2.isComment = (mode.step c next').2.isComment := by
  cases mode with
  | code => cases hmode
  | literal quote => cases hmode
  | escaped quote => cases hmode
  | lineComment => rfl
  | blockOpening => rfl
  | blockComment =>
    simp only [Mode.step]
    split_ifs <;> rfl
  | blockClosing => rfl

/-! ### Two readings of a character -/

/-- The modes in which a character is read before and after the cut: both readings are in the same
comment, or the second is in none and the first at most at its end. -/
def Agree (mode mode' : Mode) (c : Char) : Prop :=
  mode' = mode ∧ mode.isComment = true ∨
    mode'.isComment = false ∧ (mode.isComment = false ∨ mode = .lineComment ∧ c = '\n')

theorem withoutComment_inj {c : Char} {kind kind' : Kind} (hspace : c ≠ ' ') (hbreak : c ≠ '\n') :
    withoutComment (c, kind') = withoutComment (c, kind) ↔
      (kind' = .comment ↔ kind = .comment) := by
  have hne : withoutComment (c, .comment) ≠ [c] := by
    rw [withoutComment_comment hbreak]
    intro heq
    have hmem : c ∈ List.replicate c.utf8Size ' ' := by
      rw [heq]
      exact List.mem_singleton_self c
    exact hspace (List.eq_of_mem_replicate hmem)
  by_cases hkind' : kind' = .comment
  · by_cases hkind : kind = .comment
    · simp [hkind, hkind']
    · rw [withoutComment_of_ne_comment hkind, hkind']
      exact iff_of_false hne (by simp [hkind])
  · by_cases hkind : kind = .comment
    · rw [withoutComment_of_ne_comment hkind', hkind]
      exact iff_of_false (Ne.symm hne) (by simp [hkind'])
    · rw [withoutComment_of_ne_comment hkind, withoutComment_of_ne_comment hkind']
      simp [hkind, hkind']

/-- Spaces and line breaks stay when comments are hidden. -/
theorem withoutComment_congr {c : Char} (hc : c = ' ' ∨ c = '\n') (kind kind' : Kind) :
    withoutComment (c, kind) = withoutComment (c, kind') := by
  rcases hc with rfl | rfl <;> cases kind <;> cases kind' <;> rfl

/-- A character leaves the same in both readings if a comment begins with it in both or in
neither. -/
theorem Agree.withoutComment_eq_iff {mode mode' : Mode} {c : Char} (h : Agree mode mode' c)
    (next next' : Option Char) :
    withoutComment (c, (mode'.step c next').1) = withoutComment (c, (mode.step c next).1) ↔
      (Opens mode' c next' ↔ Opens mode c next) := by
  have hslash : c = ' ' ∨ c = '\n' → c ≠ '/' := by
    rintro (rfl | rfl) <;> decide
  by_cases hc : c = ' ' ∨ c = '\n'
  · refine iff_of_true (withoutComment_congr hc _ _) (iff_of_false ?_ ?_)
    · exact fun hopens ↦ hslash hc hopens.2.1
    · exact fun hopens ↦ hslash hc hopens.2.1
  · obtain ⟨hspace, hbreak⟩ := not_or.mp hc
    rw [withoutComment_inj hspace hbreak]
    rcases h with ⟨rfl, hcomment⟩ | ⟨hmode', hmode | ⟨-, rfl⟩⟩
    · rw [kind_congr_of_isComment hcomment c next' next]
      exact iff_of_true Iff.rfl
        (iff_of_false (not_opens_of_isComment hcomment c next')
          (not_opens_of_isComment hcomment c next))
    · rw [kind_eq_comment_iff_opens hmode, kind_eq_comment_iff_opens hmode']
    · exact absurd rfl hbreak

/-- Readings that agree on a character and on whether a comment begins with it agree on the next
character as well. -/
theorem Agree.step {mode mode' : Mode} {c : Char} (h : Agree mode mode' c) {next : Option Char}
    (hopens : Opens mode' c next ↔ Opens mode c next) (d : Char) :
    Agree (mode.step c next).2 (mode'.step c next).2 d := by
  rcases h with ⟨rfl, hcomment⟩ | ⟨hmode', hmode | ⟨rfl, rfl⟩⟩
  · cases hnext : (mode'.step c next).2.isComment with
    | true => exact Or.inl ⟨rfl, hnext⟩
    | false => exact Or.inr ⟨hnext, Or.inl hnext⟩
  · by_cases hopen : Opens mode c next
    · obtain ⟨rfl, -⟩ := hopens.mpr hopen
      obtain ⟨rfl, -⟩ := id hopen
      exact Or.inl ⟨rfl, hopen.step.2⟩
    · have hopen' : ¬Opens mode' c next := fun h ↦ hopen (hopens.mp h)
      exact Or.inr ⟨(step_of_not_opens hmode' hopen').2, Or.inl (step_of_not_opens hmode hopen).2⟩
  · have hopen' : ¬Opens mode' '\n' next := fun h ↦ absurd h.2.1 (by decide)
    exact Or.inr ⟨(step_of_not_opens hmode' hopen').2, Or.inl rfl⟩

/-- If no comment goes on in the source after a character, none does in the result. -/
theorem Agree.isComment_step {mode mode' : Mode} {c : Char} (h : Agree mode mode' c)
    {next next' : Option Char} (hopens : Opens mode' c next' ↔ Opens mode c next)
    (hnext : (mode.step c next).2.isComment = false) :
    (mode'.step c next').2.isComment = false := by
  rcases h with ⟨rfl, hcomment⟩ | ⟨hmode', -⟩
  · rw [isComment_congr_of_isComment hcomment c next' next, hnext]
  · refine (step_of_not_opens hmode' fun hopen ↦ ?_).2
    have hcomment := (hopens.mp hopen).step.2
    rw [hnext] at hcomment
    cases hcomment

/-! ### The two readings of a text -/

/-- What the two readings of a text must agree on before the next character: if the character is cut
out, the second reading is in no comment. -/
def Aligned (ranges : List Removal) (mode mode' : Mode) (first : List Char) : List Char → Prop
  | [] => True
  | c :: _ =>
    if isCut ranges (byteLength first) then mode'.isComment = false else Agree mode mode' c

/-- The readings stay aligned when a character is cut out. -/
theorem aligned_of_cut {text first rest : List Char} {c : Char} {mode mode' : Mode}
    (h : SparesComments ranges text) (htext : text = first ++ c :: rest)
    (hmode : modeAfter .code first (some c) = mode)
    (hcut : isCut ranges (byteLength first) = true) (hmode' : mode'.isComment = false) :
    Aligned ranges (mode.step c rest.head?).2 mode' (first ++ [c]) rest := by
  cases rest with
  | nil => exact trivial
  | cons d rest =>
    rw [Aligned]
    split_ifs with hnext
    · exact hmode'
    · obtain ⟨range, hrange, hstop⟩ := h.exists_stop htext hcut (Bool.eq_false_iff.mpr hnext)
      obtain ⟨before, after, hplace, hlength, hends⟩ := h.stop range hrange
      have hsame : before ++ after = (first ++ [c]) ++ d :: rest := by
        rw [← hplace, htext, List.append_assoc, List.singleton_append]
      obtain ⟨rfl, rfl⟩ := append_inj_of_byteLength hsame (hlength.trans hstop)
      have hbefore := hends d rest rfl
      rw [modeAfter_concat, hmode] at hbefore
      exact Or.inr ⟨hmode', hbefore⟩

/-- The readings stay aligned when a character stays and both agree on whether a comment begins with
it. -/
theorem aligned_of_kept {text first rest : List Char} {c : Char} {mode mode' : Mode}
    (h : SparesComments ranges text) (htext : text = first ++ c :: rest)
    (hmode : modeAfter .code first (some c) = mode)
    (hkept : isCut ranges (byteLength first) = false) (hagree : Agree mode mode' c)
    (hopens : Opens mode' c (cut ranges (byteLength (first ++ [c])) rest).head? ↔
      Opens mode c rest.head?) :
    Aligned ranges (mode.step c rest.head?).2
      (mode'.step c (cut ranges (byteLength (first ++ [c])) rest).head?).2 (first ++ [c]) rest := by
  cases rest with
  | nil => exact trivial
  | cons d rest =>
    rw [Aligned]
    split_ifs with hnext
    · obtain ⟨range, hrange, hstart⟩ := h.exists_start htext hkept hnext
      obtain ⟨before, after, hplace, hlength, hbegins⟩ := h.start range hrange
      have hsame : before ++ after = (first ++ [c]) ++ d :: rest := by
        rw [← hplace, htext, List.append_assoc, List.singleton_append]
      obtain ⟨rfl, rfl⟩ := append_inj_of_byteLength hsame (hlength.trans hstart)
      rw [List.head?_cons, modeAfter_concat, hmode] at hbegins
      exact hagree.isComment_step hopens hbegins
    · rw [cut_cons, if_neg hnext] at hopens ⊢
      exact hagree.step hopens d

/-- If the place between two parts of a text stays, a comment begins there in the result exactly if
one begins there in the text. -/
def BeginsAlike (ranges : List Removal) (first second : List Char) : Prop :=
  isCut ranges (byteLength first) = false →
    (CommentBegins (cut ranges 0 first) (cut ranges (byteLength first) second) ↔
      CommentBegins first second)

/-- The places of a text are its beginning and those behind its first character. -/
theorem forall_places_cons_iff {P : List Char → List Char → Prop} {first rest : List Char}
    {c : Char} :
    (∀ middle tail, c :: rest = middle ++ tail → P (first ++ middle) tail) ↔
      P first (c :: rest) ∧
        ∀ middle tail, rest = middle ++ tail → P (first ++ [c] ++ middle) tail := by
  constructor
  · intro h
    refine ⟨by simpa using h [] (c :: rest) rfl, fun middle tail hrest ↦ ?_⟩
    have hplace := h (c :: middle) tail (by rw [hrest, List.cons_append])
    rwa [List.append_cons] at hplace
  · rintro ⟨hfirst, hrest⟩ middle tail hplace
    cases middle with
    | nil =>
      obtain rfl := hplace
      rwa [List.append_nil]
    | cons d middle =>
      obtain ⟨rfl, hrest'⟩ := List.cons.inj hplace
      rw [List.append_cons]
      exact hrest middle tail hrest'

/-- From two readings that are aligned, cutting and hiding comments commute exactly if the same
comments begin in what is left to read. -/
theorem blankFrom_cut_iff {text first second : List Char} {mode mode' : Mode}
    (h : SparesComments ranges text) (htext : text = first ++ second)
    (hmode : modeAfter .code first second.head? = mode)
    (hmode' : modeAfter .code (cut ranges 0 first)
      (cut ranges (byteLength first) second).head? = mode')
    (haligned : Aligned ranges mode mode' first second) :
    blankFrom mode' (cut ranges (byteLength first) second) =
        cut ranges (byteLength first) (blankFrom mode second) ↔
      ∀ middle rest, second = middle ++ rest → BeginsAlike ranges (first ++ middle) rest := by
  induction second generalizing first mode mode' with
  | nil =>
    refine iff_of_true rfl fun middle rest hnil _ ↦ ?_
    obtain ⟨rfl, rfl⟩ := List.append_eq_nil_iff.mp hnil.symm
    exact iff_of_false (not_commentBegins_nil _) (not_commentBegins_nil _)
  | cons c rest ih =>
    have hnextText : text = first ++ [c] ++ rest := by
      rw [htext, List.append_assoc, List.singleton_append]
    have hoffset := (byteLength_concat first c).symm
    have hnextMode : modeAfter .code (first ++ [c]) rest.head? = (mode.step c rest.head?).2 := by
      rw [modeAfter_concat, ← hmode]
      rfl
    have hsource : cut ranges (byteLength first) (blankFrom mode (c :: rest)) =
        (if isCut ranges (byteLength first) then []
          else withoutComment (c, (mode.step c rest.head?).1)) ++
          cut ranges (byteLength (first ++ [c])) (blankFrom (mode.step c rest.head?).2 rest) := by
      rw [blankFrom_cons, cut_append, h.cut_withoutComment htext, byteLength_withoutComment,
        hoffset]
    have hcutFirst : cut ranges 0 (first ++ [c]) =
        cut ranges 0 first ++ if isCut ranges (byteLength first) then [] else [c] := by
      rw [cut_append, Nat.zero_add, cut_cons]
      rfl
    rw [forall_places_cons_iff, hsource, cut_cons, hoffset]
    rw [Aligned] at haligned
    rw [cut_cons, hoffset] at hmode'
    cases hcut : isCut ranges (byteLength first) with
    | true =>
      simp only [hcut, if_true] at haligned hcutFirst hmode' ⊢
      have hbegins : BeginsAlike ranges first (c :: rest) := fun hkept ↦ by
        rw [hcut] at hkept
        cases hkept
      rw [List.nil_append, and_iff_right hbegins]
      refine ih hnextText hnextMode ?_ (aligned_of_cut h htext hmode hcut haligned)
      rw [hcutFirst, List.append_nil, hmode']
    | false =>
      simp only [hcut, Bool.false_eq_true, if_false, List.head?_cons] at haligned hcutFirst hmode' ⊢
      have hbegins : BeginsAlike ranges first (c :: rest) ↔
          (Opens mode' c (cut ranges (byteLength (first ++ [c])) rest).head? ↔
            Opens mode c rest.head?) := by
        rw [BeginsAlike, cut_cons, hoffset, hcut, if_neg Bool.false_ne_true,
          commentBegins_cons_iff, commentBegins_cons_iff, hmode', ← hmode]
        exact forall_prop_of_true rfl
      rw [blankFrom_cons, append_eq_append_iff_of_byteLength,
        haligned.withoutComment_eq_iff, ← hbegins]
      · refine and_congr_right fun hsame ↦ ?_
        refine ih hnextText hnextMode ?_
          (aligned_of_kept h htext hmode hcut haligned (hbegins.mp hsame))
        rw [hcutFirst, modeAfter_concat, hmode']
      · rw [byteLength_withoutComment, byteLength_withoutComment]

/-- Cutting commutes with hiding comments exactly if every comment that begins at a place that stays
begins there in the result, and no other does. -/
theorem blankComments_cut_iff {text : List Char} (h : SparesComments ranges text) :
    blankComments (cut ranges 0 text) = cut ranges 0 (blankComments text) ↔
      ∀ first second, text = first ++ second → BeginsAlike ranges first second := by
  refine blankFrom_cut_iff h (List.nil_append text).symm rfl rfl ?_
  cases text with
  | nil => exact trivial
  | cons c rest =>
    rw [Aligned]
    split_ifs
    · rfl
    · exact Or.inr ⟨rfl, Or.inl rfl⟩

end CalculatorCatalog.Edit
