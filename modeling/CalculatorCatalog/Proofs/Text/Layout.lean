import CalculatorCatalog.Proofs.Text.Nesting
import CalculatorCatalog.Proofs.Text.Search

/-!
# How sources are laid out

White space may stand between any two tokens of a source, and the items of a list are divided by
commas, with or without one after the last item. `Separated` relates a list of items to the texts it
may be written as. The module also has the facts on characters that reading such a text back rests
on: white space and words have no character in common, and neither has a meaning for the nesting of
brackets.
-/

set_option autoImplicit false
set_option relaxedAutoImplicit false

namespace CalculatorCatalog.Text

/-! ### White space and words -/

/-- The white space above the ASCII range. -/
theorem covered_wordRanges_of_white :
    ∀ code ∈ [0x85, 0xA0, 0x1680, 0x2028, 0x2029, 0x202F, 0x205F, 0x3000, 0x2000, 0x2001, 0x2002,
      0x2003, 0x2004, 0x2005, 0x2006, 0x2007, 0x2008, 0x2009, 0x200A],
      covered code wordRanges = false := by
  decide +kernel

/-- No word character is white space. -/
theorem isWordCharacter_of_isWhiteSpace {c : Char} (h : isWhiteSpace c = true) :
    isWordCharacter c = false := by
  unfold isWhiteSpace at h
  unfold isWordCharacter
  split_ifs at h ⊢ with hascii
  · simp only [Bool.or_eq_true, beq_iff_eq, Bool.and_eq_true, decide_eq_true_eq] at h
    have hcode : c.toNat = 32 ∨ c.toNat = 9 ∨ c.toNat = 10 ∨ c.toNat = 11 ∨ c.toNat = 12 ∨
        c.toNat = 13 := by
      rcases h with rfl | h
      · exact Or.inl rfl
      · omega
    rw [← Char.ofNat_toNat c]
    rcases hcode with h | h | h | h | h | h <;> (rw [h]; rfl)
  · apply covered_wordRanges_of_white
    simp only [Bool.or_eq_true, decide_eq_true_eq, Bool.and_eq_true] at h
    simp only [List.mem_cons, List.not_mem_nil, or_false] at h ⊢
    omega

theorem isWhiteSpace_of_isWordCharacter {c : Char} (h : isWordCharacter c = true) :
    isWhiteSpace c = false := by
  cases hwhite : isWhiteSpace c with
  | false => rfl
  | true =>
    rw [isWordCharacter_of_isWhiteSpace hwhite] at h
    cases h

/-- The characters that mean something to the reader of code. -/
def specialCharacters : List Char :=
  ['\x27', '\x22', '(', '[', '\x7b', ')', ']', '\x7d', '/']

/-- Characters of a kind that takes in no special character are plain. -/
theorem isPlain_of {kind : Char → Bool} (hkind : specialCharacters.all (!kind ·) = true) {c : Char}
    (hc : kind c = true) : isPlain c = true := by
  have hne : ∀ d ∈ specialCharacters, c ≠ d := by
    rintro d hd rfl
    have hother := List.all_eq_true.mp hkind c hd
    rw [hc] at hother
    cases hother
  simp only [specialCharacters, List.forall_mem_cons, List.not_mem_nil, false_imp_iff,
    implies_true, and_true] at hne
  simp [isPlain, isQuote, isOpening, isClosing, hne]

theorem isPlain_of_isWhiteSpace {c : Char} (h : isWhiteSpace c = true) : isPlain c = true :=
  isPlain_of (by decide) h

theorem isPlain_of_isWordCharacter {c : Char} (h : isWordCharacter c = true) : isPlain c = true :=
  isPlain_of (by decide) h

/-- A quote belongs to no kind of plain characters. -/
theorem eq_false_of_isQuote {kind : Char → Bool}
    (hkind : ∀ c, kind c = true → isPlain c = true) {quote : Char} (h : isQuote quote = true) :
    kind quote = false := by
  cases hplain : kind quote with
  | false => rfl
  | true =>
    rw [(isPlain_iff.mp (hkind quote hplain)).1] at h
    cases h

theorem isWhiteSpace_of_isQuote {quote : Char} (h : isQuote quote = true) :
    isWhiteSpace quote = false :=
  eq_false_of_isQuote (fun _ ↦ isPlain_of_isWhiteSpace) h

theorem isWordCharacter_of_isQuote {quote : Char} (h : isQuote quote = true) :
    isWordCharacter quote = false :=
  eq_false_of_isQuote (fun _ ↦ isPlain_of_isWordCharacter) h

theorem isPlain_gap {gap : List Char} (h : isBlank gap = true) : gap.all isPlain = true := by
  rw [isBlank, List.all_eq_true] at h
  rw [List.all_eq_true]
  exact fun c hc ↦ isPlain_of_isWhiteSpace (h c hc)

/-- What comes first behind a gap, if the gap itself has nothing of the kind. -/
theorem head?_gap_append {kind : Char → Bool} (hkind : ∀ c, isWhiteSpace c = true → kind c = false)
    {gap rest : List Char} (hgap : isBlank gap = true)
    (hrest : ∀ c, rest.head? = some c → kind c = false) :
    ∀ c, (gap ++ rest).head? = some c → kind c = false := by
  cases gap with
  | nil => exact hrest
  | cons d gap =>
    rw [isBlank, List.all_cons, Bool.and_eq_true] at hgap
    intro c hc
    obtain rfl := Option.some.inj hc
    exact hkind d hgap.1

/-- White space at the end of a text keeps words apart. -/
theorem isWordAt_lastOr_gap {before : Option Char} {gap : List Char} (hgap : isBlank gap = true)
    (hbefore : isWordAt before = false) : isWordAt (lastOr before gap) = false := by
  induction gap generalizing before with
  | nil => exact hbefore
  | cons c gap ih =>
    rw [isBlank, List.all_cons, Bool.and_eq_true] at hgap
    exact ih hgap.2 (isWordCharacter_of_isWhiteSpace hgap.1)

/-- A character of a kind that white space does not belong to is in no gap. -/
theorem notMem_gap {gap : List Char} (h : isBlank gap = true) {c : Char}
    (hc : isWhiteSpace c = false) : c ∉ gap := by
  intro hmem
  rw [isBlank, List.all_eq_true] at h
  rw [h c hmem] at hc
  cases hc

/-- A word: at least one character, and only word characters. -/
structure IsWord (text : List Char) : Prop where
  ne_nil : text ≠ []
  word : text.all isWordCharacter = true

theorem IsWord.isPlain {text : List Char} (h : IsWord text) : text.all isPlain = true := by
  rw [List.all_eq_true]
  exact fun c hc ↦ isPlain_of_isWordCharacter (List.all_eq_true.mp h.word c hc)

theorem IsWord.notMem {text : List Char} (h : IsWord text) {c : Char}
    (hc : isWordCharacter c = false) : c ∉ text := by
  intro hmem
  rw [List.all_eq_true.mp h.word c hmem] at hc
  cases hc

theorem IsWord.exists_cons {text : List Char} (h : IsWord text) :
    ∃ c rest, text = c :: rest ∧ isWordCharacter c = true ∧ rest.all isWordCharacter = true := by
  obtain ⟨hne, hword⟩ := h
  cases text with
  | nil => exact absurd rfl hne
  | cons c rest =>
    rw [List.all_cons, Bool.and_eq_true] at hword
    exact ⟨c, rest, rfl, hword.1, hword.2⟩

theorem IsWord.isWordAt_head? {text : List Char} (h : IsWord text) (rest : List Char) :
    isWordAt (text ++ rest).head? = true := by
  obtain ⟨c, tail, rfl, hc, -⟩ := h.exists_cons
  exact hc

theorem IsWord.isWordAt_getLast? {text : List Char} (h : IsWord text) (before : List Char) :
    isWordAt (before ++ text).getLast? = true := by
  cases hlast : text.getLast? with
  | none => exact absurd (List.getLast?_eq_none_iff.mp hlast) h.ne_nil
  | some c =>
    rw [List.getLast?_append, hlast, Option.some_or]
    exact List.all_eq_true.mp h.word c (List.mem_of_getLast? hlast)

theorem IsWord.skipWhite_append {text : List Char} (h : IsWord text) (rest : List Char) :
    skipWhite (text ++ rest) = text ++ rest := by
  obtain ⟨c, tail, rfl, hc, -⟩ := h.exists_cons
  exact skipWhite_cons (isWhiteSpace_of_isWordCharacter hc) (tail ++ rest)

/-- The constant marker is read together with the white space that divides it from a word. -/
theorem afterConst?_append {gap text : List Char} (hgap : isBlank gap = true) (hne : gap ≠ [])
    (htext : skipWhite text = text) : afterConst? (constWord ++ (gap ++ text)) = some text := by
  cases gap with
  | nil => exact absurd rfl hne
  | cons c gap =>
    rw [isBlank, List.all_cons, Bool.and_eq_true] at hgap
    refine afterConst?_eq_some_iff.mpr ⟨c, gap ++ text, hgap.1, rfl, ?_⟩
    rw [Text.skipWhite_append hgap.2, htext]

/-- The constant marker before a word is divided from it by white space, so that it is read. -/
theorem IsWord.afterConst?_append {word gap rest : List Char} (h : IsWord word)
    (hgap : isBlank gap = true) (hdivided : gap ≠ [] ∨ isWordAt (word ++ rest).head? = false)
    (tail : List Char) :
    afterConst? (constWord ++ (gap ++ (word ++ tail))) = some (word ++ tail) := by
  have hne : gap ≠ [] := by
    refine hdivided.resolve_right ?_
    rw [h.isWordAt_head?]
    decide
  exact Text.afterConst?_append hgap hne (h.skipWhite_append tail)

/-! ### Runs of characters -/

/-- A run of characters of a kind ends before the first character that is not. -/
theorem takeWhile_append_of_stop {kind : Char → Bool} {text rest : List Char}
    (htext : text.all kind = true) (hrest : ∀ c, rest.head? = some c → kind c = false) :
    (text ++ rest).takeWhile kind = text := by
  have hnone : rest.takeWhile kind = [] := by
    cases rest with
    | nil => rfl
    | cons c rest => exact List.takeWhile_cons_of_neg (by simp [hrest c rfl])
  rw [List.takeWhile_append_of_pos (List.all_eq_true.mp htext), hnone, List.append_nil]

theorem dropWhile_append_of_stop {kind : Char → Bool} {text rest : List Char}
    (htext : text.all kind = true) (hrest : ∀ c, rest.head? = some c → kind c = false) :
    (text ++ rest).dropWhile kind = rest := by
  have hall : rest.dropWhile kind = rest := by
    cases rest with
    | nil => rfl
    | cons c rest => exact List.dropWhile_cons_of_neg (by simp [hrest c rfl])
  rw [List.dropWhile_append_of_pos (List.all_eq_true.mp htext), hall]

theorem isDigit_toDigits (value : Nat) : (Nat.toDigits 10 value).all Char.isDigit = true := by
  rw [List.all_eq_true]
  exact fun c hc ↦ Nat.isDigit_of_mem_toDigits (by decide) (by decide) hc

/-- A word ends where white space and a character of no word follow it. -/
theorem IsWord.split {word gap : List Char} (hword : IsWord word) (hgap : isBlank gap = true)
    {c : Char} (hc : isWordCharacter c = false) (rest : List Char) :
    (word ++ (gap ++ c :: rest)).takeWhile isWordCharacter = word ∧
      (word ++ (gap ++ c :: rest)).dropWhile isWordCharacter = gap ++ c :: rest := by
  have hfirst : ∀ d, (c :: rest).head? = some d → isWordCharacter d = false := by
    intro d hd
    obtain rfl := Option.some.inj hd
    exact hc
  have hstop := head?_gap_append (fun _ ↦ isWordCharacter_of_isWhiteSpace) hgap hfirst
  exact ⟨takeWhile_append_of_stop hword.word hstop, dropWhile_append_of_stop hword.word hstop⟩

/-! ### Lists of items -/

/-- Items written one after the other and divided by commas. White space may stand around every
item, and a comma may follow the last one. -/
inductive Separated {α : Type} (writes : α → List Char → Prop) : List α → List Char → Prop
  | nil {gap : List Char} (hgap : isBlank gap = true) : Separated writes [] gap
  | last {item : α} {gap text gap' : List Char} (hgap : isBlank gap = true)
      (hitem : writes item text) (hgap' : isBlank gap' = true) :
      Separated writes [item] (gap ++ (text ++ gap'))
  | cons {item : α} {items : List α} {gap text gap' rest : List Char}
      (hgap : isBlank gap = true) (hitem : writes item text) (hgap' : isBlank gap' = true)
      (hrest : Separated writes items rest) :
      Separated writes (item :: items) (gap ++ (text ++ (gap' ++ ',' :: rest)))

/-- Items that can be written can be written as a list. -/
theorem exists_separated {α : Type} {writes : α → List Char → Prop}
    (hitems : ∀ item, ∃ text, writes item text) (items : List α) :
    ∃ text, Separated writes items text := by
  induction items with
  | nil => exact ⟨[], .nil isBlank_nil⟩
  | cons item items ih =>
    obtain ⟨text, hitem⟩ := hitems item
    obtain ⟨rest, hrest⟩ := ih
    exact ⟨_, .cons isBlank_nil hitem isBlank_nil hrest⟩

theorem Separated.balanced {α : Type} {writes : α → List Char → Prop} {items : List α}
    {text : List Char} (h : Separated writes items text)
    (hitems : ∀ item text, writes item text → Balanced text) : Balanced text := by
  have hgaps {gap : List Char} (hgap : isBlank gap = true) : Balanced gap :=
    .of_plain (isPlain_gap hgap)
  induction h with
  | nil hgap => exact hgaps hgap
  | last hgap hitem hgap' => exact (hgaps hgap).append ((hitems _ _ hitem).append (hgaps hgap'))
  | cons hgap hitem hgap' _ ih =>
    exact (hgaps hgap).append ((hitems _ _ hitem).append ((hgaps hgap').append (.plain rfl ih)))

/-- A character that no item contains, and that neither divides items nor is white space, is not in
the text. -/
theorem Separated.notMem {α : Type} {writes : α → List Char → Prop} {items : List α}
    {text : List Char} (h : Separated writes items text) {c : Char}
    (hitems : ∀ item text, writes item text → c ∉ text) (hwhite : isWhiteSpace c = false)
    (hcomma : c ≠ ',') : c ∉ text := by
  induction h with
  | nil hgap => exact notMem_gap hgap hwhite
  | last hgap hitem hgap' =>
    simp only [List.mem_append, not_or]
    exact ⟨notMem_gap hgap hwhite, hitems _ _ hitem, notMem_gap hgap' hwhite⟩
  | cons hgap hitem hgap' _ ih =>
    simp only [List.mem_append, List.mem_cons, not_or]
    exact ⟨notMem_gap hgap hwhite, hitems _ _ hitem, notMem_gap hgap' hwhite, hcomma, ih⟩

/-! ### Reading a list -/

section Reading

variable {α β : Type} {recognize : Recognizer β} {before : Option Char}

/-- The values that are found in a text after a character. -/
def valuesFrom (recognize : Recognizer β) (before : Option Char) (text : List Char) : List β :=
  (piecesFrom recognize 0 before text).filterMap fun
    | .plain _ => none
    | .found _ value => some value

theorem valuesFrom_append_of_declines {passed rest : List Char}
    (hpassed : Declines recognize before passed rest) :
    valuesFrom recognize before (passed ++ rest) =
      valuesFrom recognize (lastOr before passed) rest := by
  rw [valuesFrom, piecesFrom_append_of_declines hpassed, List.filterMap_append,
    List.filterMap_eq_nil_iff.mpr (by simp), List.nil_append]
  rfl

theorem valuesFrom_of_found {read rest : List Char} {value : β} (hread : read ≠ [])
    (h : recognize before (read ++ rest) = some (value, rest)) :
    valuesFrom recognize before (read ++ rest) =
      value :: valuesFrom recognize (lastOr before read) rest := by
  rw [valuesFrom, piecesFrom_of_found hread h]
  rfl

/-- The items of a list are read if nothing is recognised between them. -/
theorem valuesFrom_separated {writes : α → List Char → Prop} {value : α → β} {items : List α}
    {text : List Char}
    (hgaps : ∀ before c text, isWhiteSpace c = true ∨ c = ',' → recognize before (c :: text) = none)
    (hitems : ∀ item text, writes item text →
      text ≠ [] ∧ ∀ before rest, recognize before (text ++ rest) = some (value item, rest))
    (h : Separated writes items text) : valuesFrom recognize before text = items.map value := by
  have hdeclines (before : Option Char) {gap : List Char} (hgap : isBlank gap = true)
      (rest : List Char) : Declines recognize before gap rest :=
    declines_of_forall (fun c hc before text ↦
      hgaps before c text (Or.inl (List.all_eq_true.mp hgap c hc))) before rest
  have hend (before : Option Char) {gap : List Char} (hgap : isBlank gap = true) :
      valuesFrom recognize before gap = [] := by
    have hpassed := valuesFrom_append_of_declines (hdeclines before hgap [])
    rw [List.append_nil] at hpassed
    rw [hpassed]
    rfl
  induction h generalizing before with
  | nil hgap => exact hend before hgap
  | last hgap hitem hgap' =>
    obtain ⟨hne, hread⟩ := hitems _ _ hitem
    rw [valuesFrom_append_of_declines (hdeclines before hgap _),
      valuesFrom_of_found hne (hread _ _), hend _ hgap']
    rfl
  | @cons item items gap text gap' rest hgap hitem hgap' _ ih =>
    obtain ⟨hne, hread⟩ := hitems _ _ hitem
    have hcomma (before : Option Char) : valuesFrom recognize before ([','] ++ rest) =
        valuesFrom recognize (some ',') rest :=
      valuesFrom_append_of_declines ⟨hgaps before ',' rest (Or.inr rfl), trivial⟩
    rw [valuesFrom_append_of_declines (hdeclines before hgap _),
      valuesFrom_of_found hne (hread _ _), valuesFrom_append_of_declines (hdeclines _ hgap' _),
      List.map_cons, ← ih]
    exact congrArg _ (hcomma _)

end Reading

end CalculatorCatalog.Text
