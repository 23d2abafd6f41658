import CalculatorCatalog.Proofs.Text.Reading

/-!
# Balanced texts

A text is `Balanced` if its brackets are, if its literals close on their line and if it has no slash
outside them. Reading such a text in code leads back to code at the same depth, whatever comes
after, so that the views of a source are computed part by part: hiding comments leaves the text as
it is (`Balanced.blankComments_eq`), the bracket that closes the enclosing one is behind it
(`Balanced.enclosed?_append`), and `maskNested` can be applied to the parts on their own
(`Balanced.maskNested_append`).
-/

set_option autoImplicit false
set_option relaxedAutoImplicit false

namespace CalculatorCatalog.Text

/-! ### Reading code -/

/-- A character that means nothing to the reader of code: no quote, no bracket and no slash. -/
def isPlain (c : Char) : Bool :=
  !isQuote c && !isOpening c && !isClosing c && c != '/'

/-- A character that stands for itself inside a literal of either kind. -/
def isVerbatim (c : Char) : Bool :=
  !isQuote c && c != '\\' && c != '\n'

theorem isPlain_iff {c : Char} :
    isPlain c = true ↔
      isQuote c = false ∧ isOpening c = false ∧ isClosing c = false ∧ c ≠ '/' := by
  simp [isPlain, and_assoc]

theorem isVerbatim_iff {c : Char} :
    isVerbatim c = true ↔ isQuote c = false ∧ c ≠ '\\' ∧ c ≠ '\n' := by
  simp [isVerbatim, and_assoc]

theorem scan_cons_of_code {c : Char} (hquote : isQuote c = false) (hslash : c ≠ '/')
    (text : List Char) : scan (c :: text) = (c, .code) :: scan text := by
  have hstep : Mode.code.step c text.head? = (.code, .code) := by
    simp [Mode.step, hquote, hslash]
  rw [scan, scanFrom, hstep]
  rfl

theorem scanFrom_literal {quote : Char} {value : List Char} (hvalue : value.all isVerbatim = true)
    (hquote : isQuote quote = true) (text : List Char) :
    scanFrom (.literal quote) (value ++ quote :: text) =
      value.map (·, .literal) ++ (quote, .literal) :: scan text := by
  induction value with
  | nil =>
    have hslash : quote ≠ '\\' ∧ quote ≠ '\n' := by
      constructor <;> (rintro rfl; cases hquote)
    have hstep : (Mode.literal quote).step quote text.head? = (.literal, .code) := by
      simp [Mode.step, hslash]
    rw [List.nil_append, scanFrom, hstep]
    rfl
  | cons c value ih =>
    rw [List.all_cons, Bool.and_eq_true, isVerbatim_iff] at hvalue
    obtain ⟨⟨hc, hslash, hbreak⟩, hvalue⟩ := hvalue
    have hne : c ≠ quote := by
      rintro rfl
      rw [hquote] at hc
      cases hc
    have hstep (next : Option Char) :
        (Mode.literal quote).step c next = (.literal, .literal quote) := by
      simp [Mode.step, hslash, hbreak, hne]
    rw [List.cons_append, scanFrom, hstep, ih hvalue]
    rfl

/-- A literal is read up to its closing quote. -/
theorem scan_quoted {quote : Char} {value : List Char} (hquote : isQuote quote = true)
    (hvalue : value.all isVerbatim = true) (text : List Char) :
    scan (quote :: (value ++ quote :: text)) =
      (quote, .literal) :: (value.map (·, .literal) ++ (quote, .literal) :: scan text) := by
  have hstep (next : Option Char) :
      Mode.code.step quote next = (.literal, .literal quote) := by
    simp [Mode.step, hquote]
  rw [scan, scanFrom, hstep, scanFrom_literal hvalue hquote]

/-! ### Balanced texts -/

/-- A text without comments whose literals and brackets are closed. -/
inductive Balanced : List Char → Prop
  | nil : Balanced []
  | plain {c : Char} {text : List Char} (hc : isPlain c = true) (htext : Balanced text) :
      Balanced (c :: text)
  | quoted {quote : Char} {value text : List Char} (hquote : isQuote quote = true)
      (hvalue : value.all isVerbatim = true) (htext : Balanced text) :
      Balanced (quote :: (value ++ quote :: text))
  | nested {opens closes : Char} {inner text : List Char} (hopens : isOpening opens = true)
      (hinner : Balanced inner) (hcloses : isClosing closes = true) (htext : Balanced text) :
      Balanced (opens :: (inner ++ closes :: text))

theorem isQuote_eq_false_of_isOpening {c : Char} (h : isOpening c = true) : isQuote c = false := by
  simp only [isOpening, Bool.or_eq_true, beq_iff_eq, or_assoc] at h
  rcases h with rfl | rfl | rfl <;> rfl

theorem isQuote_eq_false_of_isClosing {c : Char} (h : isClosing c = true) : isQuote c = false := by
  simp only [isClosing, Bool.or_eq_true, beq_iff_eq, or_assoc] at h
  rcases h with rfl | rfl | rfl <;> rfl

theorem isClosing_eq_false_of_isOpening {c : Char} (h : isOpening c = true) :
    isClosing c = false := by
  simp only [isOpening, Bool.or_eq_true, beq_iff_eq, or_assoc] at h
  rcases h with rfl | rfl | rfl <;> rfl

theorem isOpening_eq_false_of_isClosing {c : Char} (h : isClosing c = true) :
    isOpening c = false := by
  simp only [isClosing, Bool.or_eq_true, beq_iff_eq, or_assoc] at h
  rcases h with rfl | rfl | rfl <;> rfl

theorem scan_cons_of_isOpening {c : Char} (h : isOpening c = true) (text : List Char) :
    scan (c :: text) = (c, .code) :: scan text := by
  refine scan_cons_of_code (isQuote_eq_false_of_isOpening h) ?_ text
  rintro rfl
  cases h

theorem scan_cons_of_isClosing {c : Char} (h : isClosing c = true) (text : List Char) :
    scan (c :: text) = (c, .code) :: scan text := by
  refine scan_cons_of_code (isQuote_eq_false_of_isClosing h) ?_ text
  rintro rfl
  cases h

theorem scan_cons_of_isPlain {c : Char} (h : isPlain c = true) (text : List Char) :
    scan (c :: text) = (c, .code) :: scan text := by
  obtain ⟨hquote, -, -, hslash⟩ := isPlain_iff.mp h
  exact scan_cons_of_code hquote hslash text

namespace Balanced

variable {text : List Char}

theorem of_plain (h : text.all isPlain = true) : Balanced text := by
  induction text with
  | nil => exact .nil
  | cons c text ih =>
    rw [List.all_cons, Bool.and_eq_true] at h
    exact .plain h.1 (ih h.2)

theorem append {second : List Char} (h : Balanced text) (hsecond : Balanced second) :
    Balanced (text ++ second) := by
  induction h with
  | nil => exact hsecond
  | plain hc _ ih => exact .plain hc ih
  | quoted hquote hvalue _ ih =>
    rw [List.cons_append, List.append_assoc, List.cons_append]
    exact .quoted hquote hvalue ih
  | nested hopens hinner hcloses _ _ ih =>
    rw [List.cons_append, List.append_assoc, List.cons_append]
    exact .nested hopens hinner hcloses ih

/-- A literal on its own. -/
theorem literal {quote : Char} {value : List Char} (hquote : isQuote quote = true)
    (hvalue : value.all isVerbatim = true) : Balanced (quote :: (value ++ [quote])) :=
  .quoted hquote hvalue .nil

/-- A pair of brackets on its own. -/
theorem brackets {opens closes : Char} {inner : List Char} (hopens : isOpening opens = true)
    (hinner : Balanced inner) (hcloses : isClosing closes = true) :
    Balanced (opens :: (inner ++ [closes])) :=
  .nested hopens hinner hcloses .nil

/-- What comes after a balanced text is read as if it stood alone. -/
theorem scan_append (h : Balanced text) (rest : List Char) :
    scan (text ++ rest) = scan text ++ scan rest := by
  induction h generalizing rest with
  | nil => rfl
  | plain hc _ ih =>
    rw [List.cons_append, scan_cons_of_isPlain hc, scan_cons_of_isPlain hc, ih, List.cons_append]
  | quoted hquote hvalue _ ih =>
    rw [List.cons_append, List.append_assoc, List.cons_append, scan_quoted hquote hvalue,
      scan_quoted hquote hvalue, ih, List.cons_append, List.append_assoc, List.cons_append]
  | nested hopens _ hcloses _ ihInner ih =>
    rw [List.cons_append, List.append_assoc, List.cons_append, scan_cons_of_isOpening hopens,
      scan_cons_of_isOpening hopens, ihInner, ihInner, scan_cons_of_isClosing hcloses,
      scan_cons_of_isClosing hcloses, ih, List.cons_append, List.append_assoc, List.cons_append]

theorem scan_nested {opens closes : Char} {inner : List Char} (hopens : isOpening opens = true)
    (hinner : Balanced inner) (hcloses : isClosing closes = true) (rest : List Char) :
    scan (opens :: (inner ++ closes :: rest)) =
      (opens, .code) :: (scan inner ++ (closes, .code) :: scan rest) := by
  rw [scan_cons_of_isOpening hopens, hinner.scan_append, scan_cons_of_isClosing hcloses]

/-! ### The views of a balanced text -/

theorem blankComments_eq (h : Balanced text) : blankComments text = text := by
  rw [blankComments]
  induction h with
  | nil => rfl
  | plain hc _ ih => rw [scan_cons_of_isPlain hc, List.flatMap_cons, ih]; rfl
  | @quoted quote value text hquote hvalue _ ih =>
    have hliteral : (value.map (·, Kind.literal)).flatMap withoutComment = value := by
      rw [List.flatMap_map]
      exact List.flatMap_singleton' value
    rw [scan_quoted hquote hvalue, List.flatMap_cons, List.flatMap_append, hliteral,
      List.flatMap_cons, ih]
    rfl
  | nested hopens hinner hcloses _ ihInner ih =>
    rw [scan_nested hopens hinner hcloses, List.flatMap_cons, List.flatMap_append, ihInner,
      List.flatMap_cons, ih]
    rfl

end Balanced

theorem depthAfter_opening {c : Char} (h : isOpening c = true) (depth : Nat) :
    depthAfter depth (c, .code) = depth + 1 := by
  simp [depthAfter, h]

theorem depthAfter_closing {c : Char} (h : isClosing c = true) (depth : Nat) :
    depthAfter depth (c, .code) = depth - 1 := by
  simp [depthAfter, h, isOpening_eq_false_of_isClosing h]

theorem depthAfter_literal (c : Char) (depth : Nat) : depthAfter depth (c, .literal) = depth :=
  rfl

/-- Only code can open or close a bracket. -/
theorem depthAfter_of_ne {kind : Kind} (h : kind ≠ .code) (c : Char) (depth : Nat) :
    depthAfter depth (c, kind) = depth := by
  cases kind with
  | code => exact absurd rfl h
  | literal => rfl
  | comment => rfl

theorem depthAfter_plain {c : Char} (h : isPlain c = true) (depth : Nat) :
    depthAfter depth (c, .code) = depth := by
  obtain ⟨-, hopens, hcloses, -⟩ := isPlain_iff.mp h
  simp [depthAfter, hopens, hcloses]

/-- What is enclosed ends at a closing bracket. -/
theorem closeScanned?_eq_some {depth : Nat} {mode : Mode} {text inner after : List Char}
    (h : closeScanned? depth (scanFrom mode text) = some (inner, after)) :
    ∃ c, isClosing c = true ∧ text = inner ++ c :: after := by
  induction text generalizing depth mode inner with
  | nil => cases h
  | cons c text ih =>
    rw [scanFrom, closeScanned?] at h
    split_ifs at h with hclose
    · obtain ⟨rfl, rfl⟩ := Prod.mk.inj (Option.some.inj h)
      exact ⟨c, hclose.2.1, by rw [map_fst_scanFrom, List.nil_append]⟩
    · obtain ⟨⟨inner', after'⟩, hrest, heq⟩ := Option.map_eq_some_iff.mp h
      obtain ⟨rfl, rfl⟩ := Prod.mk.inj heq
      obtain ⟨d, hd, rfl⟩ := ih hrest
      exact ⟨d, hd, rfl⟩

theorem enclosed?_eq_some {text inner after : List Char}
    (h : enclosed? text = some (inner, after)) :
    ∃ c, isClosing c = true ∧ text = inner ++ c :: after :=
  closeScanned?_eq_some h

/-- The lookahead matters at a slash and at a star only. -/
theorem kind_congr_next {c : Char} (hslash : c ≠ '/') (mode : Mode) (next next' : Option Char) :
    (mode.step c next).1 = (mode.step c next').1 := by
  cases mode with
  | code => simp only [Mode.step, hslash, false_and, if_false]
  | literal quote => rfl
  | escaped quote => rfl
  | lineComment => rfl
  | blockOpening => rfl
  | blockComment =>
    simp only [Mode.step]
    split_ifs <;> rfl
  | blockClosing => rfl

/-- The search for a closing bracket does not look behind the bracket. -/
theorem closeScanned?_congr_after {depth : Nat} {mode : Mode} {inner after : List Char} {c : Char}
    (h : closeScanned? depth (scanFrom mode (inner ++ c :: after)) = some (inner, after))
    (hc : isClosing c = true) (after' : List Char) :
    closeScanned? depth (scanFrom mode (inner ++ c :: after')) = some (inner, after') := by
  induction inner generalizing depth mode with
  | nil =>
    have hslash : c ≠ '/' := by
      rintro rfl
      cases hc
    rw [List.nil_append, scanFrom, closeScanned?] at h ⊢
    split_ifs at h with hclose
    · rw [if_pos ⟨by rw [kind_congr_next hslash mode _ after.head?]; exact hclose.1, hclose.2⟩,
        map_fst_scanFrom]
    · obtain ⟨⟨inner, rest⟩, -, heq⟩ := Option.map_eq_some_iff.mp h
      exact absurd (Prod.mk.inj heq).1 (List.cons_ne_nil _ _)
  | cons d inner ih =>
    have hhead (after : List Char) : (inner ++ c :: after).head? = (inner ++ [c]).head? := by
      cases inner <;> rfl
    rw [List.cons_append, scanFrom, closeScanned?, hhead] at h ⊢
    split_ifs at h with hclose
    · exact absurd (Prod.mk.inj (Option.some.inj h)).1.symm (List.cons_ne_nil _ _)
    · obtain ⟨⟨inner', rest⟩, hrest, heq⟩ := Option.map_eq_some_iff.mp h
      obtain ⟨heq', rfl⟩ := Prod.mk.inj heq
      obtain rfl := (List.cons.inj heq').2
      rw [if_neg hclose, ih hrest]
      rfl

theorem enclosed?_congr_after {inner after : List Char} {c : Char}
    (h : enclosed? (inner ++ c :: after) = some (inner, after)) (hc : isClosing c = true)
    (after' : List Char) : enclosed? (inner ++ c :: after') = some (inner, after') :=
  closeScanned?_congr_after h hc after'

/-- The search for a closing bracket passes over a character that does not close it. -/
theorem closeScanned?_cons_of_not {depth depth' : Nat} {item : Char × Kind}
    (h : ¬(item.2 = .code ∧ isClosing item.1 = true ∧ depth = 0))
    (hdepth : depthAfter depth item = depth') (items : List (Char × Kind)) :
    closeScanned? depth (item :: items) =
      (closeScanned? depth' items).map fun (inner, after) ↦ (item.1 :: inner, after) := by
  rw [closeScanned?, if_neg h, hdepth]

theorem closeScanned?_append_of_ne {kind : Kind} (hkind : kind ≠ .code) (depth : Nat)
    (piece : List Char) (items : List (Char × Kind)) :
    closeScanned? depth (piece.map (·, kind) ++ items) =
      (closeScanned? depth items).map fun (inner, after) ↦ (piece ++ inner, after) := by
  induction piece with
  | nil => simp
  | cons c piece ih =>
    rw [List.map_cons, List.cons_append,
      closeScanned?_cons_of_not (by simp [hkind]) (depthAfter_of_ne hkind c depth), ih,
      Option.map_map]
    rfl

/-- As many spaces as a text has bytes. -/
def blanks (text : List Char) : List Char :=
  List.replicate (byteLength text) ' '

theorem blanks_cons (c : Char) (text : List Char) :
    blanks (c :: text) = hidden c ++ blanks text := by
  rw [blanks, byteLength_cons, ← List.replicate_append_replicate]
  rfl

theorem blanks_append (first second : List Char) :
    blanks (first ++ second) = blanks first ++ blanks second := by
  rw [blanks, byteLength_append, ← List.replicate_append_replicate]
  rfl

theorem maskScanned_cons_of_not {depth depth' : Nat} {item : Char × Kind}
    (h : isMasked depth item = false) (hdepth : depthAfter depth item = depth')
    (items : List (Char × Kind)) :
    maskScanned depth (item :: items) = item.1 :: maskScanned depth' items := by
  rw [maskScanned, h, hdepth]
  rfl

theorem maskScanned_cons_of_masked {depth depth' : Nat} {item : Char × Kind}
    (h : isMasked depth item = true) (hdepth : depthAfter depth item = depth')
    (items : List (Char × Kind)) :
    maskScanned depth (item :: items) = hidden item.1 ++ maskScanned depth' items := by
  rw [maskScanned, h, hdepth]
  rfl

theorem maskScanned_literal_append (value : List Char) (items : List (Char × Kind)) :
    maskScanned 0 (value.map (·, .literal) ++ items) = value ++ maskScanned 0 items := by
  induction value with
  | nil => rfl
  | cons c value ih =>
    rw [List.map_cons, List.cons_append, maskScanned_cons_of_not rfl (depthAfter_literal c 0), ih,
      List.cons_append]

theorem maskScanned_append_of_masked {kind : Kind} (hkind : kind ≠ .code) {depth : Nat}
    (hmasked : ∀ c, isMasked depth (c, kind) = true) (piece : List Char)
    (items : List (Char × Kind)) :
    maskScanned depth (piece.map (·, kind) ++ items) = blanks piece ++ maskScanned depth items := by
  induction piece with
  | nil => rfl
  | cons c piece ih =>
    rw [List.map_cons, List.cons_append,
      maskScanned_cons_of_masked (hmasked c) (depthAfter_of_ne hkind c depth), ih, blanks_cons,
      List.append_assoc]

theorem maskScanned_succ_literal_append (depth : Nat) (value : List Char)
    (items : List (Char × Kind)) :
    maskScanned (depth + 1) (value.map (·, .literal) ++ items) =
      blanks value ++ maskScanned (depth + 1) items :=
  maskScanned_append_of_masked (by simp) (fun _ ↦ rfl) value items

namespace Balanced

variable {text : List Char}

/-- The search for a closing bracket passes over a balanced text. -/
theorem closeScanned?_append (h : Balanced text) (depth : Nat) (items : List (Char × Kind)) :
    closeScanned? depth (scan text ++ items) =
      (closeScanned? depth items).map fun (inner, after) ↦ (text ++ inner, after) := by
  induction h generalizing depth items with
  | nil => simp [scan, scanFrom]
  | plain hc _ ih =>
    obtain ⟨-, -, hclosing, -⟩ := isPlain_iff.mp hc
    rw [scan_cons_of_isPlain hc, List.cons_append,
      closeScanned?_cons_of_not (by simp [hclosing]) (depthAfter_plain hc depth), ih,
      Option.map_map]
    rfl
  | quoted hquote hvalue _ ih =>
    rw [scan_quoted hquote hvalue, List.cons_append, List.append_assoc, List.cons_append,
      closeScanned?_cons_of_not (by simp) (depthAfter_literal _ depth),
      closeScanned?_append_of_ne (by simp : Kind.literal ≠ .code),
      closeScanned?_cons_of_not (by simp) (depthAfter_literal _ depth), ih]
    simp [Function.comp_def]
  | nested hopens hinner hcloses _ ihInner ih =>
    have hopening := isQuote_eq_false_of_isOpening hopens
    rw [scan_nested hopens hinner hcloses, List.cons_append, List.append_assoc, List.cons_append,
      closeScanned?_cons_of_not ?_ (depthAfter_opening hopens depth), ihInner,
      closeScanned?_cons_of_not (by simp) (depthAfter_closing hcloses (depth + 1)),
      Nat.add_sub_cancel, ih]
    · simp [Function.comp_def]
    · rintro ⟨-, hclosing, -⟩
      rw [isOpening_eq_false_of_isClosing hclosing] at hopens
      cases hopens

/-- A balanced text that ends at a bracket is what that bracket encloses. -/
theorem enclosed?_append (h : Balanced text) {c : Char} (hc : isClosing c = true)
    (rest : List Char) : enclosed? (text ++ c :: rest) = some (text, rest) := by
  have hrest : (scan rest).map (·.1) = rest := map_fst_scanFrom .code rest
  rw [enclosed?, h.scan_append, h.closeScanned?_append, scan_cons_of_isClosing hc, closeScanned?,
    if_pos ⟨rfl, hc, rfl⟩, hrest]
  simp

/-- Below the top level a balanced text is hidden. -/
theorem maskScanned_succ_append (h : Balanced text) (depth : Nat) (items : List (Char × Kind)) :
    maskScanned (depth + 1) (scan text ++ items) =
      blanks text ++ maskScanned (depth + 1) items := by
  induction h generalizing depth items with
  | nil => rfl
  | plain hc _ ih =>
    obtain ⟨-, -, hclosing, -⟩ := isPlain_iff.mp hc
    rw [scan_cons_of_isPlain hc, List.cons_append,
      maskScanned_cons_of_masked (by simp [isMasked, hclosing]) (depthAfter_plain hc (depth + 1)),
      ih, blanks_cons, List.append_assoc]
  | quoted hquote hvalue _ ih =>
    rw [scan_quoted hquote hvalue, List.cons_append, List.append_assoc, List.cons_append,
      maskScanned_cons_of_masked rfl (depthAfter_literal _ (depth + 1)),
      maskScanned_succ_literal_append,
      maskScanned_cons_of_masked rfl (depthAfter_literal _ (depth + 1)), ih, blanks_cons,
      blanks_append, blanks_cons]
    simp only [List.append_assoc]
  | nested hopens hinner hcloses _ ihInner ih =>
    have hopening : isClosing _ = false := isClosing_eq_false_of_isOpening hopens
    rw [scan_nested hopens hinner hcloses, List.cons_append, List.append_assoc, List.cons_append,
      maskScanned_cons_of_masked (by simp [isMasked, hopening])
        (depthAfter_opening hopens (depth + 1)),
      ihInner, maskScanned_cons_of_masked (by simp [isMasked, hcloses])
        (depthAfter_closing hcloses (depth + 1 + 1)),
      Nat.add_sub_cancel, ih, blanks_cons, blanks_append, blanks_cons]
    simp only [List.append_assoc]

/-- At the top level a balanced text is hidden on its own. -/
theorem maskScanned_append (h : Balanced text) (items : List (Char × Kind)) :
    maskScanned 0 (scan text ++ items) = maskNested text ++ maskScanned 0 items := by
  rw [maskNested]
  induction h generalizing items with
  | nil => rfl
  | plain hc _ ih =>
    obtain ⟨-, -, hclosing, -⟩ := isPlain_iff.mp hc
    have hmask (items : List (Char × Kind)) :=
      maskScanned_cons_of_not (by simp [isMasked, hclosing]) (depthAfter_plain hc 0) items
    rw [scan_cons_of_isPlain hc, List.cons_append, hmask, hmask, ih, List.cons_append]
  | quoted hquote hvalue _ ih =>
    have hmask (c : Char) (items : List (Char × Kind)) :=
      maskScanned_cons_of_not rfl (depthAfter_literal c 0) items
    rw [scan_quoted hquote hvalue, List.cons_append, List.append_assoc, List.cons_append, hmask,
      hmask, maskScanned_literal_append, maskScanned_literal_append, hmask, hmask, ih,
      List.cons_append, List.append_assoc, List.cons_append]
  | nested hopens hinner hcloses _ ihInner ih =>
    have hopening := isClosing_eq_false_of_isOpening hopens
    have hfirst (items : List (Char × Kind)) :=
      maskScanned_cons_of_not (by simp [isMasked, hopening]) (depthAfter_opening hopens 0) items
    have hlast (items : List (Char × Kind)) :=
      maskScanned_cons_of_not (by simp [isMasked, hcloses]) (depthAfter_closing hcloses 1) items
    rw [scan_nested hopens hinner hcloses, List.cons_append, List.append_assoc, List.cons_append,
      hfirst, hfirst, hinner.maskScanned_succ_append, hinner.maskScanned_succ_append, hlast, hlast,
      Nat.sub_self, ih, List.cons_append, List.append_assoc, List.cons_append]

theorem maskNested_append (h : Balanced text) (rest : List Char) :
    maskNested (text ++ rest) = maskNested text ++ maskNested rest := by
  rw [maskNested, h.scan_append, h.maskScanned_append]
  rfl

theorem maskNested_brackets {opens closes : Char} {inner : List Char}
    (hopens : isOpening opens = true) (hinner : Balanced inner)
    (hcloses : isClosing closes = true) :
    maskNested (opens :: (inner ++ [closes])) = opens :: (blanks inner ++ [closes]) := by
  have hopening := isClosing_eq_false_of_isOpening hopens
  rw [maskNested, scan_nested hopens hinner hcloses,
    maskScanned_cons_of_not (by simp [isMasked, hopening]) (depthAfter_opening hopens 0),
    hinner.maskScanned_succ_append,
    maskScanned_cons_of_not (by simp [isMasked, hcloses]) (depthAfter_closing hcloses 1)]
  rfl

end Balanced

theorem maskNested_of_plain {text : List Char} (h : text.all isPlain = true) :
    maskNested text = text := by
  induction text with
  | nil => rfl
  | cons c text ih =>
    rw [List.all_cons, Bool.and_eq_true] at h
    obtain ⟨-, -, hclosing, -⟩ := isPlain_iff.mp h.1
    rw [maskNested, scan_cons_of_isPlain h.1,
      maskScanned_cons_of_not (by simp [isMasked, hclosing]) (depthAfter_plain h.1 0)]
    exact congrArg (c :: ·) (ih h.2)

/-- What is plain stays, and the rest is hidden on its own. -/
theorem maskNested_plain_append {text : List Char} (h : text.all isPlain = true)
    (rest : List Char) : maskNested (text ++ rest) = text ++ maskNested rest := by
  rw [(Balanced.of_plain h).maskNested_append, maskNested_of_plain h]

theorem maskNested_literal {quote : Char} {value : List Char} (hquote : isQuote quote = true)
    (hvalue : value.all isVerbatim = true) :
    maskNested (quote :: (value ++ [quote])) = quote :: (value ++ [quote]) := by
  rw [maskNested, scan_quoted hquote hvalue,
    maskScanned_cons_of_not rfl (depthAfter_literal quote 0), maskScanned_literal_append,
    maskScanned_cons_of_not rfl (depthAfter_literal quote 0)]
  rfl

theorem byteLength_blanks (text : List Char) : byteLength (blanks text) = byteLength text :=
  byteLength_replicate_space _

theorem byteLength_maskScanned (depth : Nat) (items : List (Char × Kind)) :
    byteLength (maskScanned depth items) = byteLength (items.map (·.1)) := by
  induction items generalizing depth with
  | nil => rfl
  | cons item items ih =>
    rw [maskScanned, byteLength_append, ih, List.map_cons, byteLength_cons]
    split_ifs
    · rw [hidden, byteLength_replicate_space]
    · rfl

/-- Hiding what is nested keeps offsets. -/
theorem byteLength_maskNested (text : List Char) :
    byteLength (maskNested text) = byteLength text := by
  have hchars : (scan text).map (·.1) = text := map_fst_scanFrom .code text
  rw [maskNested, byteLength_maskScanned, hchars]

/-- The number of brackets that are open after reading a scanned text. -/
def depthThrough (depth : Nat) (items : List (Char × Kind)) : Nat :=
  items.foldl depthAfter depth

theorem maskScanned_append (depth : Nat) (first second : List (Char × Kind)) :
    maskScanned depth (first ++ second) =
      maskScanned depth first ++ maskScanned (depthThrough depth first) second := by
  induction first generalizing depth with
  | nil => rfl
  | cons item first ih =>
    rw [List.cons_append, maskScanned, maskScanned, ih, List.append_assoc]
    rfl

/-- What is visible in a masked text is an item of the scanned text, and it is seen with the same
text before it and after it. -/
theorem exists_of_maskScanned {depth : Nat} {items : List (Char × Kind)}
    {first second : List Char} {c : Char} (hc : c ≠ ' ')
    (h : maskScanned depth items = first ++ c :: second) :
    ∃ passed kind rest, items = passed ++ (c, kind) :: rest ∧ maskScanned depth passed = first ∧
      isMasked (depthThrough depth passed) (c, kind) = false ∧
      maskScanned (depthAfter (depthThrough depth passed) (c, kind)) rest = second := by
  induction items generalizing depth first with
  | nil => simp [maskScanned] at h
  | cons item items ih =>
    have hlater {before : List Char}
        (hbefore : (if isMasked depth item then hidden item.1 else [item.1]) ++ before = first)
        (hrest : maskScanned (depthAfter depth item) items = before ++ c :: second) :
        ∃ passed kind rest, item :: items = passed ++ (c, kind) :: rest ∧
          maskScanned depth passed = first ∧
          isMasked (depthThrough depth passed) (c, kind) = false ∧
          maskScanned (depthAfter (depthThrough depth passed) (c, kind)) rest = second := by
      obtain ⟨passed, kind, rest, rfl, hpassed, hvisible, hsecond⟩ := ih hrest
      refine ⟨item :: passed, kind, rest, rfl, ?_, hvisible, hsecond⟩
      rw [maskScanned, hpassed, hbefore]
    rw [maskScanned] at h
    rcases List.append_eq_append_iff.mp h with ⟨middle, hmiddle, hrest⟩ | ⟨middle, hshown, hrest⟩
    · exact hlater hmiddle.symm hrest
    · cases middle with
      | nil =>
        rw [List.append_nil] at hshown
        have hrest' : maskScanned (depthAfter depth item) items = [] ++ c :: second := hrest.symm
        exact hlater (by rw [List.append_nil, hshown]) hrest'
      | cons d middle =>
        obtain ⟨rfl, hsecond⟩ := List.cons.inj hrest
        split_ifs at hshown with hmasked
        · have hspace : c ∈ hidden item.1 := by
            rw [hshown]
            simp
          exact absurd (List.eq_of_mem_replicate hspace) hc
        · obtain ⟨rfl, rfl⟩ : first = [] ∧ middle = [] := by
            have hlength := congrArg List.length hshown
            rw [List.length_singleton, List.length_append, List.length_cons] at hlength
            exact ⟨List.eq_nil_of_length_eq_zero (by omega),
              List.eq_nil_of_length_eq_zero (by omega)⟩
          obtain rfl : item.1 = c := (List.cons.inj hshown).1
          exact ⟨[], item.2, items, rfl, rfl, Bool.eq_false_iff.mpr hmasked, hsecond.symm⟩

/-- What is visible in a masked text stands at the same offset in the text. -/
theorem exists_eq_append_of_maskNested {text first second : List Char} {c : Char} (hc : c ≠ ' ')
    (h : maskNested text = first ++ c :: second) :
    ∃ before after, text = before ++ c :: after ∧ byteLength before = byteLength first := by
  obtain ⟨passed, kind, rest, hitems, hpassed, -⟩ := exists_of_maskScanned hc h
  refine ⟨passed.map (·.1), rest.map (·.1), ?_, ?_⟩
  · have htext : (scan text).map (·.1) = text := map_fst_scanFrom .code text
    rw [← htext, hitems, List.map_append, List.map_cons]
  · rw [← hpassed, byteLength_maskScanned]

end CalculatorCatalog.Text
