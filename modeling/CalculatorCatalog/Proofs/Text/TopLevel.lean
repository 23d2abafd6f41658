import CalculatorCatalog.Proofs.Text.Layout

/-!
# What is visible at the top level

`maskNested` hides what is nested in brackets and leaves the literals of the top level as they are.
This module compares a text with what is visible of it, in both directions. At a place of the top
level outside literals the views of the two parts are independent (`AtTopLevel.maskNested_append`),
and of a text without comments every character that is visible there stands in the text: white
space, words and colons (`exists_of_maskNested_plain`), a quote, and a literal up to its closing
quote (`LiteralContent.exists_of_maskScanned`).

A text whose comments have been hidden has none any more (`noComments_blankComments`).
-/

set_option autoImplicit false
set_option relaxedAutoImplicit false

namespace CalculatorCatalog.Text

/-! ### Literals -/

/-- What can stand between the quotes of a literal: its own quote, a backslash and a line break only
after a backslash. -/
inductive LiteralContent (quote : Char) : List Char → Prop
  | nil : LiteralContent quote []
  | char {c : Char} {text : List Char} (hquote : c ≠ quote) (hslash : c ≠ '\\') (hbreak : c ≠ '\n')
      (htext : LiteralContent quote text) : LiteralContent quote (c :: text)
  | escape (c : Char) {text : List Char} (htext : LiteralContent quote text) :
      LiteralContent quote ('\\' :: c :: text)

theorem step_literal_of_ne {quote c : Char} (hquote : c ≠ quote) (hslash : c ≠ '\\')
    (hbreak : c ≠ '\n') (next : Option Char) :
    (Mode.literal quote).step c next = (.literal, .literal quote) := by
  simp [Mode.step, hquote, hslash, hbreak]

theorem step_literal_quote {quote : Char} (hquote : isQuote quote = true) (next : Option Char) :
    (Mode.literal quote).step quote next = (.literal, .code) := by
  have hslash : quote ≠ '\\' ∧ quote ≠ '\n' := by
    constructor <;> (rintro rfl; cases hquote)
  simp [Mode.step, hslash]

theorem step_quote {quote : Char} (hquote : isQuote quote = true) (next : Option Char) :
    Mode.code.step quote next = (.literal, .literal quote) := by
  simp [Mode.step, hquote]

theorem LiteralContent.scanFrom_append {quote : Char} {content : List Char}
    (h : LiteralContent quote content) (text : List Char) :
    scanFrom (.literal quote) (content ++ text) =
      content.map (·, .literal) ++ scanFrom (.literal quote) text := by
  induction h with
  | nil => rfl
  | char hquote hslash hbreak _ ih =>
    rw [List.cons_append, scanFrom, step_literal_of_ne hquote hslash hbreak, ih]
    rfl
  | escape c _ ih =>
    have hstep (next : Option Char) :
        (Mode.literal quote).step '\\' next = (.literal, .escaped quote) := rfl
    have hescaped (next : Option Char) :
        (Mode.escaped quote).step c next = (.literal, .literal quote) := rfl
    rw [List.cons_append, scanFrom, hstep, List.cons_append, scanFrom, hescaped, ih]
    rfl

/-- A literal is read up to its closing quote. -/
theorem LiteralContent.scan_quoted {quote : Char} {content : List Char}
    (h : LiteralContent quote content) (hquote : isQuote quote = true) (text : List Char) :
    scan (quote :: (content ++ quote :: text)) =
      (quote, .literal) :: (content.map (·, .literal) ++ (quote, .literal) :: scan text) := by
  rw [scan, scanFrom, step_quote hquote, h.scanFrom_append, scanFrom, step_literal_quote hquote]
  rfl

/-- A literal at the top level stays visible, and what follows it is seen on its own. -/
theorem LiteralContent.maskNested_quoted {quote : Char} {content : List Char}
    (h : LiteralContent quote content) (hquote : isQuote quote = true) (text : List Char) :
    maskNested (quote :: (content ++ quote :: text)) =
      quote :: (content ++ quote :: maskNested text) := by
  rw [maskNested, h.scan_quoted hquote, maskScanned_cons_of_not rfl (depthAfter_literal quote 0),
    maskScanned_literal_append, maskScanned_cons_of_not rfl (depthAfter_literal quote 0)]
  rfl

/-- A literal that the source does not close is visible up to its end. -/
theorem LiteralContent.maskNested_cutOff {quote : Char} {content : List Char}
    (h : LiteralContent quote content) (hquote : isQuote quote = true) :
    maskNested (quote :: content) = quote :: content := by
  have hscan : scan (quote :: content) =
      (quote, .literal) :: (content.map (·, .literal) ++ []) := by
    have hcontent := h.scanFrom_append []
    rw [List.append_nil] at hcontent
    rw [scan, scanFrom, step_quote hquote]
    exact congrArg _ hcontent
  rw [maskNested, hscan, maskScanned_cons_of_not rfl (depthAfter_literal quote 0),
    maskScanned_literal_append, maskScanned, List.append_nil]

theorem literalContent_of_forall {quote : Char} {content : List Char}
    (h : ∀ c ∈ content, c ≠ quote ∧ c ≠ '\\' ∧ c ≠ '\n') : LiteralContent quote content := by
  induction content with
  | nil => exact .nil
  | cons c content ih =>
    obtain ⟨⟨hquote, hslash, hbreak⟩, htail⟩ := List.forall_mem_cons.mp h
    exact .char hquote hslash hbreak (ih htail)

/-- The characters of a content may be looked at one by one. -/
theorem forall_of_all {quote : Char} {content : List Char}
    (h : (content.all fun c ↦ c != quote && c != '\\' && c != '\n') = true) :
    ∀ c ∈ content, c ≠ quote ∧ c ≠ '\\' ∧ c ≠ '\n' := by
  intro c hc
  simpa [and_assoc] using List.all_eq_true.mp h c hc

theorem literalContent_of_all {quote : Char} {content : List Char}
    (h : (content.all fun c ↦ c != quote && c != '\\' && c != '\n') = true) :
    LiteralContent quote content :=
  literalContent_of_forall (forall_of_all h)

/-! ### Places of the top level -/

/-- A place outside literals, comments and brackets, given what comes before it and the character
that comes next. -/
structure AtTopLevel (before : List Char) (next : Option Char) : Prop where
  code : modeAfter .code before next = .code
  depth : depthThrough 0 (scanTo .code before next) = 0

/-- What is visible of a text before a place, given the character that comes next. -/
def maskedTo (before : List Char) (next : Option Char) : List Char :=
  maskScanned 0 (scanTo .code before next)

theorem maskedTo_none (text : List Char) : maskedTo text none = maskNested text := by
  have hscan := scanFrom_append .code text []
  rw [List.append_nil, scanFrom, List.append_nil] at hscan
  rw [maskNested, scan, hscan]
  rfl

theorem maskedTo_concat (init : List Char) (c : Char) (next : Option Char) :
    maskedTo (init ++ [c]) next =
      maskedTo init (some c) ++
        if isMasked (depthThrough 0 (scanTo .code init (some c)))
            (c, ((modeAfter .code init (some c)).step c next).1)
          then hidden c else [c] := by
  rw [maskedTo, scanTo_concat, Text.maskScanned_append, maskScanned, maskScanned, List.append_nil]
  rfl

theorem byteLength_maskedTo (before : List Char) (next : Option Char) :
    byteLength (maskedTo before next) = byteLength before := by
  rw [maskedTo, byteLength_maskScanned, map_fst_scanTo]

/-- Where no word goes on in a text, none does in what is visible of it. -/
theorem isWordAt_maskedTo {before : List Char} (h : isWordAt before.getLast? = false)
    (next : Option Char) : isWordAt (maskedTo before next).getLast? = false := by
  rcases List.eq_nil_or_concat before with rfl | ⟨init, c, rfl⟩
  · rfl
  · rw [List.concat_eq_append] at h ⊢
    rw [maskedTo_concat]
    split_ifs
    · rw [hidden, List.getLast?_append, List.getLast?_replicate,
        if_neg (Nat.ne_of_gt c.utf8Size_pos)]
      rfl
    · rw [List.getLast?_append] at h ⊢
      exact h

/-- In a text without comments the character before a place of the top level is visible. -/
theorem AtTopLevel.getLast?_maskedTo {before : List Char} {next : Option Char}
    (h : AtTopLevel before next) (hcomments : ∀ item ∈ scanTo .code before next,
      item.2 ≠ .comment) : (maskedTo before next).getLast? = before.getLast? := by
  rcases List.eq_nil_or_concat before with rfl | ⟨init, c, rfl⟩
  · rfl
  · rw [List.concat_eq_append] at h hcomments ⊢
    have hdepth := h.depth
    rw [scanTo_concat] at hdepth hcomments
    rw [depthThrough, List.foldl_append] at hdepth
    change depthAfter (depthThrough 0 (scanTo .code init (some c))) _ = 0 at hdepth
    have hkind := hcomments _ (List.mem_append_right _ List.mem_cons_self)
    have hvisible : isMasked (depthThrough 0 (scanTo .code init (some c)))
        (c, ((modeAfter .code init (some c)).step c next).1) = false := by
      cases hcase : ((modeAfter .code init (some c)).step c next).1 with
      | comment => exact absurd hcase hkind
      | literal =>
        rw [hcase, depthAfter_literal] at hdepth
        simp [isMasked, hdepth]
      | code =>
        rw [hcase] at hdepth
        by_cases hcloses : isClosing c = true
        · rw [depthAfter_closing hcloses] at hdepth
          simp [isMasked, hcloses, hdepth]
        · by_cases hopens : isOpening c = true
          · rw [depthAfter_opening hopens] at hdepth
            omega
          · simp only [depthAfter, hopens, hcloses, if_false, Bool.false_eq_true] at hdepth
            simp [isMasked, hcloses, hdepth]
    rw [maskedTo_concat, hvisible, if_neg Bool.false_ne_true, List.getLast?_append,
      List.getLast?_append]
    rfl

/-- What follows a place of the top level is seen as if it stood alone. -/
theorem AtTopLevel.maskNested_append {before after : List Char}
    (h : AtTopLevel before after.head?) :
    maskNested (before ++ after) = maskedTo before after.head? ++ maskNested after := by
  rw [maskNested, scan, scanFrom_append, h.code, maskScanned_append, h.depth]
  rfl

/-- A scanned text falls apart where its items do. -/
theorem exists_of_scanFrom_eq_append {mode : Mode} {text : List Char}
    {items items' : List (Char × Kind)} (h : scanFrom mode text = items ++ items') :
    ∃ first second, text = first ++ second ∧ scanTo mode first second.head? = items ∧
      scanFrom (modeAfter mode first second.head?) second = items' := by
  induction text generalizing mode items with
  | nil =>
    obtain ⟨rfl, rfl⟩ := List.append_eq_nil_iff.mp h.symm
    exact ⟨[], [], rfl, rfl, rfl⟩
  | cons c text ih =>
    cases items with
    | nil => exact ⟨[], c :: text, rfl, rfl, h⟩
    | cons item items =>
      rw [scanFrom, List.cons_append] at h
      obtain ⟨rfl, hrest⟩ := List.cons.inj h
      obtain ⟨first, second, rfl, hfirst, hsecond⟩ := ih hrest
      rw [List.head?_append] at hfirst hsecond
      refine ⟨c :: first, second, rfl, ?_, ?_⟩
      · rw [scanTo, List.head?_append, hfirst]
      · rw [modeAfter, hsecond]

/-- What is visible in a masked text is a character of the text, with the same text hidden before
it. Outside literals and comments it stands at the top level unless it is a bracket. -/
theorem exists_of_maskNested {text first second : List Char} {c : Char} (hc : isPlain c = true)
    (hspace : c ≠ ' ') (h : maskNested text = first ++ c :: second) :
    ∃ before after, text = before ++ c :: after ∧ byteLength before = byteLength first ∧
      maskedTo before (some c) = first ∧
      (modeAfter .code before (some c) = .code →
        AtTopLevel before (some c) ∧ maskNested (c :: after) = c :: second) := by
  obtain ⟨passed, kind, rest, hitems, hpassed, hvisible, hrest⟩ := exists_of_maskScanned hspace h
  obtain ⟨before, tail, rfl, hbefore, htail⟩ := exists_of_scanFrom_eq_append hitems
  cases tail with
  | nil => cases htail
  | cons d after =>
    rw [List.head?_cons] at hbefore htail
    rw [scanFrom] at htail
    obtain ⟨hitem, hafter⟩ := List.cons.inj htail
    obtain ⟨rfl, hkind⟩ := Prod.mk.inj hitem
    have hmasked : maskedTo before (some d) = first := by rw [maskedTo, hbefore, hpassed]
    refine ⟨before, after, rfl, ?_, hmasked, fun hcode ↦ ?_⟩
    · rw [← hmasked, byteLength_maskedTo]
    · obtain ⟨hquote, hopening, hclosing, hslash⟩ := isPlain_iff.mp hc
      have hstep : Mode.code.step d after.head? = (.code, .code) := by
        simp [Mode.step, hquote, hslash]
      rw [hcode, hstep] at hkind
      subst hkind
      have hdepth : depthThrough 0 passed = 0 := by
        simpa [isMasked, hclosing] using hvisible
      have htop : AtTopLevel before (d :: after).head? :=
        ⟨hcode, by rw [List.head?_cons, hbefore, hdepth]⟩
      refine ⟨htop, ?_⟩
      have hsplit := htop.maskNested_append
      rw [h, List.head?_cons, hmasked] at hsplit
      exact (List.append_cancel_left hsplit).symm

/-! ### Texts without comments -/

/-- Nothing is read as a comment. -/
def NoComments (mode : Mode) (text : List Char) : Prop :=
  ∀ item ∈ scanFrom mode text, item.2 ≠ .comment

theorem noComments_cons_iff {mode : Mode} {c : Char} {text : List Char} :
    NoComments mode (c :: text) ↔
      (mode.step c text.head?).1 ≠ .comment ∧ NoComments (mode.step c text.head?).2 text := by
  rw [NoComments, scanFrom, List.forall_mem_cons]
  rfl

theorem noComments_append_iff {mode : Mode} {first second : List Char} :
    NoComments mode (first ++ second) ↔
      (∀ item ∈ scanTo mode first second.head?, item.2 ≠ .comment) ∧
        NoComments (modeAfter mode first second.head?) second := by
  rw [NoComments, scanFrom_append, List.forall_mem_append]
  rfl

/-- A character of a part that is no comment is none at the end of a text. -/
theorem NoComments.of_append {mode : Mode} {first second : List Char}
    (h : NoComments mode (first ++ second)) : NoComments mode first := by
  induction first generalizing mode with
  | nil => exact fun item hitem ↦ absurd hitem List.not_mem_nil
  | cons c first ih =>
    rw [List.cons_append, noComments_cons_iff] at h
    cases first with
    | cons d first =>
      rw [List.cons_append, List.head?_cons] at h
      exact noComments_cons_iff.mpr ⟨h.1, ih h.2⟩
    | nil =>
      refine noComments_cons_iff.mpr ⟨fun hkind ↦ h.1 ?_, fun item hitem ↦
        absurd hitem List.not_mem_nil⟩
      cases mode with
      | code =>
        rw [List.head?_nil, Mode.step] at hkind
        split_ifs at hkind with hquote hslash
        cases hslash.2
      | literal quote => exact hkind
      | escaped quote => exact hkind
      | lineComment => exact hkind
      | blockOpening => rfl
      | blockComment =>
        rw [Mode.step]
        split_ifs <;> rfl
      | blockClosing => rfl

/-- The mode in which the hidden text is read: outside comments. -/
def Mode.hidden (mode : Mode) : Mode :=
  if mode.isComment then .code else mode

theorem noComments_spaces_append {count : Nat} {text : List Char}
    (h : NoComments .code text) : NoComments .code (List.replicate count ' ' ++ text) := by
  induction count with
  | zero => exact h
  | succ count ih =>
    rw [List.replicate_succ, List.cons_append]
    exact noComments_cons_iff.mpr ⟨by simp [Mode.step, isQuote], ih⟩

/-- A hidden comment is read as code. -/
theorem noComments_withoutComment_append {c : Char} {text : List Char}
    (h : NoComments .code text) : NoComments .code (withoutComment (c, .comment) ++ text) := by
  by_cases hc : c = '\n'
  · subst hc
    exact noComments_cons_iff.mpr ⟨by simp [Mode.step, isQuote], h⟩
  · rw [withoutComment_comment hc]
    exact noComments_spaces_append h

/-- Behind a slash that opens no comment the hidden text goes on with nothing that would. -/
theorem head?_blankFrom_code {text : List Char}
    (h : text.head? ≠ some '/' ∧ text.head? ≠ some '*') :
    (blankFrom .code text).head? ≠ some '/' ∧ (blankFrom .code text).head? ≠ some '*' := by
  cases text with
  | nil => simp [blankFrom, scanFrom]
  | cons c text =>
    rw [blankFrom_cons]
    cases hkind : (Mode.code.step c text.head?).1 with
    | comment =>
      rw [head?_withoutComment_comment]
      split_ifs <;> simp
    | code => exact h
    | literal => exact h

/-- A comment is read from code and leads back to code. -/
theorem hidden_of_kind_eq_comment {mode : Mode} {c : Char} {next : Option Char}
    (h : (mode.step c next).1 = .comment) :
    mode.hidden = .code ∧ (mode.step c next).2.hidden = .code := by
  cases mode with
  | code =>
    rw [Mode.step] at h ⊢
    split_ifs at h ⊢ <;> exact ⟨rfl, rfl⟩
  | literal quote =>
    rw [Mode.step] at h
    split_ifs at h
  | escaped quote => cases h
  | lineComment =>
    rw [Mode.step] at h ⊢
    split_ifs at h ⊢
    exact ⟨rfl, rfl⟩
  | blockOpening => exact ⟨rfl, rfl⟩
  | blockComment =>
    rw [Mode.step]
    split_ifs <;> exact ⟨rfl, rfl⟩
  | blockClosing => exact ⟨rfl, rfl⟩

/-- What is no comment is read alike in the hidden text. -/
theorem step_hidden {mode : Mode} {c : Char} {next next' : Option Char}
    (h : (mode.step c next).1 ≠ .comment)
    (hnext : mode = .code → c = '/' → next' ≠ some '/' ∧ next' ≠ some '*') :
    mode.hidden.step c next' = mode.step c next ∧
      (mode.step c next).2.hidden = (mode.step c next).2 := by
  cases mode with
  | code =>
    have hline : ¬(c = '/' ∧ next' = some '/') := fun hopens ↦ (hnext rfl hopens.1).1 hopens.2
    have hblock : ¬(c = '/' ∧ next' = some '*') := fun hopens ↦ (hnext rfl hopens.1).2 hopens.2
    have hhidden : Mode.code.hidden = .code := rfl
    rw [hhidden, Mode.step, Mode.step, if_neg hline, if_neg hblock]
    rw [Mode.step] at h
    split_ifs at h ⊢ <;> first | exact ⟨rfl, rfl⟩ | exact absurd rfl h
  | literal quote =>
    refine ⟨rfl, ?_⟩
    rw [Mode.step]
    split_ifs <;> rfl
  | escaped quote => exact ⟨rfl, rfl⟩
  | lineComment =>
    rw [Mode.step] at h ⊢
    split_ifs at h ⊢ with hbreak
    · subst hbreak
      exact ⟨rfl, rfl⟩
    · exact absurd rfl h
  | blockOpening => exact absurd rfl h
  | blockComment =>
    rw [Mode.step] at h
    split_ifs at h <;> exact absurd rfl h
  | blockClosing => exact absurd rfl h

/-- A slash that opens no comment leads on to code. -/
theorem step_code_slash {next : Option Char} (h : (Mode.code.step '/' next).1 ≠ .comment) :
    (Mode.code.step '/' next).2 = .code ∧ next ≠ some '/' ∧ next ≠ some '*' := by
  refine ⟨?_, ?_, ?_⟩
  · have hquote : ¬isQuote '/' = true := by decide
    rw [Mode.step, if_neg hquote] at h ⊢
    split_ifs at h ⊢ <;> first | rfl | exact absurd rfl h
  · rintro rfl
    exact h rfl
  · rintro rfl
    exact h rfl

/-- Hidden comments leave no comments. -/
theorem noComments_blankFrom (mode : Mode) (text : List Char) :
    NoComments mode.hidden (blankFrom mode text) := by
  induction text generalizing mode with
  | nil => exact fun item hitem ↦ absurd hitem List.not_mem_nil
  | cons c text ih =>
    have hrest := ih (mode.step c text.head?).2
    rw [blankFrom_cons]
    by_cases hkind : (mode.step c text.head?).1 = .comment
    · obtain ⟨hmode, hnext⟩ := hidden_of_kind_eq_comment hkind
      rw [hnext] at hrest
      rw [hkind, hmode]
      exact noComments_withoutComment_append hrest
    · have hlook : mode = .code → c = '/' →
          (blankFrom (mode.step c text.head?).2 text).head? ≠ some '/' ∧
            (blankFrom (mode.step c text.head?).2 text).head? ≠ some '*' := by
        rintro rfl rfl
        obtain ⟨hcode, hhead⟩ := step_code_slash hkind
        rw [hcode]
        exact head?_blankFrom_code hhead
      obtain ⟨hstep, hnext⟩ := step_hidden hkind hlook
      rw [hnext] at hrest
      rw [withoutComment_of_ne_comment hkind, List.singleton_append, noComments_cons_iff, hstep]
      exact ⟨hkind, hrest⟩

theorem noComments_blankComments (text : List Char) : NoComments .code (blankComments text) :=
  noComments_blankFrom .code text

/-! ### What is visible of a text without comments -/

/-- What is visible and means nothing to the reader stands in the text. -/
theorem exists_of_maskNested_plain {text plain rest : List Char} (hplain : plain.all isPlain = true)
    (hcomments : NoComments .code text) (h : maskNested text = plain ++ rest) :
    ∃ after, text = plain ++ after ∧ maskNested after = rest ∧ NoComments .code after := by
  induction plain generalizing text with
  | nil => exact ⟨text, rfl, h, hcomments⟩
  | cons c plain ih =>
    rw [List.all_cons, Bool.and_eq_true] at hplain
    cases text with
    | nil => cases h
    | cons d text =>
      have hcomments' := noComments_cons_iff.mp hcomments
      have hvisible : isMasked 0 (d, (Mode.code.step d text.head?).1) = false := by
        cases hkind : (Mode.code.step d text.head?).1 with
        | comment => exact absurd hkind hcomments'.1
        | code => simp [isMasked]
        | literal => rfl
      rw [maskNested, scan, scanFrom, maskScanned_cons_of_not hvisible rfl, List.cons_append] at h
      obtain ⟨rfl, hrest⟩ := List.cons.inj h
      obtain ⟨hquote, -, -, hslash⟩ := isPlain_iff.mp hplain.1
      have hstep : Mode.code.step d text.head? = (.code, .code) := by
        simp [Mode.step, hquote, hslash]
      rw [hstep] at hrest hcomments'
      rw [depthAfter_plain hplain.1] at hrest
      obtain ⟨after, rfl, hafter⟩ := ih hplain.2 hcomments'.2 hrest
      exact ⟨after, rfl, hafter⟩

/-- A quote that comes first at the top level opens a literal. -/
theorem exists_of_maskNested_quote {text rest : List Char} {quote : Char}
    (hquote : isQuote quote = true) (hcomments : NoComments .code text)
    (h : maskNested text = quote :: rest) :
    ∃ after, text = quote :: after ∧ maskScanned 0 (scanFrom (.literal quote) after) = rest := by
  cases text with
  | nil => cases h
  | cons d text =>
    have hvisible : isMasked 0 (d, (Mode.code.step d text.head?).1) = false := by
      cases hkind : (Mode.code.step d text.head?).1 with
      | comment => exact absurd hkind (noComments_cons_iff.mp hcomments).1
      | code => simp [isMasked]
      | literal => rfl
    rw [maskNested, scan, scanFrom, maskScanned_cons_of_not hvisible rfl] at h
    obtain ⟨rfl, hrest⟩ := List.cons.inj h
    rw [step_quote hquote] at hrest
    exact ⟨text, rfl, hrest⟩

/-- A literal that is visible stands in the text. -/
theorem LiteralContent.exists_of_maskScanned {quote : Char} {content text rest : List Char}
    (hcontent : LiteralContent quote content) (hquote : isQuote quote = true)
    (h : maskScanned 0 (scanFrom (.literal quote) text) = content ++ quote :: rest) :
    ∃ after, text = content ++ quote :: after ∧ maskNested after = rest := by
  have hcons {mode : Mode} {d : Char} {text : List Char}
      (hkind : (mode.step d text.head?).1 ≠ .comment) :
      maskScanned 0 (scanFrom mode (d :: text)) =
        d :: maskScanned (depthAfter 0 (d, (mode.step d text.head?).1))
          (scanFrom (mode.step d text.head?).2 text) := by
    rw [scanFrom, maskScanned_cons_of_not _ rfl]
    cases hcase : (mode.step d text.head?).1 with
    | comment => exact absurd hcase hkind
    | code => simp [isMasked]
    | literal => rfl
  have hliteral (d : Char) (next : Option Char) :
      ((Mode.literal quote).step d next).1 ≠ .comment := by
    rw [Mode.step]
    split_ifs <;> simp
  induction hcontent generalizing text with
  | nil =>
    cases text with
    | nil => cases h
    | cons d text =>
      rw [hcons (hliteral d _)] at h
      obtain ⟨rfl, hrest⟩ := List.cons.inj h
      rw [step_literal_quote hquote] at hrest
      exact ⟨text, rfl, hrest⟩
  | char hne hslash hbreak _ ih =>
    cases text with
    | nil => cases h
    | cons d text =>
      rw [hcons (hliteral d _), List.cons_append] at h
      obtain ⟨rfl, hrest⟩ := List.cons.inj h
      rw [step_literal_of_ne hne hslash hbreak] at hrest
      obtain ⟨after, rfl, hafter⟩ := ih hrest
      exact ⟨after, rfl, hafter⟩
  | escape c _ ih =>
    cases text with
    | nil => cases h
    | cons d text =>
      rw [hcons (hliteral d _), List.cons_append] at h
      obtain ⟨rfl, hrest⟩ := List.cons.inj h
      have hstep : (Mode.literal quote).step '\\' text.head? = (.literal, .escaped quote) := rfl
      rw [hstep] at hrest
      cases text with
      | nil => cases hrest
      | cons e text =>
        have hescaped : (Mode.escaped quote).step e text.head? = (.literal, .literal quote) := rfl
        have hrest' : maskScanned 0 (scanFrom (.escaped quote) (e :: text)) = _ := hrest
        rw [hcons (by rw [hescaped]; simp), List.cons_append, hescaped] at hrest'
        obtain ⟨rfl, hlater⟩ := List.cons.inj hrest'
        obtain ⟨after, rfl, hafter⟩ := ih hlater
        exact ⟨after, rfl, hafter⟩

end CalculatorCatalog.Text
