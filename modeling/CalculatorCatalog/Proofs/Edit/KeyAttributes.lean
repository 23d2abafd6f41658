import CalculatorCatalog.Proofs.Definition.Attributes
import CalculatorCatalog.Proofs.Edit.Extent
import CalculatorCatalog.Proofs.Text.TopLevel

/-!
# The key of a removed block

A block is removed if the text of a `key` attribute with the given value stands somewhere in its
inside with nested text hidden (`hasKey_iff`). Literals of the block itself are not hidden, so that
the text may also stand inside one of them, and the two quotes around the value may be of different
kinds. `HitsOnlyKeyed` is what a removal promises: every block that is removed opens in code and has
the attribute at its top level, with the key as the content of a literal.

`hitsOnlyKeyed_iff` says when the promise is kept. What is visible outside literals stands in the
block itself, at its top level, so nothing is needed but that the text is found outside literals and
that its quotes belong together. `not_hitsOnlyKeyed` is a block with another attribute whose value
reads like the key.
-/

set_option autoImplicit false
set_option relaxedAutoImplicit false

namespace CalculatorCatalog.Edit

open CalculatorCatalog.Text

/-- The text of a `key` attribute stands in a text behind `passed`: the name, a colon and the key
between two quotes, with white space around the colon. -/
structure KeyStands (key text passed : List Char) (opening closing : Char) : Prop where
  word : isWordAt passed.getLast? = false
  opens : isQuote opening = true
  closes : isQuote closing = true
  stands : ∃ gap gap' rest, isBlank gap = true ∧ isBlank gap' = true ∧
    text = passed ++ ("key".toList ++ (gap ++ ':' :: (gap' ++ opening :: (key ++ closing :: rest))))

/-- The inside of a block has a `key` attribute at its top level, with a literal as its value whose
content is the key. -/
def HasKeyAttribute (key inner : List Char) : Prop :=
  ∃ before quote, KeyStands key inner before quote quote ∧ AtTopLevel before (some 'k') ∧
    LiteralContent quote key

/-- An offset of a text at which the reader is outside literals and comments. -/
def IsCodeOffset (text : List Char) (offset : Nat) : Prop :=
  ∃ before after, text = before ++ after ∧ byteLength before = offset ∧
    modeAfter .code before after.head? = .code

/-- The bracket that opens the block of a closed call stands outside literals. -/
def Call.OpensInCode (call : Call) (inner : List Char) : Prop :=
  ∃ read c, call.block = read ++ '(' :: (inner ++ [c]) ∧
    modeAfter .code (call.before ++ read) (some '(') = .code

/-- Every block that is removed opens in code and has the key. -/
def HitsOnlyKeyed (constructor key content : String) : Prop :=
  ∀ call ∈ keyedCalls constructor.toList key.toList content.toList,
    ∃ inner, call.inner = some inner ∧ call.OpensInCode inner ∧ HasKeyAttribute key.toList inner

/-! ### What the search for the key reads -/

theorem isWord_key : IsWord "key".toList :=
  ⟨by decide, by decide⟩

theorem keyAttribute_isSome_iff {key text : List Char} {before : Option Char} :
    (keyAttribute key before text).isSome = true ↔
      isWordAt before = false ∧ ∃ gap gap' opening closing rest, isBlank gap = true ∧
        isBlank gap' = true ∧ isQuote opening = true ∧ isQuote closing = true ∧
        text = "key".toList ++ (gap ++ ':' :: (gap' ++ opening :: (key ++ closing :: rest))) := by
  unfold keyAttribute
  constructor
  · intro h
    obtain ⟨⟨⟨⟩, left⟩, h⟩ := Option.isSome_iff_exists.mp h
    obtain ⟨value, hvalue, h⟩ := Option.bind_eq_some_iff.mp h
    obtain ⟨hboundary, gap, tail, hgap, rfl, rfl⟩ := Definition.afterAttributeName?_eq_some hvalue
    rw [isWordBoundary, isWord_key.isWordAt_head?, Bool.bne_true, Bool.not_eq_true'] at hboundary
    refine ⟨hboundary, gap, tail.takeWhile isWhiteSpace, ?_⟩
    have hsplit := takeWhile_append_skipWhite tail
    cases hskip : skipWhite tail with
    | nil => simp [hskip] at h
    | cons opening rest =>
      simp only [hskip] at h
      obtain ⟨rest', hrest', hquotes⟩ := Option.bind_eq_some_iff.mp h
      rw [afterWord?_eq_some_iff] at hrest'
      cases hopens : isQuote opening with
      | false => simp [hopens] at hquotes
      | true =>
        cases rest' with
        | nil => simp [hopens] at hquotes
        | cons closing rest' =>
          cases hcloses : isQuote closing with
          | false => simp [hopens, hcloses] at hquotes
          | true =>
            refine ⟨opening, closing, rest', hgap, isBlank_takeWhile tail, hopens, hcloses, ?_⟩
            rw [hskip, hrest'] at hsplit
            rw [hsplit]
  · rintro ⟨hbefore, gap, gap', opening, closing, rest, hgap, hgap', hopens, hcloses, rfl⟩
    rw [Definition.afterAttributeName?_append isWord_key hbefore hgap, skipWhite_append hgap',
      skipWhite_cons (isWhiteSpace_of_isQuote hopens)]
    simp [hopens, hcloses]

/-- The name of the attribute and its colon, apart from the value. -/
theorem keyText_eq (gap gap' value : List Char) :
    "key".toList ++ (gap ++ ':' :: (gap' ++ value)) =
      ("key".toList ++ (gap ++ ':' :: gap')) ++ value := by
  simp

theorem isPlain_keyText {gap gap' : List Char} (hgap : isBlank gap = true)
    (hgap' : isBlank gap' = true) : ("key".toList ++ (gap ++ ':' :: gap')).all isPlain = true := by
  rw [List.all_append, List.all_append, List.all_cons, isWord_key.isPlain, isPlain_gap hgap,
    isPlain_gap hgap']
  rfl

/-- A block has the key if the text of the attribute is visible in it. -/
theorem hasKey_iff {key inner : List Char} :
    hasKey key inner = true ↔
      ∃ passed opening closing, KeyStands key (maskNested inner) passed opening closing := by
  have hnil (before : Option Char) : keyAttribute key before [] = none := by
    rw [← Option.not_isSome_iff_eq_none, keyAttribute_isSome_iff]
    rintro ⟨-, gap, gap', opening, closing, rest, -, -, -, -, htext⟩
    cases htext
  rw [hasKey, isSome_first?_iff hnil]
  constructor
  · rintro ⟨passed, after, hmasked, hread⟩
    obtain ⟨hword, gap, gap', opening, closing, rest, hgap, hgap', hopens, hcloses, rfl⟩ :=
      keyAttribute_isSome_iff.mp hread
    exact ⟨passed, opening, closing, hword, hopens, hcloses, gap, gap', rest, hgap, hgap', hmasked⟩
  · rintro ⟨passed, opening, closing, hword, hopens, hcloses, gap, gap', rest, hgap, hgap', hmasked⟩
    exact ⟨passed, _, hmasked, keyAttribute_isSome_iff.mpr
      ⟨hword, gap, gap', opening, closing, rest, hgap, hgap', hopens, hcloses, rfl⟩⟩

/-! ### Where the key is visible and where it stands -/

/-- A block without comments has the key at its top level exactly if the text of the attribute is
visible in it outside literals, with the key between two quotes that belong together. -/
theorem hasKeyAttribute_iff {key inner : List Char} (hcomments : NoComments .code inner) :
    HasKeyAttribute key inner ↔
      ∃ passed quote, KeyStands key (maskNested inner) passed quote quote ∧
        IsCodeOffset inner (byteLength passed) ∧ LiteralContent quote key := by
  constructor
  · rintro ⟨before, quote, ⟨hword, hquote, -, gap, gap', rest, hgap, hgap', rfl⟩, htop, hcontent⟩
    have hbefore := (noComments_append_iff.mp hcomments).1
    refine ⟨maskedTo before (some 'k'), quote, ⟨?_, hquote, hquote, gap, gap', maskNested rest,
      hgap, hgap', ?_⟩, ⟨before, _, rfl, ?_, htop.code⟩, hcontent⟩
    · rw [htop.getLast?_maskedTo hbefore]
      exact hword
    · rw [AtTopLevel.maskNested_append htop, keyText_eq,
        maskNested_plain_append (isPlain_keyText hgap hgap'), hcontent.maskNested_quoted hquote,
        keyText_eq]
      rfl
    · rw [byteLength_maskedTo]
  · rintro ⟨passed, quote, ⟨hword, hquote, -, gap, gap', rest, hgap, hgap', hmasked⟩,
      ⟨first, second, htext, hlength, hcode⟩, hcontent⟩
    have hname (rest : List Char) : "key".toList ++ rest = 'k' :: ("ey".toList ++ rest) := rfl
    rw [hname] at hmasked
    obtain ⟨before, after, hinner, hbytes, hpassed, htop⟩ :=
      exists_of_maskNested (by decide) (by decide) hmasked
    obtain ⟨rfl, rfl⟩ := append_inj_of_byteLength (htext.symm.trans hinner)
      (hlength.trans hbytes.symm)
    obtain ⟨htop, hafter⟩ := htop hcode
    rw [hinner, noComments_append_iff, List.head?_cons, htop.code] at hcomments
    rw [← hname, keyText_eq] at hafter
    obtain ⟨after₁, hafter₁, hmasked₁, hcomments₁⟩ :=
      exists_of_maskNested_plain (isPlain_keyText hgap hgap') hcomments.2 hafter
    obtain ⟨after₂, rfl, hmasked₂⟩ := exists_of_maskNested_quote hquote hcomments₁ hmasked₁
    obtain ⟨after₃, rfl, -⟩ := hcontent.exists_of_maskScanned hquote hmasked₂
    refine ⟨first, quote, ⟨?_, hquote, hquote, gap, gap', after₃, hgap, hgap', ?_⟩, htop, hcontent⟩
    · rw [← htop.getLast?_maskedTo hcomments.1, hpassed]
      exact hword
    · rw [hinner, hafter₁, keyText_eq]

/-! ### What is removed -/

/-- The inside of a block that opens in code is read without comments. -/
theorem Call.OpensInCode.noComments {constructor content inner : List Char} {call : Call}
    (h : call.OpensInCode inner) (hcall : call ∈ calls constructor (blankComments content)) :
    NoComments .code inner := by
  obtain ⟨read, c, hblock, hcode⟩ := h
  have hsource := noComments_blankComments content
  have hsplit : blankComments content =
      (call.before ++ read) ++ '(' :: (inner ++ c :: call.after) := by
    rw [(callAt?_of_mem_calls hcall).1, hblock]
    simp
  rw [hsplit, noComments_append_iff, List.head?_cons, hcode, noComments_cons_iff] at hsource
  have hstep (next : Option Char) : Mode.code.step '(' next = (.code, .code) := by
    simp [Mode.step, isQuote]
  rw [hstep] at hsource
  exact hsource.2.2.of_append

/-- In every block that is removed the text of the attribute is visible. A removal keeps its promise
exactly if every such block opens in code and has that text outside literals, with the key between
two quotes that belong together. -/
theorem hitsOnlyKeyed_iff (constructor key content : String) :
    (∀ call ∈ keyedCalls constructor.toList key.toList content.toList,
      ∃ inner passed opening closing, call.inner = some inner ∧
        KeyStands key.toList (maskNested inner) passed opening closing) ∧
    (HitsOnlyKeyed constructor key content ↔
      ∀ call ∈ keyedCalls constructor.toList key.toList content.toList,
        ∃ inner, call.inner = some inner ∧ call.OpensInCode inner ∧
          ∃ passed quote, KeyStands key.toList (maskNested inner) passed quote quote ∧
            IsCodeOffset inner (byteLength passed) ∧ LiteralContent quote key.toList) := by
  refine ⟨fun call hcall ↦ ?_, forall₂_congr fun call hcall ↦ exists_congr fun inner ↦
    and_congr_right fun hinner ↦ and_congr_right fun hopens ↦ ?_⟩
  · obtain ⟨inner, hinner, hkey⟩ := Call.exists_inner_of_hasKey (List.mem_filter.mp hcall).2
    obtain ⟨passed, opening, closing, hstands⟩ := hasKey_iff.mp hkey
    exact ⟨inner, passed, opening, closing, hinner, hstands⟩
  · exact hasKeyAttribute_iff (hopens.noComments (List.mem_filter.mp hcall).1)

/-- The value of another attribute may read like the key. -/
theorem not_hitsOnlyKeyed : ¬HitsOnlyKeyed "Field" "a" "[Field(hint: \x22key: 'a'\x22)]" := by
  intro hhits
  have hcalls : keyedCalls "Field".toList "a".toList "[Field(hint: \x22key: 'a'\x22)]".toList =
      [⟨"[".toList, "Field(hint: \x22key: 'a'\x22)".toList, some "hint: \x22key: 'a'\x22".toList,
        "]".toList⟩] := rfl
  obtain ⟨inner, hinner, -, before, quote, ⟨-, -, -, gap, gap', rest, -, -, htext⟩, htop, -⟩ :=
    hhits _ (by rw [hcalls]; exact List.mem_cons_self)
  obtain rfl := Option.some.inj hinner
  -- The name of the attribute stands in one place only, and that is inside the literal.
  have hplaces : ∀ count ≤ "hint: \x22key: 'a'\x22".toList.length,
      ("hint: \x22key: 'a'\x22".toList.drop count).take 3 = "key".toList →
      modeAfter .code ("hint: \x22key: 'a'\x22".toList.take count) (some 'k') ≠ .code := by
    decide
  refine hplaces before.length ?_ ?_ ?_
  · rw [htext, List.length_append]
    omega
  · rw [htext, List.drop_left]
    rfl
  · rw [htext, List.take_left]
    exact htop.code

end CalculatorCatalog.Edit
