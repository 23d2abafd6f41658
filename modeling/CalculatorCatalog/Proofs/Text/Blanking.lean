import CalculatorCatalog.Proofs.Text.Lexemes

/-!
# Hiding comments

`blankComments` is described here by the lexemes of a source. Hidden comments are read as spaces and
line breaks of code, and all other lexemes are read as before (`Lexes.blankComments`): what stood in
front of a comment cannot open another one together with what stood behind it. So there is nothing
to hide a second time, and brackets close where they closed before.

`HidesComments` says the same of the bytes: one that lies in a comment and is no line break has
given way to a space, and no other byte has changed. `blankComments_exact` puts the parts together.
-/

set_option autoImplicit false
set_option relaxedAutoImplicit false

namespace CalculatorCatalog.Text

/-! ### Lexemes of the hidden text -/

/-- What a lexeme is read as when comments are hidden. -/
def Lexeme.withoutComment : Lexeme → List Lexeme
  | .code c => [.code c]
  | .literal text => [.literal text]
  | .comment text => (text.flatMap fun c ↦ Text.withoutComment (c, .comment)).map .code

/-- What lexemes are read as when comments are hidden. -/
def withoutComments (lexemes : List Lexeme) : List Lexeme :=
  lexemes.flatMap Lexeme.withoutComment

/-- A hidden character leaves spaces or the line break that it is. -/
theorem eq_space_or_lineBreak {text : List Char} {d : Char}
    (h : d ∈ text.flatMap fun c ↦ withoutComment (c, .comment)) : d = ' ' ∨ d = '\n' := by
  obtain ⟨c, -, hd⟩ := List.mem_flatMap.mp h
  by_cases hc : c = '\n'
  · rw [withoutComment, if_pos hc, List.mem_singleton] at hd
    exact .inr (hd.trans hc)
  · rw [withoutComment_comment hc] at hd
    exact .inl (List.eq_of_mem_replicate hd)

theorem sourceOf_map_code (text : List Char) : sourceOf (text.map .code) = text := by
  rw [sourceOf, List.flatMap_map]
  exact List.flatMap_singleton' text

theorem byteLength_withoutComment_text (text : List Char) :
    byteLength (text.flatMap fun c ↦ withoutComment (c, .comment)) = byteLength text := by
  induction text with
  | nil => rfl
  | cons c text ih =>
    rw [List.flatMap_cons, byteLength_append, byteLength_withoutComment, ih, byteLength_cons]

theorem Lexeme.flatMap_withoutComment_items (lexeme : Lexeme) :
    lexeme.items.flatMap Text.withoutComment = sourceOf lexeme.withoutComment := by
  cases lexeme with
  | code c => rfl
  | literal text =>
    rw [Lexeme.items, List.flatMap_map, Lexeme.withoutComment, sourceOf, List.flatMap_singleton]
    exact List.flatMap_singleton' text
  | comment text => rw [Lexeme.items, List.flatMap_map, Lexeme.withoutComment, sourceOf_map_code]

theorem withoutComments_append (first second : List Lexeme) :
    withoutComments (first ++ second) = withoutComments first ++ withoutComments second :=
  List.flatMap_append

theorem sourceOf_withoutComments_cons (lexeme : Lexeme) (lexemes : List Lexeme) :
    sourceOf (withoutComments (lexeme :: lexemes)) =
      sourceOf lexeme.withoutComment ++ sourceOf (withoutComments lexemes) :=
  sourceOf_append lexeme.withoutComment (withoutComments lexemes)

theorem withoutComment_of_code (text : List Char) :
    withoutComments (text.map .code) = text.map .code := by
  rw [withoutComments, List.flatMap_map]
  exact List.flatMap_pure_eq_map Lexeme.code text

/-- Nothing is left to hide. -/
theorem withoutComments_twice (lexemes : List Lexeme) :
    withoutComments (withoutComments lexemes) = withoutComments lexemes := by
  induction lexemes with
  | nil => rfl
  | cons lexeme lexemes ih =>
    have hlexeme : withoutComments lexeme.withoutComment = lexeme.withoutComment := by
      cases lexeme with
      | code c => rfl
      | literal text => rfl
      | comment text => exact withoutComment_of_code _
    change withoutComments (lexeme.withoutComment ++ withoutComments lexemes) = _
    rw [withoutComments_append, hlexeme, ih]
    rfl

theorem byteLength_sourceOf_withoutComment (lexeme : Lexeme) :
    byteLength (sourceOf lexeme.withoutComment) = byteLength lexeme.text := by
  cases lexeme with
  | code c => rfl
  | literal text => rw [Lexeme.withoutComment, sourceOf, List.flatMap_singleton]
  | comment text =>
    rw [Lexeme.withoutComment, sourceOf_map_code, byteLength_withoutComment_text]
    rfl

theorem offsetOf_withoutComments (lexemes : List Lexeme) :
    offsetOf (withoutComments lexemes) = offsetOf lexemes := by
  induction lexemes with
  | nil => rfl
  | cons lexeme lexemes ih =>
    rw [offsetOf, sourceOf_withoutComments_cons, byteLength_append,
      byteLength_sourceOf_withoutComment, offsetOf_cons]
    exact congrArg _ ih

/-- The depth comes back to zero where it did. -/
theorem returnOffset?_withoutComments {depth : Nat} (hdepth : depth ≠ 0) (lexemes : List Lexeme) :
    returnOffset? depth (withoutComments lexemes) = returnOffset? depth lexemes := by
  have hidle (text : List Char) (htext : ∀ c ∈ text, c = ' ' ∨ c = '\n') (rest : List Lexeme)
      {depth : Nat} (hdepth : depth ≠ 0) :
      returnOffset? depth (text.map .code ++ rest) =
        (returnOffset? depth rest).map (byteLength text + ·) := by
    induction text with
    | nil => cases h : returnOffset? depth rest <;> simp [h]
    | cons c text ih =>
      obtain ⟨hc, htext⟩ := List.forall_mem_cons.mp htext
      have hsame : (Lexeme.code c).depthAfter depth = depth := by
        rcases hc with rfl | rfl <;> rfl
      rw [List.map_cons, List.cons_append, returnOffset?, hsame, if_neg hdepth, ih htext,
        Option.map_map]
      refine congrArg (Option.map · _) (funext fun offset ↦ ?_)
      simp only [Function.comp_apply, Lexeme.text, byteLength_cons, byteLength_nil, Nat.add_assoc,
        Nat.zero_add]
  induction lexemes generalizing depth with
  | nil => rfl
  | cons lexeme lexemes ih =>
    change returnOffset? depth (lexeme.withoutComment ++ withoutComments lexemes) = _
    cases lexeme with
    | comment text =>
      rw [Lexeme.withoutComment, hidle _ (fun c hc ↦ eq_space_or_lineBreak hc) _ hdepth, ih hdepth,
        byteLength_withoutComment_text, returnOffset?]
      exact (if_neg hdepth).symm
    | code c =>
      rw [Lexeme.withoutComment, List.singleton_append, returnOffset?, returnOffset?]
      split_ifs with hzero
      · rfl
      · rw [ih hzero]
    | literal text =>
      rw [Lexeme.withoutComment, List.singleton_append, returnOffset?, returnOffset?]
      split_ifs with hzero
      · rfl
      · rw [ih hzero]

/-! ### Reading the hidden text -/

theorem Lexes.code_append {text rest : List Char} {lexemes : List Lexeme}
    (htext : ∀ c ∈ text, isQuote c = false ∧ c ≠ '/') (hrest : Lexes rest lexemes) :
    Lexes (text ++ rest) (text.map .code ++ lexemes) := by
  induction text with
  | nil => exact hrest
  | cons c text ih =>
    obtain ⟨⟨hquote, hslash⟩, htext⟩ := List.forall_mem_cons.mp htext
    exact .code ⟨hquote, fun h ↦ absurd h hslash⟩ (ih htext)

theorem blankComments_cons_of_isCode {c : Char} {rest : List Char} (h : IsCode c rest) :
    blankComments (c :: rest) = c :: blankComments rest := by
  rw [blankComments, h.scan_cons]
  rfl

/-- A slash that opens no comment opens none when the comments behind it are hidden. -/
theorem IsCode.blankComments {c : Char} {rest : List Char} (h : IsCode c rest) :
    IsCode c (blankComments rest) :=
  ⟨h.1, fun hslash ↦ head?_blankFrom_code (h.2 hslash)⟩

/-- A literal ends where it did when the comments behind it are hidden. -/
theorem IsLiteral.blankComments {text rest : List Char} (h : IsLiteral text rest) :
    IsLiteral text (blankComments rest) := by
  cases h with
  | closed hquote hcontent => exact .closed hquote hcontent _
  | brokenOff hquote hcontent rest =>
    rw [blankComments_cons_of_isCode ⟨rfl, fun h ↦ absurd h (by decide)⟩]
    exact .brokenOff hquote hcontent _
  | cutOff hquote hcontent => exact .cutOff hquote hcontent
  | cutOffEscape hquote hcontent => exact .cutOffEscape hquote hcontent

namespace Lexes

variable {text : List Char} {lexemes : List Lexeme}

theorem blankComments_eq (h : Lexes text lexemes) :
    Text.blankComments text = sourceOf (withoutComments lexemes) := by
  rw [Text.blankComments, h.scan_eq, List.flatMap_assoc, sourceOf, withoutComments,
    List.flatMap_assoc]
  exact congrArg (List.flatMap · lexemes) (funext Lexeme.flatMap_withoutComment_items)

/-- Hidden comments are read as code, and everything else is read as before. -/
theorem blankComments (h : Lexes text lexemes) :
    Lexes (Text.blankComments text) (withoutComments lexemes) := by
  induction h with
  | nil => exact .nil
  | code hcode _ ih =>
    rw [blankComments_cons_of_isCode hcode]
    exact .code hcode.blankComments ih
  | @literal text rest lexemes hliteral hrest ih =>
    have hview : Text.blankComments (text ++ rest) = text ++ Text.blankComments rest := by
      rw [(Lexes.literal hliteral hrest).blankComments_eq, sourceOf_withoutComments_cons,
        ← hrest.blankComments_eq, Lexeme.withoutComment, sourceOf, List.flatMap_singleton]
      rfl
    rw [hview]
    exact .literal hliteral.blankComments ih
  | @comment text rest lexemes hcomment hrest ih =>
    rw [(Lexes.comment hcomment hrest).blankComments_eq, sourceOf_withoutComments_cons,
      ← hrest.blankComments_eq, Lexeme.withoutComment, sourceOf_map_code]
    refine code_append (fun c hc ↦ ?_) ih
    rcases eq_space_or_lineBreak hc with rfl | rfl <;> decide

theorem blankComments_twice (h : Lexes text lexemes) :
    Text.blankComments (Text.blankComments text) = Text.blankComments text := by
  rw [h.blankComments.blankComments_eq, withoutComments_twice, h.blankComments_eq]

theorem byteLength_blankComments (h : Lexes text lexemes) :
    byteLength (Text.blankComments text) = byteLength text := by
  calc byteLength (Text.blankComments text)
      = offsetOf (withoutComments lexemes) := by rw [h.blankComments_eq, offsetOf]
    _ = offsetOf lexemes := offsetOf_withoutComments lexemes
    _ = byteLength text := by rw [offsetOf, h.sourceOf_eq]

/-- A bracket that is read as code closes where it did, and it is searched at the same place. -/
theorem closing_blankComments {first second : List Lexeme} {bracket : Char}
    (h : Lexes text (first ++ .code bracket :: second)) (hopens : isOpening bracket = true) :
    closingOffset? (Text.blankComments text) (offsetOf first) =
        closingOffset? text (offsetOf first) ∧
      closingByte? (Text.blankComments text) (offsetOf first) =
        some (closingOffset? (Text.blankComments text) (offsetOf first)) := by
  have hview := h.blankComments
  have hsplit : withoutComments (first ++ .code bracket :: second) =
      withoutComments first ++ .code bracket :: withoutComments second :=
    withoutComments_append first (.code bracket :: second)
  rw [hsplit] at hview
  have hclosing := hview.closingOffset?_eq hopens
  have hbyte := hview.closingByte?_eq
  rw [offsetOf_withoutComments] at hbyte hclosing
  rw [returnOffset?_withoutComments Nat.one_ne_zero] at hclosing
  exact ⟨hclosing.trans (h.closingOffset?_eq hopens).symm, hbyte⟩

end Lexes

/-! ### Bytes -/

/-- The lexeme that the byte at an offset belongs to. -/
def lexemeAt? : List Lexeme → Nat → Option Lexeme
  | [], _ => none
  | lexeme :: lexemes, offset =>
    if offset < byteLength lexeme.text then some lexeme
    else lexemeAt? lexemes (offset - byteLength lexeme.text)

/-- The bytes of a view of a source are those of the source, except that a byte of a comment that is
no line break is a space. -/
structure HidesComments (lexemes : List Lexeme) (source view : List UInt8) : Prop where
  hidden : ∀ offset comment b, lexemeAt? lexemes offset = some (.comment comment) →
    source[offset]? = some b → b ≠ '\n'.toUInt8 → view[offset]? = some ' '.toUInt8
  kept : ∀ offset, (∀ comment, lexemeAt? lexemes offset = some (.comment comment) →
    source[offset]? = some '\n'.toUInt8) → view[offset]? = source[offset]?

/-- What a byte of a lexeme gives way to. -/
def byteWithoutComment : Option Lexeme → UInt8 → UInt8
  | some (.comment _) => blankByte
  | _ => id

theorem encode_withoutComment (lexeme : Lexeme) :
    encode (sourceOf lexeme.withoutComment) =
      (encode lexeme.text).map (byteWithoutComment (some lexeme)) := by
  cases lexeme with
  | code c => exact (List.map_id _).symm
  | literal text =>
    rw [Lexeme.withoutComment, sourceOf, List.flatMap_singleton]
    exact (List.map_id _).symm
  | comment text =>
    rw [Lexeme.withoutComment, sourceOf_map_code, ← map_blankByte_encode]
    rfl

/-- Each byte gives way to what the lexeme around it says. -/
theorem getElem?_encode_withoutComments (lexemes : List Lexeme) (offset : Nat) :
    (encode (sourceOf (withoutComments lexemes)))[offset]? =
      (encode (sourceOf lexemes))[offset]?.map
        (byteWithoutComment (lexemeAt? lexemes offset)) := by
  induction lexemes generalizing offset with
  | nil => rfl
  | cons lexeme lexemes ih =>
    have hsource : sourceOf (lexeme :: lexemes) = lexeme.text ++ sourceOf lexemes := rfl
    rw [sourceOf_withoutComments_cons, hsource, encode_append, encode_append, List.getElem?_append,
      List.getElem?_append, length_encode, length_encode, byteLength_sourceOf_withoutComment,
      lexemeAt?, ih, encode_withoutComment, List.getElem?_map]
    split_ifs <;> rfl

theorem Lexes.hidesComments {text : List Char} {lexemes : List Lexeme} (h : Lexes text lexemes) :
    HidesComments lexemes (encode text) (encode (Text.blankComments text)) := by
  have hbyte (offset : Nat) : (encode (Text.blankComments text))[offset]? =
      (encode text)[offset]?.map (byteWithoutComment (lexemeAt? lexemes offset)) := by
    rw [h.blankComments_eq, getElem?_encode_withoutComments, h.sourceOf_eq]
  constructor
  · intro offset comment b hlexeme hsource hb
    rw [hbyte, hlexeme, hsource, Option.map_some, byteWithoutComment, blankByte, if_neg hb]
  · intro offset hbreak
    rw [hbyte]
    cases hlexeme : lexemeAt? lexemes offset with
    | none => exact congrFun Option.map_id _
    | some lexeme =>
      cases lexeme with
      | code c => exact congrFun Option.map_id _
      | literal text => exact congrFun Option.map_id _
      | comment comment =>
        rw [hbreak comment hlexeme]
        rfl

/-- Hiding comments is exact. The bytes that are left are a text of the same length, in which no
comment is left; against any reading of the source, the bytes of comments have given way to spaces,
line breaks apart, and no other byte has changed; and a bracket that is read as code is closed by the
same bracket, or by none, as before. -/
theorem blankComments_exact (text : List Char) :
    blankBytes? text = some (blankComments text) ∧
      byteLength (blankComments text) = byteLength text ∧
      blankComments (blankComments text) = blankComments text ∧
      (∃ lexemes, Lexes text lexemes) ∧
      ∀ lexemes, Lexes text lexemes →
        HidesComments lexemes (encode text) (encode (blankComments text)) ∧
        ∀ first bracket second, lexemes = first ++ .code bracket :: second →
          isOpening bracket = true →
          closingOffset? (blankComments text) (offsetOf first) =
              closingOffset? text (offsetOf first) ∧
            closingByte? text (offsetOf first) = some (closingOffset? text (offsetOf first)) ∧
            closingByte? (blankComments text) (offsetOf first) =
              some (closingOffset? text (offsetOf first)) := by
  obtain ⟨known, hknown⟩ := exists_lexes text
  refine ⟨blankBytes?_eq text, hknown.byteLength_blankComments, hknown.blankComments_twice,
    ⟨known, hknown⟩, fun lexemes h ↦ ⟨h.hidesComments, ?_⟩⟩
  rintro first bracket second rfl hopens
  obtain ⟨hsame, hview⟩ := h.closing_blankComments hopens
  exact ⟨hsame, h.closingByte?_eq, hsame ▸ hview⟩

/-- A comment with a closing bracket between a pair of brackets. -/
theorem blankComments_exact_call :
    closingOffset? (blankComments "f(/*)*/)".toList) 1 = closingOffset? "f(/*)*/)".toList 1 := by
  have hcontent : ¬blockEnd <:+: [')'] ++ ['*'] := by decide
  have h : Lexes ('f' :: '(' :: (('/' :: '*' :: ([')'] ++ blockEnd)) ++ [')']))
      ([.code 'f'] ++ .code '(' :: [.comment ('/' :: '*' :: ([')'] ++ blockEnd)), .code ')']) :=
    .code ⟨rfl, by decide⟩ (.code ⟨rfl, by decide⟩ (.comment (.block hcontent _)
      (.code ⟨rfl, by decide⟩ .nil)))
  exact (((blankComments_exact _).2.2.2.2 _ h).2 _ '(' _ rfl rfl).1

end CalculatorCatalog.Text
