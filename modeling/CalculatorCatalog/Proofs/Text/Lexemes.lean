import CalculatorCatalog.Proofs.Text.ByteViews
import CalculatorCatalog.Proofs.Text.Slice
import CalculatorCatalog.Proofs.Text.TopLevel

/-!
# Lexemes

The reader of `Text.Lexical` goes from character to character. This module says what it reads as a
grammar, without modes: a source is a sequence of lexemes, each of them a literal, a comment or a
single character of code (`Lexes`). A literal runs to its quote, or up to a line break that is not
escaped, or to the end of the source (`IsLiteral`); a comment runs up to the end of its line, or to
the first star with a slash behind it, or to the end of the source (`IsComment`).

Every source has lexemes (`exists_lexes`), and they say what the reader says of the characters
(`Lexes.scan_eq`). What comes behind some lexemes of a source is read on its own
(`Lexes.exists_append`), so that brackets are counted lexeme by lexeme: `returnOffset?` is where the
depth comes back to zero, and the bracket that closes one which is read as code stands there
(`Lexes.closingOffset?_eq`).
-/

set_option autoImplicit false
set_option relaxedAutoImplicit false

namespace CalculatorCatalog.Text

/-! ### The grammar -/

/-- A part of a source that is read as one. -/
inductive Lexeme where
  | code (c : Char)
  | literal (text : List Char)
  | comment (text : List Char)
  deriving DecidableEq, Repr

/-- The text of a lexeme. -/
def Lexeme.text : Lexeme → List Char
  | .code c => [c]
  | .literal text => text
  | .comment text => text

/-- The characters of a lexeme with what they belong to. -/
def Lexeme.items : Lexeme → List (Char × Kind)
  | .code c => [(c, .code)]
  | .literal text => text.map (·, .literal)
  | .comment text => text.map (·, .comment)

/-- The text that lexemes cover. -/
def sourceOf (lexemes : List Lexeme) : List Char :=
  lexemes.flatMap Lexeme.text

/-- The number of bytes that lexemes cover. -/
def offsetOf (lexemes : List Lexeme) : Nat :=
  byteLength (sourceOf lexemes)

/-- A literal, given what comes behind it. -/
inductive IsLiteral : List Char → List Char → Prop
  /-- It ends at its quote. -/
  | closed {quote : Char} {content : List Char} (hquote : isQuote quote = true)
      (hcontent : LiteralContent quote content) (rest : List Char) :
      IsLiteral (quote :: (content ++ [quote])) rest
  /-- It ends before a line break. -/
  | brokenOff {quote : Char} {content : List Char} (hquote : isQuote quote = true)
      (hcontent : LiteralContent quote content) (rest : List Char) :
      IsLiteral (quote :: content) ('\n' :: rest)
  /-- It ends with the source. -/
  | cutOff {quote : Char} {content : List Char} (hquote : isQuote quote = true)
      (hcontent : LiteralContent quote content) : IsLiteral (quote :: content) []
  /-- It ends with the source, which ends in a backslash. -/
  | cutOffEscape {quote : Char} {content : List Char} (hquote : isQuote quote = true)
      (hcontent : LiteralContent quote content) : IsLiteral (quote :: (content ++ ['\\'])) []

/-- The two characters that close a block comment. -/
def blockEnd : List Char := ['*', '/']

/-- A comment, given what comes behind it. -/
inductive IsComment : List Char → List Char → Prop
  /-- A line comment ends before the next line break or with the source. -/
  | line {content rest : List Char} (hcontent : '\n' ∉ content)
      (hrest : ∀ c, rest.head? = some c → c = '\n') : IsComment ('/' :: '/' :: content) rest
  /-- A block comment ends at the first star with a slash behind it. -/
  | block {content : List Char} (hcontent : ¬blockEnd <:+: content ++ ['*']) (rest : List Char) :
      IsComment ('/' :: '*' :: (content ++ blockEnd)) rest
  /-- A block comment ends with the source. -/
  | cutOff {content : List Char} (hcontent : ¬blockEnd <:+: content) :
      IsComment ('/' :: '*' :: content) []

/-- A character of code, given what comes behind it: no quote, and no slash that opens a comment. -/
def IsCode (c : Char) (rest : List Char) : Prop :=
  isQuote c = false ∧ (c = '/' → rest.head? ≠ some '/' ∧ rest.head? ≠ some '*')

/-- How a source falls apart into lexemes. -/
inductive Lexes : List Char → List Lexeme → Prop
  | nil : Lexes [] []
  | code {c : Char} {rest : List Char} {lexemes : List Lexeme} (h : IsCode c rest)
      (hrest : Lexes rest lexemes) : Lexes (c :: rest) (.code c :: lexemes)
  | literal {text rest : List Char} {lexemes : List Lexeme} (h : IsLiteral text rest)
      (hrest : Lexes rest lexemes) : Lexes (text ++ rest) (.literal text :: lexemes)
  | comment {text rest : List Char} {lexemes : List Lexeme} (h : IsComment text rest)
      (hrest : Lexes rest lexemes) : Lexes (text ++ rest) (.comment text :: lexemes)

/-! ### Every source has lexemes -/

/-- What follows a quote is the content of a literal up to one of its ends. -/
theorem exists_literalContent (quote : Char) (text : List Char) :
    ∃ content, LiteralContent quote content ∧
      ((∃ rest, text = content ++ quote :: rest) ∨ (∃ rest, text = content ++ '\n' :: rest) ∨
        text = content ∨ text = content ++ ['\\']) := by
  induction hlength : text.length using Nat.strongRecOn generalizing text with
  | ind length ih =>
    subst hlength
    cases text with
    | nil => exact ⟨[], .nil, .inr (.inr (.inl rfl))⟩
    | cons c text =>
      by_cases hquote : c = quote
      · subst hquote
        exact ⟨[], .nil, .inl ⟨text, rfl⟩⟩
      by_cases hbreak : c = '\n'
      · subst hbreak
        exact ⟨[], .nil, .inr (.inl ⟨text, rfl⟩)⟩
      by_cases hslash : c = '\\'
      · subst hslash
        cases text with
        | nil => exact ⟨[], .nil, .inr (.inr (.inr rfl))⟩
        | cons d text =>
          obtain ⟨content, hcontent, hends⟩ :=
            ih text.length (by simp only [List.length_cons]; omega) text rfl
          refine ⟨'\\' :: d :: content, .escape d hcontent, ?_⟩
          rcases hends with ⟨rest, rfl⟩ | ⟨rest, rfl⟩ | rfl | rfl
          · exact .inl ⟨rest, rfl⟩
          · exact .inr (.inl ⟨rest, rfl⟩)
          · exact .inr (.inr (.inl rfl))
          · exact .inr (.inr (.inr rfl))
      · obtain ⟨content, hcontent, hends⟩ := ih text.length (by simp) text rfl
        refine ⟨c :: content, .char hquote hslash hbreak hcontent, ?_⟩
        rcases hends with ⟨rest, rfl⟩ | ⟨rest, rfl⟩ | rfl | rfl
        · exact .inl ⟨rest, rfl⟩
        · exact .inr (.inl ⟨rest, rfl⟩)
        · exact .inr (.inr (.inl rfl))
        · exact .inr (.inr (.inr rfl))

theorem exists_isLiteral {quote : Char} (hquote : isQuote quote = true) (text : List Char) :
    ∃ literal rest, quote :: text = (quote :: literal) ++ rest ∧
      IsLiteral (quote :: literal) rest := by
  obtain ⟨content, hcontent, ⟨rest, rfl⟩ | ⟨rest, rfl⟩ | rfl | rfl⟩ :=
    exists_literalContent quote text
  · exact ⟨content ++ [quote], rest, by simp, .closed hquote hcontent rest⟩
  · exact ⟨content, '\n' :: rest, rfl, .brokenOff hquote hcontent rest⟩
  · exact ⟨text, [], by simp, .cutOff hquote hcontent⟩
  · exact ⟨content ++ ['\\'], [], by simp, .cutOffEscape hquote hcontent⟩

theorem blockEnd_isInfix_cons_iff {c : Char} {text : List Char} :
    blockEnd <:+: c :: text ↔ (c = '*' ∧ text.head? = some '/') ∨ blockEnd <:+: text := by
  rw [List.infix_cons_iff]
  refine or_congr ?_ Iff.rfl
  cases text with
  | nil => simp [blockEnd]
  | cons d text => simp [blockEnd, List.cons_prefix_cons, eq_comm]

/-- Behind the opening of a block comment the text is cut at the first place where it closes. -/
theorem exists_blockContent (text : List Char) :
    (∃ content rest, text = content ++ (blockEnd ++ rest) ∧ ¬blockEnd <:+: content ++ ['*']) ∨
      ¬blockEnd <:+: text := by
  induction text with
  | nil => exact .inr (by simp [blockEnd])
  | cons c text ih =>
    by_cases hends : c = '*' ∧ text.head? = some '/'
    · obtain ⟨rfl, hhead⟩ := hends
      obtain ⟨rest, rfl⟩ := List.head?_eq_some_iff.mp hhead
      exact .inl ⟨[], rest, rfl, by rw [List.nil_append, blockEnd_isInfix_cons_iff]; simp [blockEnd]⟩
    · rcases ih with ⟨content, rest, rfl, hcontent⟩ | hnone
      · refine .inl ⟨c :: content, rest, rfl, ?_⟩
        have hhead : (content ++ ['*']).head? = (content ++ (blockEnd ++ rest)).head? := by
          cases content <;> rfl
        rw [List.cons_append, blockEnd_isInfix_cons_iff, hhead]
        exact not_or.mpr ⟨hends, hcontent⟩
      · exact .inr (by rw [blockEnd_isInfix_cons_iff]; exact not_or.mpr ⟨hends, hnone⟩)

/-- A slash opens a comment, or it is a character of code. -/
theorem exists_isComment_or_isCode (text : List Char) :
    (∃ comment rest, '/' :: text = ('/' :: comment) ++ rest ∧ IsComment ('/' :: comment) rest) ∨
      IsCode '/' text := by
  by_cases hline : text.head? = some '/'
  · obtain ⟨text, rfl⟩ := List.head?_eq_some_iff.mp hline
    refine .inl ⟨'/' :: text.takeWhile (· != '\n'), text.dropWhile (· != '\n'), ?_, .line ?_ ?_⟩
    · simp [List.takeWhile_append_dropWhile]
    · intro hmem
      have hother := List.all_eq_true.mp List.all_takeWhile '\n' hmem
      exact absurd hother (by decide)
    · intro c hc
      have hstop := List.head?_dropWhile_not (· != '\n') text
      rw [hc] at hstop
      simpa using hstop
  by_cases hblock : text.head? = some '*'
  · obtain ⟨text, rfl⟩ := List.head?_eq_some_iff.mp hblock
    rcases exists_blockContent text with ⟨content, rest, rfl, hcontent⟩ | hnone
    · exact .inl ⟨'*' :: (content ++ blockEnd), rest, by simp, .block hcontent rest⟩
    · exact .inl ⟨'*' :: text, [], by simp, .cutOff hnone⟩
  · exact .inr ⟨rfl, fun _ ↦ ⟨hline, hblock⟩⟩

/-- Every source falls apart into lexemes. -/
theorem exists_lexes (text : List Char) : ∃ lexemes, Lexes text lexemes := by
  induction hlength : text.length using Nat.strongRecOn generalizing text with
  | ind length ih =>
    subst hlength
    cases text with
    | nil => exact ⟨[], .nil⟩
    | cons c text =>
      have hshorter {part rest : List Char} (htext : c :: text = (c :: part) ++ rest) :
          rest.length < (c :: text).length := by
        rw [htext, List.length_append, List.length_cons]
        omega
      have hcode (h : IsCode c text) : ∃ lexemes, Lexes (c :: text) lexemes := by
        obtain ⟨lexemes, hlexemes⟩ := ih text.length (by simp) text rfl
        exact ⟨_, .code h hlexemes⟩
      by_cases hquote : isQuote c = true
      · obtain ⟨literal, rest, htext, hliteral⟩ := exists_isLiteral hquote text
        obtain ⟨lexemes, hlexemes⟩ := ih rest.length (hshorter htext) rest rfl
        exact ⟨_, htext ▸ Lexes.literal hliteral hlexemes⟩
      rw [Bool.not_eq_true] at hquote
      by_cases hslash : c = '/'
      · subst hslash
        rcases exists_isComment_or_isCode text with ⟨comment, rest, htext, hcomment⟩ | h
        · obtain ⟨lexemes, hlexemes⟩ := ih rest.length (hshorter htext) rest rfl
          exact ⟨_, htext ▸ Lexes.comment hcomment hlexemes⟩
        · exact hcode h
      · exact hcode ⟨hquote, fun h ↦ absurd h hslash⟩

/-! ### What the reader says of lexemes -/

theorem IsCode.scan_cons {c : Char} {rest : List Char} (h : IsCode c rest) :
    scan (c :: rest) = (c, .code) :: scan rest := by
  have hstep : Mode.code.step c rest.head? = (.code, .code) := by
    by_cases hslash : c = '/'
    · simp [Mode.step, h.1, h.2 hslash]
    · simp [Mode.step, h.1, hslash]
  rw [scan, scanFrom, hstep]
  rfl

theorem IsLiteral.scan_append {text rest : List Char} (h : IsLiteral text rest) :
    scan (text ++ rest) = text.map (·, .literal) ++ scan rest := by
  cases h with
  | @closed quote content hquote hcontent =>
    have hsplit : quote :: (content ++ [quote]) ++ rest = quote :: (content ++ quote :: rest) := by
      simp
    rw [hsplit, hcontent.scan_quoted hquote]
    simp
  | @brokenOff quote content hquote hcontent rest =>
    rw [List.cons_append, scan, scanFrom, step_quote hquote, hcontent.scanFrom_append]
    rfl
  | @cutOff quote content hquote hcontent =>
    rw [List.cons_append, scan, scanFrom, step_quote hquote, hcontent.scanFrom_append]
    rfl
  | @cutOffEscape quote content hquote hcontent =>
    rw [List.append_nil, scan, scanFrom, step_quote hquote, hcontent.scanFrom_append]
    simp [scanFrom, Mode.step, scan]

theorem scanFrom_lineComment {content rest : List Char} (hcontent : '\n' ∉ content)
    (hrest : ∀ c, rest.head? = some c → c = '\n') :
    scanFrom .lineComment (content ++ rest) = content.map (·, .comment) ++ scan rest := by
  induction content with
  | nil =>
    cases rest with
    | nil => rfl
    | cons c rest =>
      obtain rfl := hrest c rfl
      rfl
  | cons c content ih =>
    rw [List.mem_cons, not_or] at hcontent
    have hstep (next : Option Char) : Mode.lineComment.step c next = (.comment, .lineComment) :=
      if_neg (Ne.symm hcontent.1)
    rw [List.cons_append, scanFrom, hstep, ih hcontent.2]
    rfl

theorem step_blockComment {c : Char} {next : Option Char} (h : ¬(c = '*' ∧ next = some '/')) :
    Mode.blockComment.step c next = (.comment, .blockComment) :=
  if_neg h

theorem scanFrom_blockComment {content : List Char} (hcontent : ¬blockEnd <:+: content ++ ['*'])
    (rest : List Char) :
    scanFrom .blockComment (content ++ (blockEnd ++ rest)) =
      (content ++ blockEnd).map (·, .comment) ++ scan rest := by
  induction content with
  | nil => rfl
  | cons c content ih =>
    have hhead : (content ++ ['*']).head? = (content ++ (blockEnd ++ rest)).head? := by
      cases content <;> rfl
    rw [List.cons_append, blockEnd_isInfix_cons_iff, hhead, not_or] at hcontent
    rw [List.cons_append, scanFrom, step_blockComment hcontent.1, ih hcontent.2]
    rfl

theorem scanFrom_blockComment_cutOff {content : List Char} (hcontent : ¬blockEnd <:+: content) :
    scanFrom .blockComment content = content.map (·, .comment) := by
  induction content with
  | nil => rfl
  | cons c content ih =>
    rw [blockEnd_isInfix_cons_iff, not_or] at hcontent
    rw [scanFrom, step_blockComment hcontent.1, ih hcontent.2]
    rfl

theorem IsComment.scan_append {text rest : List Char} (h : IsComment text rest) :
    scan (text ++ rest) = text.map (·, .comment) ++ scan rest := by
  cases h with
  | @line content _ hcontent hrest =>
    rw [List.cons_append, List.cons_append, scan, scanFrom, scanFrom]
    exact congrArg (fun items ↦ ('/', Kind.comment) :: ('/', Kind.comment) :: items)
      (scanFrom_lineComment hcontent hrest)
  | @block content hcontent =>
    rw [List.cons_append, List.cons_append, List.append_assoc, scan, scanFrom, scanFrom]
    exact congrArg (fun items ↦ ('/', Kind.comment) :: ('*', Kind.comment) :: items)
      (scanFrom_blockComment hcontent rest)
  | @cutOff content hcontent =>
    rw [List.append_nil, scan, scanFrom, scanFrom]
    refine congrArg (fun items ↦ ('/', Kind.comment) :: ('*', Kind.comment) :: items) ?_
    exact (scanFrom_blockComment_cutOff hcontent).trans (List.append_nil _).symm

namespace Lexes

variable {text : List Char} {lexemes first second : List Lexeme}

/-- The reader reads the characters of each lexeme as what the lexeme is. -/
theorem scan_eq (h : Lexes text lexemes) : scan text = lexemes.flatMap Lexeme.items := by
  induction h with
  | nil => rfl
  | code hcode _ ih => rw [hcode.scan_cons, ih]; rfl
  | literal hliteral _ ih => rw [hliteral.scan_append, ih]; rfl
  | comment hcomment _ ih => rw [hcomment.scan_append, ih]; rfl

theorem sourceOf_eq (h : Lexes text lexemes) : sourceOf lexemes = text := by
  induction h with
  | nil => rfl
  | code _ _ ih => exact congrArg _ ih
  | literal _ _ ih => exact congrArg _ ih
  | comment _ _ ih => exact congrArg _ ih

/-- What comes behind some lexemes of a source is read on its own. -/
theorem exists_append (h : Lexes text (first ++ second)) :
    ∃ rest, text = sourceOf first ++ rest ∧ Lexes rest second := by
  induction first generalizing text with
  | nil => exact ⟨text, rfl, h⟩
  | cons lexeme first ih =>
    rw [List.cons_append] at h
    cases h with
    | code _ hrest =>
      obtain ⟨rest, rfl, hsecond⟩ := ih hrest
      exact ⟨rest, rfl, hsecond⟩
    | @literal text _ _ _ hrest =>
      obtain ⟨rest, rfl, hsecond⟩ := ih hrest
      exact ⟨rest, (List.append_assoc text _ rest).symm, hsecond⟩
    | @comment text _ _ _ hrest =>
      obtain ⟨rest, rfl, hsecond⟩ := ih hrest
      exact ⟨rest, (List.append_assoc text _ rest).symm, hsecond⟩

end Lexes

/-! ### Counting brackets -/

/-- The number of brackets that are open after a lexeme. -/
def Lexeme.depthAfter (depth : Nat) : Lexeme → Nat
  | .code c => Text.depthAfter depth (c, .code)
  | .literal _ => depth
  | .comment _ => depth

/-- The number of brackets that are open after some lexemes. -/
def depthFrom (depth : Nat) (lexemes : List Lexeme) : Nat :=
  lexemes.foldl Lexeme.depthAfter depth

/-- The number of bytes, from a depth on, before the lexeme with which the depth comes back to zero
for the first time. -/
def returnOffset? (depth : Nat) : List Lexeme → Option Nat
  | [] => none
  | lexeme :: lexemes =>
    if lexeme.depthAfter depth = 0 then some 0
    else (returnOffset? (lexeme.depthAfter depth) lexemes).map (byteLength lexeme.text + ·)

theorem depthFrom_append (depth : Nat) (first second : List Lexeme) :
    depthFrom depth (first ++ second) = depthFrom (depthFrom depth first) second :=
  List.foldl_append

theorem sourceOf_append (first second : List Lexeme) :
    sourceOf (first ++ second) = sourceOf first ++ sourceOf second :=
  List.flatMap_append

theorem offsetOf_append (first second : List Lexeme) :
    offsetOf (first ++ second) = offsetOf first + offsetOf second := by
  rw [offsetOf, sourceOf_append, byteLength_append]
  rfl

theorem offsetOf_cons (lexeme : Lexeme) (lexemes : List Lexeme) :
    offsetOf (lexeme :: lexemes) = byteLength lexeme.text + offsetOf lexemes :=
  byteLength_append lexeme.text (sourceOf lexemes)

/-- The bracket that closes the enclosing one, where further brackets are open, stands where the
depth comes back to zero. -/
theorem Lexes.closeScanned?_eq {text : List Char} {lexemes : List Lexeme} (h : Lexes text lexemes)
    (depth : Nat) :
    (closeScanned? depth (scan text)).map (byteLength ·.1) = returnOffset? (depth + 1) lexemes := by
  have hpart {kind : Kind} (hkind : kind ≠ .code) (part rest : List Char) {depth : Nat} :
      (closeScanned? depth (part.map (·, kind) ++ scan rest)).map (byteLength ·.1) =
        ((closeScanned? depth (scan rest)).map (byteLength ·.1)).map (byteLength part + ·) := by
    rw [closeScanned?_append_of_ne hkind, Option.map_map, Option.map_map]
    refine congrArg (Option.map · _) (funext fun found ↦ ?_)
    exact byteLength_append part found.1
  induction h generalizing depth with
  | nil => rfl
  | @code c rest lexemes hcode _ ih =>
    rw [hcode.scan_cons, returnOffset?]
    by_cases hcloses : isClosing c = true ∧ depth = 0
    · obtain ⟨hclosing, rfl⟩ := hcloses
      have hdepth : (Lexeme.code c).depthAfter 1 = 0 := depthAfter_closing hclosing 1
      rw [closeScanned?, if_pos ⟨rfl, hclosing, rfl⟩, if_pos hdepth]
      rfl
    · have hdepth : (Lexeme.code c).depthAfter (depth + 1) =
          Text.depthAfter depth (c, .code) + 1 := by
        simp only [Lexeme.depthAfter, Text.depthAfter]
        split_ifs with hopens hclosing
        · rfl
        · have hpos : depth ≠ 0 := fun hzero ↦ hcloses ⟨hclosing, hzero⟩
          omega
        · rfl
      rw [closeScanned?_cons_of_not (fun h ↦ hcloses h.2) rfl, hdepth, if_neg (Nat.succ_ne_zero _),
        ← ih, Option.map_map, Option.map_map]
      rfl
  | literal hliteral _ ih =>
    rw [hliteral.scan_append, hpart (by simp), ih]
    exact (if_neg (Nat.succ_ne_zero depth)).symm
  | comment hcomment _ ih =>
    rw [hcomment.scan_append, hpart (by simp), ih]
    exact (if_neg (Nat.succ_ne_zero depth)).symm

/-- The bracket that closes one which is read as code. -/
theorem Lexes.closingOffset?_eq {text : List Char} {first second : List Lexeme} {bracket : Char}
    (h : Lexes text (first ++ .code bracket :: second)) (hopens : isOpening bracket = true) :
    closingOffset? text (offsetOf first) =
      (returnOffset? 1 second).map (offsetOf first + 1 + ·) := by
  obtain ⟨rest, rfl, hrest⟩ := h.exists_append
  cases hrest with
  | code _ hrest =>
    rw [closingOffset?, offsetOf, splitBytes?_append, ← hrest.closeScanned?_eq, Option.map_map]
    simp only [hopens, if_true]
    rfl

/-- At the place of a lexeme the bytes are searched with no offset out of range and without a depth
below zero. -/
theorem Lexes.closingByte?_eq {text : List Char} {first second : List Lexeme}
    (h : Lexes text (first ++ second)) :
    closingByte? text (offsetOf first) = some (closingOffset? text (offsetOf first)) := by
  obtain ⟨rest, rfl, -⟩ := h.exists_append
  exact closingByte?_append (sourceOf first) rest

/-- Where the depth comes back to zero for the first time, said of the lexemes on the way. -/
theorem returnOffset?_eq_some_iff {depth offset : Nat} {lexemes : List Lexeme} (hdepth : depth ≠ 0) :
    returnOffset? depth lexemes = some offset ↔
      ∃ inner closing rest, lexemes = inner ++ closing :: rest ∧ offset = offsetOf inner ∧
        depthFrom depth (inner ++ [closing]) = 0 ∧
        ∀ part, part <+: inner → depthFrom depth part ≠ 0 := by
  induction lexemes generalizing depth offset with
  | nil => simp [returnOffset?]
  | cons lexeme lexemes ih =>
    rw [returnOffset?]
    by_cases hzero : lexeme.depthAfter depth = 0
    · rw [if_pos hzero, Option.some.injEq]
      constructor
      · rintro rfl
        refine ⟨[], lexeme, lexemes, rfl, rfl, hzero, fun part hpart ↦ ?_⟩
        rw [List.prefix_nil.mp hpart]
        exact hdepth
      · rintro ⟨inner, closing, rest, hsplit, rfl, -, hopen⟩
        cases inner with
        | nil => rfl
        | cons first inner =>
          obtain ⟨rfl, -⟩ := List.cons.inj hsplit
          exact absurd hzero (hopen [lexeme] ⟨inner, rfl⟩)
    · rw [if_neg hzero, Option.map_eq_some_iff]
      constructor
      · rintro ⟨offset, hreturns, rfl⟩
        obtain ⟨inner, closing, rest, rfl, rfl, hreturn, hopen⟩ := (ih hzero).mp hreturns
        refine ⟨lexeme :: inner, closing, rest, rfl, (offsetOf_cons lexeme inner).symm, hreturn,
          fun part hpart ↦ ?_⟩
        cases part with
        | nil => exact hdepth
        | cons other part =>
          obtain ⟨rfl, hrest⟩ := List.cons_prefix_cons.mp hpart
          exact hopen part hrest
      · rintro ⟨inner, closing, rest, hsplit, rfl, hreturn, hopen⟩
        cases inner with
        | nil =>
          obtain ⟨rfl, -⟩ := List.cons.inj hsplit
          exact absurd hreturn hzero
        | cons first inner =>
          obtain ⟨rfl, rfl⟩ := List.cons.inj hsplit
          refine ⟨offsetOf inner, (ih hzero).mpr ⟨inner, closing, rest, rfl, rfl, hreturn,
            fun part hpart ↦ ?_⟩, (offsetOf_cons lexeme inner).symm⟩
          exact hopen (lexeme :: part) (List.cons_prefix_cons.mpr ⟨rfl, hpart⟩)

/-- If the depth does not come back to zero, it is never zero. -/
theorem depthFrom_ne_zero_of_returnOffset?_eq_none {depth : Nat} {lexemes : List Lexeme}
    (hdepth : depth ≠ 0) (h : returnOffset? depth lexemes = none) {part : List Lexeme}
    (hpart : part <+: lexemes) : depthFrom depth part ≠ 0 := by
  induction lexemes generalizing depth part with
  | nil =>
    rw [List.prefix_nil.mp hpart]
    exact hdepth
  | cons lexeme lexemes ih =>
    rw [returnOffset?] at h
    by_cases hzero : lexeme.depthAfter depth = 0
    · rw [if_pos hzero] at h
      cases h
    · rw [if_neg hzero, Option.map_eq_none_iff] at h
      cases part with
      | nil => exact hdepth
      | cons other part =>
        obtain ⟨rfl, hrest⟩ := List.cons_prefix_cons.mp hpart
        exact ih hzero h hrest

end CalculatorCatalog.Text
