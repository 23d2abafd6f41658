import CalculatorCatalog.Proofs.Definition.Accounting
import CalculatorCatalog.Proofs.Text.Blanking

/-!
# Comments and extraction

The extraction reads a source with its comments hidden. Of the source itself it uses places alone,
and these it only passes on (`onLines_extractSpan`): what is put at a place does not decide what is
read. Hiding comments keeps the number of the line at every byte (`lineNumber_blankComments`), and
there is nothing to hide a second time. So the columns apart, the extraction says the same of a
source and of the source with its comments hidden, and of any two sources that agree outside their
comments (`extract_ignores_comments`).
-/

set_option autoImplicit false
set_option relaxedAutoImplicit false

namespace CalculatorCatalog

open CalculatorCatalog.Text

/-! ### Places without their columns -/

/-- A place without its column. -/
def Location.onLine (location : Location) : Location :=
  { location with column := 0 }

/-- A place without its column and without the text that is shown of its line. -/
def Excerpt.onLine (excerpt : Excerpt) : Excerpt :=
  ⟨excerpt.location.onLine, ""⟩

/-- A definition without the column at which it begins. -/
def Definition.onLine (definition : Definition) : Definition :=
  { definition with location := definition.location.onLine }

/-- What was dropped, of which kind, for what reason and on which line. -/
def Dropped.onLine (dropped : Dropped) : Dropped :=
  { dropped with excerpt := dropped.excerpt.onLine }

/-- What an extraction says, the columns and the shown lines apart. -/
def Extraction.onLines (extraction : Extraction) : Extraction :=
  ⟨extraction.definitions.map Definition.onLine, extraction.dropped.map Dropped.onLine⟩

namespace Text

/-! ### Lines of the hidden text -/

/-- Spaces take up bytes and hold no line break. -/
theorem count_takeBytes_spaces (count offset : Nat) (text : List Char) :
    (takeBytes offset (List.replicate count ' ' ++ text)).count '\n' =
      (takeBytes (offset - count) text).count '\n' := by
  induction count generalizing offset with
  | zero => rfl
  | succ count ih =>
    cases offset with
    | zero => rw [Nat.zero_sub, takeBytes_zero, takeBytes_zero]
    | succ offset =>
      have hspace : offset + 1 - (' ').utf8Size = offset := rfl
      rw [List.replicate_succ, List.cons_append, takeBytes, hspace,
        List.count_cons_of_ne (by decide), ih, Nat.add_sub_add_right]

/-- Before any byte there are as many line breaks as before. -/
theorem count_takeBytes_withoutComment (items : List (Char × Kind)) (offset : Nat) :
    (takeBytes offset (items.flatMap withoutComment)).count '\n' =
      (takeBytes offset (items.map (·.1))).count '\n' := by
  induction items generalizing offset with
  | nil => rfl
  | cons item items ih =>
    obtain ⟨c, kind⟩ := item
    rw [List.flatMap_cons, List.map_cons]
    cases offset with
    | zero => rw [takeBytes_zero, takeBytes_zero]
    | succ offset =>
      by_cases hkept : withoutComment (c, kind) = [c]
      · rw [hkept, List.singleton_append, takeBytes, takeBytes, List.count_cons, List.count_cons,
          ih]
      · -- A character that does not stay is one of a comment, and no line break.
        have hkind : kind = .comment := by
          by_contra hkind
          exact hkept (withoutComment_of_ne_comment hkind c)
        subst hkind
        have hc : c ≠ '\n' := by
          rintro rfl
          exact hkept rfl
        rw [withoutComment_comment hc, count_takeBytes_spaces, ih, takeBytes,
          List.count_cons_of_ne hc]

/-- Hiding comments keeps the number of the line at every byte. -/
theorem lineNumber_blankComments (text : List Char) (offset : Nat) :
    Source.lineNumber (blankComments text) offset = Source.lineNumber text offset := by
  have hchars : (scan text).map (·.1) = text := map_fst_scanFrom .code text
  rw [Source.lineNumber, Source.lineNumber, blankComments, count_takeBytes_withoutComment, hchars]

/-! ### Sources that agree outside their comments -/

/-- Whether the byte at an offset lies in a comment. -/
def liesInComment (lexemes : List Lexeme) (offset : Nat) : Bool :=
  match lexemeAt? lexemes offset with
  | some (.comment _) => true
  | _ => false

/-- Two sources of the same length, with comments and line breaks at the same bytes, agree at every
byte outside comments. -/
structure AgreeOutsideComments (lexemes lexemes' : List Lexeme) (source source' : List UInt8) :
    Prop where
  length_eq : source'.length = source.length
  liesInComment_eq : ∀ offset < source.length,
    liesInComment lexemes' offset = liesInComment lexemes offset
  lineBreak_iff : ∀ offset < source.length,
    source'[offset]? = some '\n'.toUInt8 ↔ source[offset]? = some '\n'.toUInt8
  outside : ∀ offset < source.length, liesInComment lexemes offset = false →
    source'[offset]? = source[offset]?

theorem byteWithoutComment_eq (lexemes : List Lexeme) (offset : Nat) :
    byteWithoutComment (lexemeAt? lexemes offset) =
      if liesInComment lexemes offset then blankByte else id := by
  rw [liesInComment]
  cases lexemeAt? lexemes offset with
  | none => rfl
  | some lexeme => cases lexeme <;> rfl

/-- Hidden, sources that agree outside their comments are the same. -/
theorem AgreeOutsideComments.blankComments_eq {text text' : List Char}
    {lexemes lexemes' : List Lexeme} (hlexes : Lexes text lexemes) (hlexes' : Lexes text' lexemes')
    (h : AgreeOutsideComments lexemes lexemes' (encode text) (encode text')) :
    blankComments text' = blankComments text := by
  have hbyte {text : List Char} {lexemes : List Lexeme} (hlexes : Lexes text lexemes)
      (offset : Nat) : (encode (blankComments text))[offset]? = (encode text)[offset]?.map
        (if liesInComment lexemes offset then blankByte else id) := by
    rw [hlexes.blankComments_eq, getElem?_encode_withoutComments, hlexes.sourceOf_eq,
      byteWithoutComment_eq]
  refine encode_injective (List.ext_getElem? fun offset ↦ ?_)
  rw [hbyte hlexes, hbyte hlexes']
  by_cases hoffset : offset < (encode text).length
  · rw [h.liesInComment_eq offset hoffset]
    cases hcomment : liesInComment lexemes offset with
    | false => rw [h.outside offset hoffset hcomment]
    | true =>
      have hoffset' : offset < (encode text').length := by rwa [h.length_eq]
      have hbreak := h.lineBreak_iff offset hoffset
      rw [List.getElem?_eq_getElem hoffset, List.getElem?_eq_getElem hoffset', Option.some.injEq,
        Option.some.injEq] at hbreak
      rw [List.getElem?_eq_getElem hoffset, List.getElem?_eq_getElem hoffset', if_pos rfl,
        Option.map_some, Option.map_some, blankByte, blankByte]
      by_cases hline : (encode text)[offset] = '\n'.toUInt8
      · rw [if_pos hline, if_pos (hbreak.mpr hline), hline, hbreak.mpr hline]
      · rw [if_neg hline, if_neg (mt hbreak.mp hline)]
  · have hle := Nat.le_of_not_lt hoffset
    rw [List.getElem?_eq_none hle, List.getElem?_eq_none (h.length_eq ▸ hle)]
    rfl

end Text

namespace Definition

/-! ### Places are passed on -/

section Places

variable {place : Nat → Excerpt}

theorem successes_map_mapError {ε ε' α : Type} (replace : ε → ε') (results : List (Except ε α)) :
    successes (results.map (·.mapError replace)) = successes results := by
  rw [successes, successes, List.filterMap_map]
  exact List.filterMap_congr fun result _ ↦ by cases result <;> rfl

theorem failures_map_mapError {ε ε' α : Type} (replace : ε → ε') (results : List (Except ε α)) :
    failures (results.map (·.mapError replace)) = (failures results).map replace := by
  rw [failures, failures, List.filterMap_map, List.map_filterMap]
  exact List.filterMap_congr fun result _ ↦ by cases result <;> rfl

theorem fieldOfSpan_onLine (span : Span) :
    fieldOfSpan (fun offset ↦ (place offset).onLine) span =
      (fieldOfSpan place span).mapError Dropped.onLine := by
  cases span with
  | unterminated offset => rfl
  | closed offset innerOffset inner following =>
    rw [fieldOfSpan, fieldOfSpan]
    cases readField inner <;> rfl

theorem readFields_onLine (innerOffset : Nat) (masked text : List Char) :
    readFields (fun offset ↦ (place offset).onLine) innerOffset masked text =
      (readFields place innerOffset masked text).map (·.mapError Dropped.onLine) := by
  rw [readFields, readFields]
  cases nestedRegion? "fields" '[' innerOffset masked text with
  | none => rfl
  | some found =>
    rw [List.map_map]
    exact List.map_congr_left fun span _ ↦ fieldOfSpan_onLine span

/-- What is read from a span depends on the places only in that it carries them. -/
theorem onLines_extractSpan (span : Span) :
    (extractSpan place span).onLines =
      extractSpan (fun offset ↦ (place offset).onLine) span := by
  cases span with
  | unterminated offset => rfl
  | closed offset innerOffset inner following =>
    rw [extractSpan, extractSpan, readDefinition, readDefinition]
    cases firstValue? (stringAttribute "id") (maskNested inner) with
    | none => rfl
    | some id =>
      cases firstValue? (stringAttribute "titleKey") (maskNested inner) with
      | none => rfl
      | some titleKey =>
        simp only [readFields_onLine, successes_map_mapError, failures_map_mapError]
        rfl

end Places

theorem onLines_extract (file content : String) :
    (extract file content).onLines =
      let found := (definitionSpans content).map
        (extractSpan fun offset ↦ (Source.excerptAt file content.toList offset).onLine)
      ⟨found.flatMap (·.definitions), found.flatMap (·.dropped)⟩ := by
  rw [extract_eq, Extraction.onLines]
  simp only [List.map_flatMap, List.flatMap_map, ← onLines_extractSpan]
  rfl

/-- Without its column, a place can be told from the text with comments hidden. -/
theorem onLine_excerptAt (file : String) (text : List Char) (offset : Nat) :
    (Source.excerptAt file text offset).onLine =
      ⟨⟨file, Source.lineNumber (blankComments text) offset, 0⟩, ""⟩ := by
  rw [lineNumber_blankComments]
  rfl

/-- What an extraction says, the columns apart, depends on the text with comments hidden. -/
theorem onLines_extract_congr (file : String) {content content' : String}
    (h : blankComments content'.toList = blankComments content.toList) :
    (extract file content').onLines = (extract file content).onLines := by
  rw [onLines_extract, onLines_extract, definitionSpans, definitionSpans]
  simp only [onLine_excerptAt, h]

/-- Comments do not matter to the extraction. Of a source with its comments hidden it says what it
says of the source: the same definitions in the same order, with all their attributes, fields,
result labels and lines, and the same records of what was dropped, of the same kind, for the same
reason and on the same line; only columns may differ. So it says the same of any two sources that
agree outside their comments. -/
theorem extract_ignores_comments (file content : String) :
    (extract file (String.ofList (blankComments content.toList))).onLines =
        (extract file content).onLines ∧
      ∀ content' lexemes lexemes', Lexes content.toList lexemes → Lexes content'.toList lexemes' →
        AgreeOutsideComments lexemes lexemes' (encode content.toList) (encode content'.toList) →
        (extract file content').onLines = (extract file content).onLines := by
  refine ⟨onLines_extract_congr file ?_, fun content' lexemes lexemes' hlexes hlexes' h ↦
    onLines_extract_congr file (h.blankComments_eq hlexes hlexes')⟩
  obtain ⟨lexemes, hlexes⟩ := exists_lexes content.toList
  rw [String.toList_ofList, hlexes.blankComments_twice]

/-- A call behind a comment. -/
def callText (comment : List Char) : List Char :=
  comment ++ ("[CalculatorDefinition(id: ".toList ++ ("'a'".toList ++ (", titleKey: ".toList ++
    ("'t'".toList ++ (")];".toList ++ [])))))

/-- The lexemes of a call behind a comment. -/
def callLexemes (comment : List Char) : List Lexeme :=
  .comment comment :: ("[CalculatorDefinition(id: ".toList.map .code ++
    .literal "'a'".toList :: (", titleKey: ".toList.map .code ++
      .literal "'t'".toList :: (")];".toList.map .code ++ [])))

theorem lexes_call {content : List Char} (h : ¬blockEnd <:+: content ++ ['*']) :
    Lexes (callText ('/' :: '*' :: (content ++ blockEnd)))
      (callLexemes ('/' :: '*' :: (content ++ blockEnd))) := by
  have hcode {text : List Char} (hall : text.all (fun c ↦ !isQuote c && c != '/') = true) :
      ∀ c ∈ text, isQuote c = false ∧ c ≠ '/' := by simpa using hall
  have hid (rest : List Char) : IsLiteral "'a'".toList rest :=
    .closed rfl (.char (by decide) (by decide) (by decide) .nil) _
  have htitle (rest : List Char) : IsLiteral "'t'".toList rest :=
    .closed rfl (.char (by decide) (by decide) (by decide) .nil) _
  exact .comment (.block h _) (.code_append (hcode (by decide)) (.literal (hid _)
    (.code_append (hcode (by decide)) (.literal (htitle _)
      (.code_append (hcode (by decide)) .nil)))))

/-- The comment before a definition gives way to one with as many bytes and more characters, and so
the definition begins at another column. -/
theorem extract_ignores_comments_call :
    (extract "m.dart" "/*ab*/[CalculatorDefinition(id: 'a', titleKey: 't')];").onLines =
        (extract "m.dart" "/*ж*/[CalculatorDefinition(id: 'a', titleKey: 't')];").onLines := by
  have hfirst : "/*ж*/[CalculatorDefinition(id: 'a', titleKey: 't')];".toList =
      callText ('/' :: '*' :: (['ж'] ++ blockEnd)) := by decide +kernel
  have hsecond : "/*ab*/[CalculatorDefinition(id: 'a', titleKey: 't')];".toList =
      callText ('/' :: '*' :: (['a', 'b'] ++ blockEnd)) := by decide +kernel
  refine (extract_ignores_comments "m.dart" _).2 _ _ _ (hfirst ▸ lexes_call (by decide))
    (hsecond ▸ lexes_call (by decide)) ?_
  constructor <;> decide +kernel

end Definition

end CalculatorCatalog
