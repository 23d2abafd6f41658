import CalculatorCatalog.Definition.Extraction
import CalculatorCatalog.Proofs.Definition.Spans

/-!
# What becomes of the declarations of a source

Every span of a source contributes one definition or one dropped definition
(`length_definitions_extract`). The calls of the constructor that stand outside comments are those
at which a span opens and those inside a span that closes (`foundOffsets_eq_flatMap_of_cuts`): a
span runs to the first place where a definition can close, and a call that it passes on the way is
not read a second time. Such a call is lost: it is in neither count, although the count of failures
is to cover every call that yields no definition. The counts account for all calls exactly when no
call opens before the place at which an earlier one can be closed
(`extract_accounts_for_openings`); a declaration in front of a list is enough to lose one
(`lost_declaration`).
-/

set_option autoImplicit false
set_option relaxedAutoImplicit false

namespace CalculatorCatalog.Definition

open CalculatorCatalog.Text

/-! ### Calls of the constructor -/

/-- The offsets at which the found pieces of a text begin, for a text that begins at `offset`. -/
def foundOffsets {α : Type} (offset : Nat) : List (Piece α) → List Nat
  | [] => []
  | .plain c :: rest => foundOffsets (offset + c.utf8Size) rest
  | .found matched _ :: rest => offset :: foundOffsets (offset + byteLength matched) rest

/-- The offsets of the calls of the constructor of definitions in a text that begins at `offset`,
from left to right and without overlaps. -/
def openingOffsets (offset : Nat) (text : List Char) : List Nat :=
  foundOffsets offset (pieces (opening definitionConstructor) text)

/-- Where a span opens. -/
def Span.offset : Span → Nat
  | .closed offset _ _ _ => offset
  | .unterminated offset => offset

/-- The calls of the constructor inside a span that closes. -/
def Span.enclosedOpenings : Span → List Nat
  | .closed _ innerOffset inner _ => openingOffsets innerOffset inner
  | .unterminated _ => []

/-- The spans of the definitions of a source, its comments hidden. -/
def definitionSpans (content : String) : List Span :=
  spans (opening definitionConstructor) definitionClosing 0 (blankComments content.toList)

theorem foundOffsets_append {α : Type} (offset : Nat) (first second : List (Piece α)) :
    foundOffsets offset (first ++ second) =
      foundOffsets offset first ++
        foundOffsets (offset + byteLength (first.flatMap Piece.source)) second := by
  induction first generalizing offset with
  | nil => simp [foundOffsets]
  | cons piece first ih =>
    cases piece with
    | plain c => simp [foundOffsets, ih, Piece.source, Nat.add_assoc]
    | found matched value => simp [foundOffsets, ih, Piece.source, Nat.add_assoc]

theorem opening_movesForward {constructor : List Char} (hconstructor : ')' ∉ constructor) :
    MovesForward (opening constructor) := by
  intro before text value rest h
  obtain ⟨read, rfl, -⟩ := opening_eq_some hconstructor h
  cases read with
  | nil => exact ⟨'(', [], rfl⟩
  | cons c read => exact ⟨c, read ++ ['('], by simp⟩

/-- Brackets divide a text into parts whose calls are read one part after the other. -/
theorem foundOffsets_append_bracket {constructor : List Char} (hconstructor : ')' ∉ constructor)
    (before : Option Char) (offset : Nat) (text rest : List Char) :
    foundOffsets offset (piecesFrom (opening constructor) 0 before (text ++ ')' :: rest)) =
      foundOffsets offset (piecesFrom (opening constructor) 0 before text) ++
        foundOffsets (offset + byteLength (text ++ [')']))
          (piecesFrom (opening constructor) 0 (some ')') rest) := by
  rw [piecesFrom_append_barrier (opening_stopsAt hconstructor) 0 before text rest (Nat.zero_le _),
    foundOffsets_append, flatMap_source_piecesFrom (opening_movesForward hconstructor),
    foundOffsets, List.drop_zero, byteLength_append, byteLength_cons, byteLength_nil, Nat.add_zero,
    Nat.add_assoc]

/-- Round brackets are no word characters: before a name they act as the beginning of a text. -/
theorem opening_after_bracket (constructor text : List Char) :
    opening constructor (some '(') text = opening constructor none text := by
  rw [opening, opening]
  rfl

/-- A definition closes at a closing bracket. -/
theorem definitionClosing_eq_some {before : Option Char} {text rest : List Char}
    (h : definitionClosing before text = some ((), rest)) : ∃ tail, text = ')' :: tail := by
  obtain ⟨after, hseparator, -⟩ := Option.bind_eq_some_iff.mp h
  obtain ⟨tail, hword, -⟩ := Option.bind_eq_some_iff.mp hseparator
  exact ⟨tail, afterWord?_eq_some_iff.mp hword⟩

/-! ### Spans and the calls they take in -/

theorem definitionClosing_closesAtBracket : ClosesAtBracket definitionClosing :=
  fun _ _ _ h ↦ definitionClosing_eq_some h

theorem cuts_definitionSpans (content : String) :
    Cuts (opening definitionConstructor) definitionClosing none 0 (blankComments content.toList)
      (definitionSpans content) :=
  cuts_spansFrom (opening_readsOn (by decide)) definitionClosing_closesAtBracket none 0 _

/-- What an opening reads ends in its bracket. -/
theorem lastOr_of_opening {constructor : List Char} (hconstructor : ')' ∉ constructor)
    {before : Option Char} {read inside : List Char}
    (h : opening constructor before (read ++ inside) = some ((), inside)) :
    lastOr before read = some '(' := by
  obtain ⟨name, heq, -⟩ := opening_eq_some hconstructor h
  have hread : read = name ++ ['('] := by
    refine (List.append_left_inj inside).mp ?_
    rw [heq, List.append_assoc, List.singleton_append]
  rw [hread, lastOr_append, lastOr_cons, lastOr_nil]

/-- The calls of the constructor in a text are those at which a span opens, each followed by those
inside it. -/
theorem foundOffsets_eq_flatMap_of_cuts {before : Option Char} {offset : Nat} {text : List Char}
    {found : List Span}
    (h : Cuts (opening definitionConstructor) definitionClosing before offset text found) :
    foundOffsets offset (piecesFrom (opening definitionConstructor) 0 before text) =
      found.flatMap fun span ↦ span.offset :: span.enclosedOpenings := by
  have hconstructor : ')' ∉ definitionConstructor := by decide
  induction h with
  | nil => rfl
  | pass hopens hrest ih =>
    rw [piecesFrom, hopens]
    exact ih
  | unterminated hread hopens hcloses hrest ih =>
    rw [piecesFrom_of_found hread hopens, foundOffsets, ih]
    rfl
  | @closed before offset read inner tail rest found hread hopens hcloses hrest ih =>
    rw [piecesFrom_of_found hread hopens, foundOffsets, lastOr_of_opening hconstructor hopens,
      foundOffsets_append_bracket hconstructor,
      piecesFrom_congr_before (opening_after_bracket definitionConstructor) inner, ih]
    rfl

/-! ### What spans contribute -/

/-- What a field that cannot be used leaves behind is a dropped field. -/
theorem kind_of_mem_failures_readFields {place : Nat → Excerpt} {innerOffset : Nat}
    {masked text : List Char} {dropped : Dropped}
    (h : dropped ∈ failures (readFields place innerOffset masked text)) :
    dropped.kind = .field := by
  obtain ⟨result, hresult, hdropped⟩ := List.mem_filterMap.mp h
  unfold readFields at hresult
  cases hregion : nestedRegion? "fields" '[' innerOffset masked text with
  | none => simp [hregion] at hresult
  | some region =>
    simp only [hregion] at hresult
    obtain ⟨span, -, rfl⟩ := List.mem_map.mp hresult
    cases span with
    | unterminated offset =>
      obtain rfl := Option.some.inj hdropped
      rfl
    | closed offset inner text following =>
      unfold fieldOfSpan at hdropped
      cases hfield : readField text with
      | ok field => simp [hfield, Except.mapError] at hdropped
      | error reason =>
        simp only [hfield, Except.mapError, Option.some.injEq] at hdropped
        rw [← hdropped]

theorem kind_of_mem_dropped_readDefinition {place : Nat → Excerpt} {offset innerOffset : Nat}
    {inner following : List Char} {dropped : Dropped}
    (h : dropped ∈ (readDefinition place offset innerOffset inner following).1) :
    dropped.kind = .field := by
  unfold readDefinition at h
  simp only at h
  split at h
  · simp at h
  · simp at h
  · exact kind_of_mem_failures_readFields h

/-- Every span contributes one definition or one dropped definition. -/
theorem length_definitions_extractSpan (place : Nat → Excerpt) (span : Span) :
    (extractSpan place span).definitions.length + (extractSpan place span).failureCount = 1 := by
  cases span with
  | unterminated offset => rfl
  | closed offset innerOffset inner following =>
    have hfields : ∀ dropped ∈ (readDefinition place offset innerOffset inner following).1,
        ¬ decide (dropped.kind = .definition) = true := by
      intro dropped hdropped
      simp [kind_of_mem_dropped_readDefinition hdropped]
    have hnone := List.countP_eq_zero.mpr hfields
    rw [extractSpan, Extraction.failureCount]
    cases hread : readDefinition place offset innerOffset inner following with
    | mk dropped result =>
      rw [hread] at hnone
      cases result with
      | ok definition => simp only [List.length_singleton, hnone]
      | error reason =>
        simp only [List.length_nil, List.countP_append, hnone]
        rfl

theorem extract_eq (file content : String) :
    extract file content =
      let found := (definitionSpans content).map
        (extractSpan (Source.excerptAt file content.toList))
      ⟨found.flatMap (·.definitions), found.flatMap (·.dropped)⟩ :=
  rfl

/-- The definitions and the dropped definitions of a source are as many as its spans. -/
theorem length_definitions_extract (file content : String) :
    (extract file content).definitions.length + (extract file content).failureCount =
      (definitionSpans content).length := by
  rw [extract_eq, Extraction.failureCount]
  generalize definitionSpans content = found
  induction found with
  | nil => rfl
  | cons span found ih =>
    have hspan := length_definitions_extractSpan (Source.excerptAt file content.toList) span
    rw [Extraction.failureCount] at hspan
    simp only [List.map_cons, List.flatMap_cons, List.length_append, List.countP_append,
      List.length_cons] at ih ⊢
    omega

/-! ### The account -/

/-- The calls of the constructor that stand outside comments. -/
def sourceOpenings (content : String) : List Nat :=
  openingOffsets 0 (blankComments content.toList)

/-- Every call of the constructor outside comments is read as a definition or counted as dropped. -/
def AccountsForCalls (file content : String) : Prop :=
  (extract file content).definitions.length + (extract file content).failureCount =
    (sourceOpenings content).length

instance (file content : String) : Decidable (AccountsForCalls file content) :=
  inferInstanceAs (Decidable (_ = _))

/-- The inside of a call that ends where it can first be closed has a further call in it. -/
def ClosesOverCall (inside : List Char) : Prop :=
  ∃ found, first? definitionClosing none inside = some found ∧
    (first? (opening definitionConstructor) none found.passed).isSome = true

/-- Somewhere in a text a call opens, and another one opens before the first place at which it can
close. -/
def HidesCall (before : Option Char) (text : List Char) : Prop :=
  ∃ front after inside, text = front ++ after ∧
    opening definitionConstructor (lastOr before front) after = some ((), inside) ∧
    ClosesOverCall inside

theorem openingOffsets_eq_nil_iff {offset : Nat} {text : List Char} :
    openingOffsets offset text = [] ↔ first? (opening definitionConstructor) none text = none := by
  unfold openingOffsets pieces
  constructor
  · intro h
    by_contra hsome
    obtain ⟨found, hfound⟩ := Option.ne_none_iff_exists'.mp hsome
    obtain ⟨after, rfl, hpassed, hopens⟩ := exists_of_first?_eq_some hfound
    obtain ⟨read, hread, rfl⟩ := opening_readsOn (by decide) _ _ _ hopens
    rw [piecesFrom_append_of_declines hpassed, piecesFrom_of_found hread hopens,
      foundOffsets_append, foundOffsets] at h
    simp at h
  · intro h
    have hplain := piecesFrom_append_of_declines (declines_of_first?_eq_none h)
    rw [List.append_nil] at hplain
    rw [hplain, foundOffsets_append]
    generalize text = passed
    induction passed generalizing offset with
    | nil => rfl
    | cons c passed ih => exact ih

section Hiding

variable {before : Option Char}

/-- A call that is hidden in the end of a text is hidden in the text. -/
theorem HidesCall.append_left (front : List Char) {text : List Char}
    (h : HidesCall (lastOr before front) text) : HidesCall before (front ++ text) := by
  obtain ⟨passed, after, inside, rfl, hopens, hcloses⟩ := h
  refine ⟨front ++ passed, after, inside, by rw [List.append_assoc], ?_, hcloses⟩
  rw [lastOr_append]
  exact hopens

/-- A character at which nothing opens hides no call. -/
theorem hidesCall_cons_iff {c : Char} {text : List Char}
    (hopens : opening definitionConstructor before (c :: text) = none) :
    HidesCall before (c :: text) ↔ HidesCall (some c) text := by
  constructor
  · rintro ⟨_ | ⟨d, front⟩, after, inside, heq, hafter, hcloses⟩
    · rw [List.nil_append] at heq
      rw [← heq, lastOr_nil, hopens] at hafter
      cases hafter
    · obtain ⟨rfl, rfl⟩ := List.cons.inj heq
      exact ⟨front, after, inside, rfl, hafter, hcloses⟩
  · exact HidesCall.append_left [c]

/-- A call hides another one, or the text behind its opening bracket does. -/
theorem hidesCall_append_iff {read inside : List Char}
    (hopens : opening definitionConstructor before (read ++ inside) = some ((), inside)) :
    HidesCall before (read ++ inside) ↔
      ClosesOverCall inside ∨ HidesCall (lastOr before read) inside := by
  constructor
  · rintro ⟨front, after, inside', heq, hafter, hcloses⟩
    obtain ⟨more, rfl, rfl⟩ | ⟨later, rfl, rfl⟩ := List.append_eq_append_iff.mp heq
    · rw [lastOr_append] at hafter
      exact Or.inr ⟨more, after, inside', rfl, hafter, hcloses⟩
    · by_cases hlater : later = []
      · subst hlater
        rw [List.append_nil]
        exact Or.inr ⟨[], inside, inside', rfl, hafter, hcloses⟩
      · rw [inside_eq_of_opening (by decide) hlater hopens hafter] at hcloses
        exact Or.inl hcloses
  · rintro (hcloses | h)
    · exact ⟨[], read ++ inside, inside, rfl, hopens, hcloses⟩
    · exact h.append_left read

/-- A call that opens in front of a closing bracket opens in the text up to there. -/
theorem isSome_first?_opening {front more inside tail : List Char}
    (hopens : opening definitionConstructor (lastOr (some '(') front) (more ++ ')' :: tail) =
      some ((), inside)) :
    (first? (opening definitionConstructor) none (front ++ more)).isSome = true := by
  have hstops : StopsAt (opening definitionConstructor) ')' := opening_stopsAt (by decide)
  rw [isSome_first?_iff hstops.declines_nil]
  refine ⟨front, more, rfl, ?_⟩
  rw [hstops.append] at hopens
  obtain ⟨result, hresult, -⟩ := Option.map_eq_some_iff.mp hopens
  have hbefore : opening definitionConstructor front.getLast? more = some result := by
    rw [← lastOr_none]
    cases front with
    | nil => rwa [lastOr_nil, opening_after_bracket] at hresult
    | cons c front => exact hresult
  rw [hbefore]
  rfl

/-- Behind the opening bracket of a call that closes, another call is hidden by this one or behind
the closing bracket. -/
theorem closesOverCall_or_hidesCall_iff {inner tail rest : List Char}
    (hcloses : first? definitionClosing none (inner ++ ')' :: tail) = some ⟨inner, (), rest⟩) :
    ClosesOverCall (inner ++ ')' :: tail) ∨ HidesCall (some '(') (inner ++ ')' :: tail) ↔
      (first? (opening definitionConstructor) none inner).isSome = true ∨
        HidesCall (some ')') tail := by
  have hover : ClosesOverCall (inner ++ ')' :: tail) ↔
      (first? (opening definitionConstructor) none inner).isSome = true := by
    constructor
    · rintro ⟨found, hfound, hcall⟩
      rw [hcloses] at hfound
      rwa [← Option.some.inj hfound] at hcall
    · exact fun hcall ↦ ⟨_, hcloses, hcall⟩
  rw [hover]
  constructor
  · rintro (hcall | ⟨front, after, inside, heq, hafter, hinside⟩)
    · exact Or.inl hcall
    obtain ⟨more, rfl, hmore⟩ | ⟨more, rfl, rfl⟩ := List.append_eq_append_iff.mp heq
    · cases more with
      | nil =>
        rw [List.append_nil] at hafter
        rw [List.nil_append] at hmore
        rw [← hmore, ← List.nil_append (')' :: tail)] at hafter
        have hcall := isSome_first?_opening hafter
        rw [List.append_nil] at hcall
        exact Or.inl hcall
      | cons c more =>
        obtain ⟨rfl, rfl⟩ := List.cons.inj hmore
        refine Or.inr ⟨more, after, inside, rfl, ?_, hinside⟩
        rwa [lastOr_append, lastOr_cons] at hafter
    · exact Or.inl (isSome_first?_opening hafter)
  · rintro (hcall | h)
    · exact Or.inl hcall
    · refine Or.inr (HidesCall.append_left inner (HidesCall.append_left [')'] ?_))
      exact h

end Hiding

/-- A span has a call inside exactly if the text hides one. -/
theorem exists_enclosedOpenings_iff {before : Option Char} {offset : Nat} {text : List Char}
    {found : List Span}
    (h : Cuts (opening definitionConstructor) definitionClosing before offset text found) :
    (∃ span ∈ found, span.enclosedOpenings ≠ []) ↔ HidesCall before text := by
  induction h with
  | nil before offset =>
    refine iff_of_false (by simp) ?_
    rintro ⟨front, after, inside, hempty, hopens, -⟩
    rw [(List.append_eq_nil_iff.mp hempty.symm).2,
      (opening_stopsAt (by decide)).declines_nil] at hopens
    cases hopens
  | pass hopens hrest ih => rw [hidesCall_cons_iff hopens, ih]
  | @unterminated before offset read inside found hread hopens hcloses hrest ih =>
    have hover : ¬ ClosesOverCall inside := by
      rintro ⟨found, hfound, -⟩
      rw [hcloses] at hfound
      cases hfound
    rw [hidesCall_append_iff hopens, or_iff_right hover, ← ih]
    simp [Span.enclosedOpenings]
  | @closed before offset read inner tail rest found hread hopens hcloses hrest ih =>
    rw [hidesCall_append_iff hopens, lastOr_of_opening (by decide) hopens,
      closesOverCall_or_hidesCall_iff hcloses, ← ih, Option.isSome_iff_ne_none]
    simp only [List.mem_cons, exists_eq_or_imp, Span.enclosedOpenings, ne_eq,
      openingOffsets_eq_nil_iff]

/-- The definitions that are read and the definitions that are dropped make up the spans of a
source. The calls of the constructor outside comments are, from left to right, those at which a span
opens and those inside a span that closes. The latter are in neither count: the counts account for
every call exactly when none opens before the place at which an earlier one is closed. -/
theorem extract_accounts_for_openings (file content : String) :
    (extract file content).definitions.length + (extract file content).failureCount =
        (definitionSpans content).length ∧
      sourceOpenings content =
        (definitionSpans content).flatMap (fun span ↦ span.offset :: span.enclosedOpenings) ∧
      (AccountsForCalls file content ↔ ¬ HidesCall none (blankComments content.toList)) := by
  have hcount := length_definitions_extract file content
  have hopenings : sourceOpenings content =
      (definitionSpans content).flatMap (fun span ↦ span.offset :: span.enclosedOpenings) :=
    foundOffsets_eq_flatMap_of_cuts (cuts_definitionSpans content)
  refine ⟨hcount, hopenings, ?_⟩
  rw [← exists_enclosedOpenings_iff (cuts_definitionSpans content), AccountsForCalls, hcount,
    hopenings]
  push Not
  generalize definitionSpans content = found
  induction found with
  | nil => simp
  | cons span found ih =>
    have hle (rest : List Span) : rest.length ≤
        (rest.flatMap fun span ↦ span.offset :: span.enclosedOpenings).length := by
      induction rest with
      | nil => simp
      | cons span rest ih =>
        simp only [List.flatMap_cons, List.length_append, List.length_cons]
        omega
    have htail := hle found
    rw [List.flatMap_cons, List.length_append, List.length_cons, List.length_cons,
      List.forall_mem_cons, ← ih, ← List.length_eq_zero_iff]
    omega

/-- A single declaration that is followed by a list loses the declaration in the list: the first
call has no sibling behind it, so it runs on to the end of the list, and the call that it passes on
the way is neither read nor counted as dropped. -/
theorem lost_declaration :
    ¬ AccountsForCalls "m.dart" "final a = CalculatorDefinition(id: 'a', titleKey: 't.a');
final b = [CalculatorDefinition(id: 'b', titleKey: 't.b')];" := by
  decide +kernel

end CalculatorCatalog.Definition
