import CalculatorCatalog.Definition.Span
import CalculatorCatalog.Proofs.Text.Search

/-!
# How spans divide a text

A span opens where the constructor is called. `opening_eq_some_append` says what such an opening
reads: a text that ends in its only round bracket. `spansFrom_of_opening` is the step from
one span to the next, and `spansFrom_append_of_declines` passes over a text in which nothing opens.
What holds of all spans of a text is proved by induction on how the text is cut (`Cuts`).
-/

set_option autoImplicit false
set_option relaxedAutoImplicit false

namespace CalculatorCatalog.Definition

open CalculatorCatalog.Text

/-! ### Openings -/

section Opening

variable {constructor : List Char}

/-- A call of a constructor holds no character before its bracket that is neither white nor in the
name of the constructor. -/
theorem afterCall?_eq_some_append {c : Char} {text inside : List Char}
    (hwhite : isWhiteSpace c = false) (hconstructor : c ∉ constructor)
    (h : afterCall? constructor text = some inside) :
    ∃ read, text = read ++ '(' :: inside ∧ c ∉ read := by
  obtain ⟨gap, hgap, rfl⟩ := afterCall?_eq_some_iff.mp h
  refine ⟨constructor ++ gap, rfl, ?_⟩
  rw [List.mem_append, not_or]
  refine ⟨hconstructor, fun hmem ↦ ?_⟩
  have hgap := List.all_eq_true.mp hgap c hmem
  rw [hwhite] at hgap
  cases hgap

theorem afterConst?_eq_some_append {c : Char} {text rest : List Char}
    (hwhite : isWhiteSpace c = false) (hconst : c ∉ constWord)
    (h : afterConst? text = some rest) : ∃ read, text = read ++ rest ∧ c ∉ read := by
  obtain ⟨d, tail, hd, rfl, rfl⟩ := afterConst?_eq_some_iff.mp h
  refine ⟨constWord ++ d :: tail.takeWhile isWhiteSpace, ?_, ?_⟩
  · rw [List.append_assoc, List.cons_append, takeWhile_append_skipWhite]
  · have hgap := isBlank_takeWhile tail
    simp only [List.mem_append, List.mem_cons, not_or]
    refine ⟨hconst, ?_, fun hmem ↦ ?_⟩
    · rintro rfl
      rw [hwhite] at hd
      cases hd
    · have hgap := List.all_eq_true.mp hgap c hmem
      rw [hwhite] at hgap
      cases hgap

theorem afterConstructor?_eq_some_append {c : Char} {text inside : List Char}
    (hwhite : isWhiteSpace c = false) (hconst : c ∉ constWord) (hconstructor : c ∉ constructor)
    (h : afterConstructor? constructor text = some inside) :
    ∃ read, text = read ++ '(' :: inside ∧ c ∉ read := by
  rw [afterConstructor?, Option.orElse_eq_orElse, Option.orElse_eq_or, Option.or_eq_some_iff] at h
  rcases h with h | ⟨-, h⟩
  · obtain ⟨middle, hmarked, hcall⟩ := Option.bind_eq_some_iff.mp h
    obtain ⟨first, rfl, hfirst⟩ := afterConst?_eq_some_append hwhite hconst hmarked
    obtain ⟨second, rfl, hsecond⟩ := afterCall?_eq_some_append hwhite hconstructor hcall
    refine ⟨first ++ second, by rw [List.append_assoc], ?_⟩
    rw [List.mem_append, not_or]
    exact ⟨hfirst, hsecond⟩
  · exact afterCall?_eq_some_append hwhite hconstructor h

/-- An opening ends in a round bracket. What it reads before the bracket is white space, the marker
of a constant and the name of the constructor. -/
theorem opening_eq_some_append {c : Char} {before : Option Char} {text inside : List Char}
    (hwhite : isWhiteSpace c = false) (hconst : c ∉ constWord) (hconstructor : c ∉ constructor)
    (h : opening constructor before text = some ((), inside)) :
    ∃ read, text = read ++ '(' :: inside ∧ c ∉ read := by
  unfold opening at h
  split_ifs at h with hboundary
  obtain ⟨rest, hrest, heq⟩ := Option.map_eq_some_iff.mp h
  obtain rfl := (Prod.mk.inj heq).2
  exact afterConstructor?_eq_some_append hwhite hconst hconstructor hrest

/-- An opening reads no closing bracket. -/
theorem opening_eq_some {before : Option Char} {text inside : List Char}
    (hconstructor : ')' ∉ constructor) (h : opening constructor before text = some ((), inside)) :
    ∃ read, text = read ++ '(' :: inside ∧ ')' ∉ read :=
  opening_eq_some_append (by decide) (by decide) hconstructor h

/-- An opening that begins inside of what another one reads ends where that one ends. -/
theorem inside_eq_of_opening {before before' : Option Char} {front later inside inside' : List Char}
    (hconstructor : '(' ∉ constructor) (hlater : later ≠ [])
    (h : opening constructor before (front ++ later ++ inside) = some ((), inside))
    (h' : opening constructor before' (later ++ inside) = some ((), inside')) :
    inside' = inside := by
  obtain ⟨read, hread, hfree⟩ := opening_eq_some_append (by decide) (by decide) hconstructor h
  obtain ⟨read', hread', hfree'⟩ := opening_eq_some_append (by decide) (by decide) hconstructor h'
  have hfront : front ++ later = read ++ ['('] := by
    refine (List.append_left_inj inside).mp ?_
    rw [hread, List.append_assoc, List.singleton_append]
  obtain ⟨middle, c, rfl⟩ := (List.eq_nil_or_concat' later).resolve_left hlater
  rw [← List.append_assoc] at hfront
  obtain ⟨rfl, hc⟩ := List.append_inj' hfront rfl
  obtain rfl := List.head_eq_of_cons_eq hc
  have hmiddle : '(' ∉ middle := fun hmem ↦ hfree (List.mem_append_right front hmem)
  rw [List.append_assoc, List.singleton_append] at hread'
  obtain ⟨_ | ⟨d, between⟩, hname, hinside⟩ | ⟨_ | ⟨d, between⟩, hname, hinside⟩ :=
    List.append_eq_append_iff.mp hread'
  · exact (List.cons.inj hinside).2.symm
  · obtain ⟨rfl, -⟩ := List.cons.inj hinside
    simp [hname] at hfree'
  · exact (List.cons.inj hinside).2
  · obtain ⟨rfl, -⟩ := List.cons.inj hinside
    simp [hname] at hmiddle

/-- Nothing after a closing bracket has a part in an opening before it. -/
theorem opening_stopsAt (hconstructor : ')' ∉ constructor) :
    StopsAt (opening constructor) ')' where
  declines_nil before := by
    have hnone : afterConstructor? constructor [] = none := by
      cases constructor <;> rfl
    simp [opening, hnone]
  append before text rest := by
    have hconst : afterConst? (text ++ ')' :: rest) = (afterConst? text).map (· ++ ')' :: rest) :=
      afterConst?_append_barrier (by decide) (by decide) text rest
    have hcall (tail : List Char) : afterCall? constructor (tail ++ ')' :: rest) =
        (afterCall? constructor tail).map (· ++ ')' :: rest) :=
      afterCall?_append_barrier hconstructor (by decide) (by decide) tail rest
    have hconstructor : afterConstructor? constructor (text ++ ')' :: rest) =
        (afterConstructor? constructor text).map (· ++ ')' :: rest) := by
      rw [afterConstructor?, afterConstructor?, hconst, hcall]
      cases afterConst? text with
      | none => rfl
      | some tail =>
        simp only [Option.map_some, Option.bind_eq_bind, Option.bind_some, hcall]
        cases afterCall? constructor tail <;> rfl
    have hboundary : isWordBoundary before (text ++ ')' :: rest).head? =
        isWordBoundary before text.head? := by
      cases text with
      | nil => cases before <;> rfl
      | cons c text => rfl
    rw [opening, opening, hboundary, hconstructor]
    split_ifs
    · simp only [Option.map_map]
      rfl
    · rfl

end Opening

/-! ### From span to span -/

section Steps

variable {opens closes : Recognizer Unit} {before : Option Char} {offset : Nat}

/-- Characters that belong to an earlier span open none. -/
theorem spansFrom_append_skip (passed text : List Char) (skip : Nat) :
    spansFrom opens closes (passed.length + skip) before offset (passed ++ text) =
      spansFrom opens closes skip (lastOr before passed) (offset + byteLength passed) text := by
  induction passed generalizing before offset with
  | nil => simp
  | cons c passed ih =>
    have hlength : (c :: passed).length + skip = passed.length + skip + 1 := by
      rw [List.length_cons]
      omega
    rw [hlength, List.cons_append, spansFrom, ih, lastOr_cons, byteLength_cons, Nat.add_assoc]

theorem spansFrom_append_of_declines {passed rest : List Char}
    (hpassed : Declines opens before passed rest) :
    spansFrom opens closes 0 before offset (passed ++ rest) =
      spansFrom opens closes 0 (lastOr before passed) (offset + byteLength passed) rest := by
  induction passed generalizing before offset with
  | nil => simp
  | cons c passed ih =>
    obtain ⟨hhead, htail⟩ := hpassed
    rw [List.cons_append, spansFrom, hhead]
    simp only [ih htail, lastOr_cons, byteLength_cons, Nat.add_assoc]

/-- Where something opens, a span begins; the search goes on behind what the span takes. -/
theorem spansFrom_of_opening {read inside : List Char} (hread : read ≠ [])
    (h : opens before (read ++ inside) = some ((), inside)) :
    spansFrom opens closes 0 before offset (read ++ inside) =
      (closeSpan closes offset (offset + byteLength read) inside).1 ::
        spansFrom opens closes (closeSpan closes offset (offset + byteLength read) inside).2
          (lastOr before read) (offset + byteLength read) inside := by
  cases read with
  | nil => exact absurd rfl hread
  | cons c read =>
    have htaken : (c :: (read ++ inside)).take
        ((c :: (read ++ inside)).length - inside.length) = c :: read := by
      have hlength : (c :: (read ++ inside)).length - inside.length = (c :: read).length := by
        simp only [List.length_cons, List.length_append]
        omega
      rw [hlength, ← List.cons_append, List.take_left]
    have hskip : (read ++ inside).length - inside.length = read.length := by
      rw [List.length_append]
      omega
    rw [List.cons_append] at h ⊢
    rw [spansFrom, h]
    simp only [htaken, hskip]
    rw [spansFrom_append_skip, lastOr_cons, byteLength_cons, Nat.add_assoc]

/-- A span that closes goes up to the first closing place, and the search resumes right behind the
character there. -/
theorem spansFrom_of_closed {read passed rest : List Char} {c : Char} {found : Occurrence Unit}
    (hread : read ≠ []) (hpassed : found.passed = passed)
    (hopens : opens before (read ++ (passed ++ c :: rest)) = some ((), passed ++ c :: rest))
    (hcloses : first? closes none (passed ++ c :: rest) = some found) :
    spansFrom opens closes 0 before offset (read ++ (passed ++ c :: rest)) =
      .closed offset (offset + byteLength read) passed (c :: rest) ::
        spansFrom opens closes 0 (some c)
          (offset + byteLength read + byteLength (passed ++ [c])) rest := by
  have hclose : closeSpan closes offset (offset + byteLength read) (passed ++ c :: rest) =
      (.closed offset (offset + byteLength read) passed (c :: rest), passed.length + 1) := by
    simp only [closeSpan, hcloses, hpassed, List.drop_left]
  have hsplit : passed ++ c :: rest = (passed ++ [c]) ++ rest := by simp
  have hlength : passed.length + 1 = (passed ++ [c]).length + 0 := by simp
  rw [spansFrom_of_opening hread hopens, hclose]
  simp only [hsplit, hlength]
  rw [spansFrom_append_skip, lastOr_append, lastOr_cons, lastOr_nil]

end Steps

/-! ### The cutting of a text -/

/-- An opening reads something, and the text goes on where it ends. -/
def ReadsOn (opens : Recognizer Unit) : Prop :=
  ∀ before text inside, opens before text = some ((), inside) →
    ∃ read, read ≠ [] ∧ text = read ++ inside

/-- Spans close at a round bracket. -/
def ClosesAtBracket (closes : Recognizer Unit) : Prop :=
  ∀ before text rest, closes before text = some ((), rest) → ∃ tail, text = ')' :: tail

theorem opening_readsOn {constructor : List Char} (hconstructor : ')' ∉ constructor) :
    ReadsOn (opening constructor) := by
  intro before text inside h
  obtain ⟨read, rfl, -⟩ := opening_eq_some hconstructor h
  exact ⟨read ++ ['('], by simp, by simp⟩

/-- How a text is cut into spans, from left to right. A span without an end does not hide what is
inside it; one that closes ends at its bracket, and the cutting goes on behind that. -/
inductive Cuts (opens closes : Recognizer Unit) :
    Option Char → Nat → List Char → List Span → Prop where
  | nil (before : Option Char) (offset : Nat) : Cuts opens closes before offset [] []
  | pass {before : Option Char} {offset : Nat} {c : Char} {text : List Char} {found : List Span}
      (hopens : opens before (c :: text) = none)
      (hrest : Cuts opens closes (some c) (offset + c.utf8Size) text found) :
      Cuts opens closes before offset (c :: text) found
  | unterminated {before : Option Char} {offset : Nat} {read inside : List Char}
      {found : List Span} (hread : read ≠ [])
      (hopens : opens before (read ++ inside) = some ((), inside))
      (hcloses : first? closes none inside = none)
      (hrest : Cuts opens closes (lastOr before read) (offset + byteLength read) inside found) :
      Cuts opens closes before offset (read ++ inside) (.unterminated offset :: found)
  | closed {before : Option Char} {offset : Nat} {read inner tail rest : List Char}
      {found : List Span} (hread : read ≠ [])
      (hopens : opens before (read ++ (inner ++ ')' :: tail)) = some ((), inner ++ ')' :: tail))
      (hcloses : first? closes none (inner ++ ')' :: tail) = some ⟨inner, (), rest⟩)
      (hrest : Cuts opens closes (some ')')
        (offset + byteLength read + byteLength (inner ++ [')'])) tail found) :
      Cuts opens closes before offset (read ++ (inner ++ ')' :: tail))
        (.closed offset (offset + byteLength read) inner (')' :: tail) :: found)

/-- The spans of a text are cut in this way. -/
theorem cuts_spansFrom {opens closes : Recognizer Unit} (hreads : ReadsOn opens)
    (hbracket : ClosesAtBracket closes) (before : Option Char) (offset : Nat) (text : List Char) :
    Cuts opens closes before offset text (spansFrom opens closes 0 before offset text) := by
  induction hlength : text.length using Nat.strongRecOn generalizing before offset text with
  | ind length ih =>
    subst hlength
    cases text with
    | nil => exact .nil before offset
    | cons c text =>
      cases hopens : opens before (c :: text) with
      | none =>
        rw [spansFrom, hopens]
        exact .pass hopens (ih text.length (by simp) (some c) (offset + c.utf8Size) text rfl)
      | some result =>
        obtain ⟨⟨⟩, inside⟩ := result
        obtain ⟨read, hread, heq⟩ := hreads _ _ _ hopens
        have hshorter : inside.length < (c :: text).length := by
          have hpos := List.length_pos_iff.mpr hread
          rw [heq, List.length_append]
          omega
        rw [heq] at hopens ⊢
        cases hcloses : first? closes none inside with
        | none =>
          have hclose : closeSpan closes offset (offset + byteLength read) inside =
              (.unterminated offset, 0) := by
            simp only [closeSpan, hcloses]
          rw [spansFrom_of_opening hread hopens, hclose]
          exact .unterminated hread hopens hcloses (ih _ hshorter _ _ inside rfl)
        | some found =>
          obtain ⟨after, hpassed, hclosing⟩ := first?_eq_some hcloses
          obtain ⟨tail, rfl⟩ := hbracket _ _ _ hclosing
          have htail : tail.length < (c :: text).length := by
            rw [hpassed, List.length_append, List.length_cons] at hshorter
            omega
          rw [hpassed] at hopens hcloses ⊢
          rw [spansFrom_of_closed hread rfl hopens hcloses]
          exact .closed hread hopens hcloses (ih _ htail _ _ tail rfl)

end CalculatorCatalog.Definition
