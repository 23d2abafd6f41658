import CalculatorCatalog.Proofs.Definition.Accounting
import CalculatorCatalog.Proofs.Definition.Lists

/-!
# Where spans lie

Spans lie inside the text from which they are cut, one behind the other (`Cuts.bounds`,
`Cuts.pairwise`). A list of fields is cut as well, and there more is known about the end: behind the
last field, if it has an end, only white space and commas follow (`exists_filler_of_getLast?`).
-/

set_option autoImplicit false
set_option relaxedAutoImplicit false

namespace CalculatorCatalog.Definition

open CalculatorCatalog.Text

/-! ### Where spans end -/

/-- The offset right after what is read of a span: its bracket, or the first character of its
opening if it has no end. -/
def Span.stop : Span → Nat
  | .closed _ innerOffset inner _ => innerOffset + byteLength inner + 1
  | .unterminated offset => offset + 1

section Cuts

variable {opens closes : Recognizer Unit} {before : Option Char} {offset : Nat} {text : List Char}
  {found : List Span}

/-- Spans lie inside the text from which they are cut. -/
theorem Cuts.bounds (h : Cuts opens closes before offset text found) :
    ∀ span ∈ found, offset ≤ span.offset ∧ span.offset < span.stop ∧
      span.stop ≤ offset + byteLength text := by
  induction h with
  | nil => simp
  | pass hopens hrest ih =>
    intro span hspan
    obtain ⟨hstart, hlength, hstop⟩ := ih span hspan
    rw [byteLength_cons]
    omega
  | @unterminated before offset read inside found hread hopens hcloses hrest ih =>
    have hpos : 0 < byteLength read :=
      Nat.pos_of_ne_zero fun hzero ↦ hread (byteLength_eq_zero.mp hzero)
    rw [byteLength_append, List.forall_mem_cons]
    refine ⟨⟨Nat.le_refl _, Nat.lt_succ_self _, ?_⟩, fun span hspan ↦ ?_⟩
    · rw [Span.stop]
      omega
    · obtain ⟨hstart, hlength, hstop⟩ := ih span hspan
      omega
  | @closed before offset read inner tail rest found hread hopens hcloses hrest ih =>
    have hbracket : (')').utf8Size = 1 := rfl
    simp only [byteLength_append, byteLength_cons, byteLength_nil, hbracket] at ih ⊢
    rw [List.forall_mem_cons]
    refine ⟨?_, fun span hspan ↦ ?_⟩
    · simp only [Span.offset, Span.stop]
      omega
    · obtain ⟨hstart, hlength, hstop⟩ := ih span hspan
      omega

/-- Spans do not overlap. -/
theorem Cuts.pairwise (h : Cuts opens closes before offset text found) :
    found.Pairwise fun span later ↦ span.stop ≤ later.offset := by
  induction h with
  | nil => exact .nil
  | pass hopens hrest ih => exact ih
  | @unterminated before offset read inside found hread hopens hcloses hrest ih =>
    have hpos : 0 < byteLength read :=
      Nat.pos_of_ne_zero fun hzero ↦ hread (byteLength_eq_zero.mp hzero)
    refine List.pairwise_cons.mpr ⟨fun later hlater ↦ ?_, ih⟩
    have hstart := (hrest.bounds later hlater).1
    rw [Span.stop]
    omega
  | @closed before offset read inner tail rest found hread hopens hcloses hrest ih =>
    refine List.pairwise_cons.mpr ⟨fun later hlater ↦ ?_, ih⟩
    have hstart := (hrest.bounds later hlater).1
    have hbracket : (')').utf8Size = 1 := rfl
    simp only [byteLength_append, byteLength_cons, byteLength_nil, hbracket] at hstart
    rw [Span.stop]
    omega

/-- Something opens where a span begins. -/
theorem Cuts.exists_opening (h : Cuts opens closes before offset text found) :
    ∀ span ∈ found, ∃ earlier rest, text = earlier ++ rest ∧
      span.offset = offset + byteLength earlier ∧
      ∃ before result, opens before rest = some result := by
  induction h with
  | nil => simp
  | @pass before offset c text found hopens hrest ih =>
    intro span hspan
    obtain ⟨earlier, rest, rfl, hoffset, hresult⟩ := ih span hspan
    refine ⟨c :: earlier, rest, rfl, ?_, hresult⟩
    rw [hoffset, byteLength_cons, Nat.add_assoc]
  | @unterminated before offset read inside found hread hopens hcloses hrest ih =>
    refine List.forall_mem_cons.mpr ⟨⟨[], _, rfl, rfl, _, _, hopens⟩, fun span hspan ↦ ?_⟩
    obtain ⟨earlier, rest, rfl, hoffset, hresult⟩ := ih span hspan
    refine ⟨read ++ earlier, rest, by rw [List.append_assoc], ?_, hresult⟩
    rw [hoffset, byteLength_append, Nat.add_assoc]
  | @closed before offset read inner tail rest found hread hopens hcloses hrest ih =>
    refine List.forall_mem_cons.mpr ⟨⟨[], _, rfl, rfl, _, _, hopens⟩, fun span hspan ↦ ?_⟩
    obtain ⟨earlier, rest, rfl, hoffset, hresult⟩ := ih span hspan
    refine ⟨read ++ (inner ++ [')']) ++ earlier, rest, by simp, ?_, hresult⟩
    rw [hoffset, byteLength_append _ earlier, byteLength_append read]
    omega

/-- What is inside a span that closes, and what follows it, is a part of the text. -/
theorem Cuts.exists_inner (h : Cuts opens closes before offset text found) {start innerOffset : Nat}
    {inner following : List Char} (hspan : .closed start innerOffset inner following ∈ found) :
    ∃ earlier, text = earlier ++ (inner ++ following) ∧
      innerOffset = offset + byteLength earlier ∧ start ≤ innerOffset := by
  induction h with
  | nil => cases hspan
  | @pass before offset c text found hopens hrest ih =>
    obtain ⟨earlier, rfl, hoffset, hstart⟩ := ih hspan
    exact ⟨c :: earlier, rfl, by rw [hoffset, byteLength_cons, Nat.add_assoc], hstart⟩
  | @unterminated before offset read inside found hread hopens hcloses hrest ih =>
    rcases List.mem_cons.mp hspan with heq | hlater
    · cases heq
    · obtain ⟨earlier, rfl, hoffset, hstart⟩ := ih hlater
      exact ⟨read ++ earlier, by rw [List.append_assoc],
        by rw [hoffset, byteLength_append, Nat.add_assoc], hstart⟩
  | @closed before offset read inside tail rest found hread hopens hcloses hrest ih =>
    rcases List.mem_cons.mp hspan with heq | hlater
    · cases heq
      exact ⟨read, rfl, rfl, Nat.le_add_right start (byteLength read)⟩
    · obtain ⟨earlier, rfl, hoffset, hstart⟩ := ih hlater
      refine ⟨read ++ (inside ++ [')']) ++ earlier, by simp, ?_, hstart⟩
      rw [hoffset, byteLength_append _ earlier, byteLength_append read]
      omega

/-- If nothing is cut out of a text, nothing opens in it. -/
theorem Cuts.eq_none (h : Cuts opens closes before offset text found) (hfound : found = [])
    {passed rest : List Char} (htext : text = passed ++ rest) (hrest : rest ≠ []) :
    opens (lastOr before passed) rest = none := by
  induction h generalizing passed with
  | nil => exact absurd (List.append_eq_nil_iff.mp htext.symm).2 hrest
  | unterminated => cases hfound
  | closed => cases hfound
  | pass hopens hlater ih =>
    cases passed with
    | nil =>
      rw [List.nil_append] at htext
      rwa [lastOr_nil, ← htext]
    | cons d passed =>
      obtain ⟨rfl, htail⟩ := List.cons.inj htext
      exact ih hfound htail

end Cuts

/-! ### Behind the last field -/

/-- What may stand between fields. -/
def isFiller (c : Char) : Bool :=
  isWhiteSpace c || c == ','

theorem isWordCharacter_of_isFiller {c : Char} (h : isFiller c = true) :
    isWordCharacter c = false := by
  rw [isFiller, Bool.or_eq_true, beq_iff_eq] at h
  rcases h with hwhite | rfl
  · exact isWordCharacter_of_isWhiteSpace hwhite
  · decide

theorem isFiller_of_isBlank {gap : List Char} (h : isBlank gap = true) :
    gap.all isFiller = true := by
  rw [isBlank, List.all_eq_true] at h
  rw [List.all_eq_true]
  intro c hc
  rw [isFiller, h c hc, Bool.true_or]

/-- A separator is a closing bracket and then filling. -/
theorem afterSeparator?_eq_some {text after : List Char} (h : afterSeparator? text = some after) :
    ∃ gap, text = ')' :: (gap ++ after) ∧ gap.all isFiller = true := by
  obtain ⟨tail, hword, heq⟩ := Option.bind_eq_some_iff.mp h
  obtain rfl : text = ')' :: tail := afterWord?_eq_some_iff.mp hword
  have hgap := isFiller_of_isBlank (isBlank_takeWhile tail)
  have hsplit := takeWhile_append_skipWhite tail
  have heq := Option.some.inj heq
  split at heq
  · rename_i rest hcomma
    refine ⟨tail.takeWhile isWhiteSpace ++ ',' :: rest.takeWhile isWhiteSpace, ?_, ?_⟩
    · rw [← heq, List.append_assoc, List.cons_append, takeWhile_append_skipWhite, ← hcomma, hsplit]
    · rw [List.all_append, List.all_cons, hgap, isFiller_of_isBlank (isBlank_takeWhile rest)]
      rfl
  · refine ⟨tail.takeWhile isWhiteSpace, ?_, hgap⟩
    rw [← heq, hsplit]

theorem isWordAt_lastOr_filler {before : Option Char} {gap : List Char}
    (hgap : gap.all isFiller = true) (hbefore : isWordAt before = false) :
    isWordAt (lastOr before gap) = false := by
  induction gap generalizing before with
  | nil => exact hbefore
  | cons c gap ih =>
    rw [List.all_cons, Bool.and_eq_true] at hgap
    exact ih hgap.2 (isWordCharacter_of_isFiller hgap.1)

theorem opening_of_afterConstructor? {constructor : List Char} {before : Option Char}
    {text inside : List Char} (hconstructor : IsConstructor constructor)
    (hbefore : isWordAt before = false) (h : afterConstructor? constructor text = some inside) :
    opening constructor before text = some ((), inside) := by
  have hword : isWordAt text.head? = true := by
    by_contra hnot
    rw [afterConstructor?_of_not_word hconstructor (Bool.eq_false_iff.mpr hnot)] at h
    cases h
  have hboundary : isWordBoundary before text.head? = true := by
    rw [isWordBoundary, hbefore, hword]
    rfl
  rw [opening, if_pos hboundary, h, Option.map_some]

/-- Where a field closes and no other opens behind it, only filling follows. -/
theorem isFiller_of_fieldClosing {before : Option Char} {offset : Nat} {tail rest : List Char}
    (htail : Cuts (opening fieldConstructor) fieldClosing (some ')') offset tail [])
    (hcloses : fieldClosing before (')' :: tail) = some ((), rest)) : tail.all isFiller = true := by
  rw [readsEnd_fieldClosing] at hcloses
  obtain ⟨after, hseparator, hend⟩ := Option.bind_eq_some_iff.mp hcloses
  obtain ⟨gap, heq, hgap⟩ := afterSeparator?_eq_some hseparator
  obtain rfl : tail = gap ++ after := (List.cons.inj heq).2
  cases after with
  | nil => rwa [List.append_nil]
  | cons c after =>
    have hlast : isWordAt (lastOr (some ')') gap) = false := isWordAt_lastOr_filler hgap rfl
    have hnone := htail.eq_none rfl rfl (List.cons_ne_nil c after)
    obtain ⟨inside, hinside, -⟩ := Option.map_eq_some_iff.mp hend
    have hopens : afterConstructor? fieldConstructor (c :: after) = some inside := by
      simpa [fieldListEnd, Option.orElse_eq_orElse, Option.orElse_eq_or] using hinside
    rw [opening_of_afterConstructor? isConstructor_field hlast hopens] at hnone
    cases hnone

/-- A list of fields closes behind its last field: if that one has an end, only filling follows. -/
theorem exists_filler_of_getLast? {before : Option Char} {offset : Nat} {text : List Char}
    {found : List Span} (h : Cuts (opening fieldConstructor) fieldClosing before offset text found)
    {start innerOffset : Nat} {inner following : List Char}
    (hlast : found.getLast? = some (.closed start innerOffset inner following)) :
    ∃ earlier tail, text = earlier ++ ')' :: tail ∧
      offset + byteLength earlier = innerOffset + byteLength inner ∧
      tail.all isFiller = true := by
  induction h with
  | nil => cases hlast
  | @pass before offset c text found hopens hrest ih =>
    obtain ⟨earlier, tail, rfl, hoffset, htail⟩ := ih hlast
    refine ⟨c :: earlier, tail, rfl, ?_, htail⟩
    rw [byteLength_cons]
    omega
  | @unterminated before offset read inside found hread hopens hcloses hrest ih =>
    cases found with
    | nil => cases hlast
    | cons later found =>
      obtain ⟨earlier, tail, rfl, hoffset, htail⟩ := ih hlast
      refine ⟨read ++ earlier, tail, by rw [List.append_assoc], ?_, htail⟩
      rw [byteLength_append]
      omega
  | @closed before offset read inside tail rest found hread hopens hcloses hrest ih =>
    cases found with
    | nil =>
      cases hlast
      obtain ⟨after, hafter, hclosing⟩ := first?_eq_some hcloses
      obtain rfl := List.append_cancel_left hafter
      refine ⟨read ++ inner, tail, by rw [List.append_assoc], ?_, ?_⟩
      · rw [byteLength_append, Nat.add_assoc]
      · exact isFiller_of_fieldClosing hrest hclosing
    | cons later found =>
      obtain ⟨earlier, tail', rfl, hoffset, htail⟩ := ih hlast
      refine ⟨read ++ (inside ++ [')']) ++ earlier, tail', by simp, ?_, htail⟩
      rw [byteLength_append _ earlier, byteLength_append read]
      omega

end CalculatorCatalog.Definition
