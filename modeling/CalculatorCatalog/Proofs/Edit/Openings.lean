import CalculatorCatalog.Edit.Blocks
import CalculatorCatalog.Proofs.Text.Layout

/-!
# The opening of a call

The opening of a call can be read in two ways, with the constant marker and without it.
`blockOpening_eq_some_iff` says what either reads; the two exclude each other, so that nothing
behind the opening bracket decides between them.
-/

set_option autoImplicit false
set_option relaxedAutoImplicit false

namespace CalculatorCatalog.Edit

open CalculatorCatalog.Text

/-- What the opening of a call consists of, up to its bracket. -/
inductive Opening (constructor : List Char) : List Char → Prop
  | plain {gap : List Char} (hgap : isBlank gap = true) : Opening constructor (constructor ++ gap)
  | constant {space gap : List Char} (hspace : isBlank space = true) (hne : space ≠ [])
      (hword : isWordAt constructor.head? = true) (hgap : isBlank gap = true) :
      Opening constructor (constWord ++ (space ++ (constructor ++ gap)))

/-- How many times the first letter of the constant marker stands before the first bracket. -/
def markerCount (text : List Char) : Nat :=
  (text.takeWhile (· != '(')).count 'c'

theorem count_gap {gap : List Char} (hgap : isBlank gap = true) : gap.count 'c' = 0 :=
  List.count_eq_zero.mpr (notMem_gap hgap (by decide))

theorem markerCount_append_of_notMem {text : List Char} (h : '(' ∉ text) (rest : List Char) :
    markerCount (text ++ rest) = text.count 'c' + markerCount rest := by
  have hall : ∀ c ∈ text, (c != '(') = true := by
    rintro c hc
    rw [bne_iff_ne]
    rintro rfl
    exact h hc
  rw [markerCount, List.takeWhile_append_of_pos hall, List.count_append]
  rfl

/-- A gap before the bracket of a call holds no letter. -/
theorem markerCount_opening (constructor : List Char) {gap : List Char}
    (hgap : isBlank gap = true) (rest : List Char) :
    markerCount (constructor ++ (gap ++ '(' :: rest)) = markerCount constructor := by
  induction constructor with
  | nil =>
    rw [List.nil_append, markerCount_append_of_notMem (notMem_gap hgap (by decide)),
      count_gap hgap]
    rfl
  | cons c constructor ih =>
    rw [List.cons_append, markerCount, markerCount, List.takeWhile_cons, List.takeWhile_cons]
    split_ifs
    · rw [List.count_cons, List.count_cons]
      exact congrArg (· + _) ih
    · rfl

/-- Before a gap and a bracket a word begins only if the name begins with it. -/
theorem isWordAt_head?_append_gap {constructor gap rest : List Char} (hgap : isBlank gap = true) :
    isWordAt (constructor ++ (gap ++ '(' :: rest)).head? = isWordAt constructor.head? := by
  cases constructor with
  | cons c constructor => rfl
  | nil =>
    cases gap with
    | nil => rfl
    | cons c gap =>
      rw [isBlank, List.all_cons, Bool.and_eq_true] at hgap
      exact isWordCharacter_of_isWhiteSpace hgap.1

/-- An opening that is read with the constant marker. -/
theorem afterConst?_bind_eq_some_iff {constructor text inside : List Char} :
    ((afterConst? text).bind fun text ↦
        if isWordAt text.head? then afterCall? constructor text else none) = some inside ↔
      ∃ space gap, isBlank space = true ∧ space ≠ [] ∧ isWordAt constructor.head? = true ∧
        isBlank gap = true ∧
        text = constWord ++ (space ++ (constructor ++ (gap ++ '(' :: inside))) := by
  constructor
  · intro h
    obtain ⟨middle, hmiddle, hcall⟩ := Option.bind_eq_some_iff.mp h
    obtain ⟨c, tail, hc, rfl, rfl⟩ := afterConst?_eq_some_iff.mp hmiddle
    split_ifs at hcall with hword
    obtain ⟨gap, hgap, hrest⟩ := afterCall?_eq_some_iff.mp hcall
    rw [List.append_assoc] at hrest
    rw [hrest, isWordAt_head?_append_gap hgap] at hword
    refine ⟨c :: tail.takeWhile isWhiteSpace, gap, ?_, List.cons_ne_nil _ _, hword, hgap, ?_⟩
    · rw [isBlank, List.all_cons, hc]
      exact isBlank_takeWhile tail
    · rw [← hrest, List.cons_append, takeWhile_append_skipWhite]
  · rintro ⟨space, gap, hspace, hne, hword, hgap, rfl⟩
    have hskip : skipWhite (constructor ++ (gap ++ '(' :: inside)) =
        constructor ++ (gap ++ '(' :: inside) := by
      cases constructor with
      | nil => cases hword
      | cons d constructor =>
        exact skipWhite_cons (isWhiteSpace_of_isWordCharacter hword) _
    rw [afterConst?_append hspace hne hskip, Option.bind_some, isWordAt_head?_append_gap hgap,
      if_pos hword]
    exact afterCall?_eq_some_iff.mpr ⟨gap, hgap, (List.append_assoc _ _ _).symm⟩

/-- An opening without the constant marker is not read as one with it. -/
theorem afterConst?_bind_eq_none {constructor gap rest : List Char} (hgap : isBlank gap = true) :
    ((afterConst? (constructor ++ (gap ++ '(' :: rest))).bind fun text ↦
      if isWordAt text.head? then afterCall? constructor text else none) = none := by
  rw [Option.eq_none_iff_forall_not_mem]
  intro inside hinside
  obtain ⟨space, gap', hspace, -, -, hgap', htext⟩ := afterConst?_bind_eq_some_iff.mp hinside
  -- The marker would have to be passed over once more than there are markers.
  have hcount := congrArg markerCount htext
  have hbracket : '(' ∉ constWord ++ space := by
    rw [List.mem_append, not_or]
    exact ⟨by decide, notMem_gap hspace (by decide)⟩
  rw [← List.append_assoc constWord, markerCount_append_of_notMem hbracket,
    markerCount_opening constructor hgap, markerCount_opening constructor hgap',
    List.count_append, count_gap hspace] at hcount
  have hmarker : constWord.count 'c' = 1 := by decide
  omega

/-- What is read as the opening of a call. -/
theorem blockOpening_eq_some_iff {constructor text inside : List Char} {before : Option Char} :
    blockOpening constructor before text = some ((), inside) ↔
      isWordBoundary before text.head? = true ∧
        ∃ read, Opening constructor read ∧ text = read ++ '(' :: inside := by
  constructor
  · intro h
    unfold blockOpening at h
    split_ifs at h with hboundary
    refine ⟨hboundary, ?_⟩
    obtain ⟨rest, hrest, heq⟩ := Option.map_eq_some_iff.mp h
    obtain rfl := (Prod.mk.inj heq).2
    rw [Option.orElse_eq_orElse, Option.orElse_eq_or, Option.or_eq_some_iff] at hrest
    rcases hrest with hconst | ⟨-, hcall⟩
    · obtain ⟨space, gap, hspace, hne, hword, hgap, rfl⟩ :=
        afterConst?_bind_eq_some_iff.mp hconst
      exact ⟨_, .constant hspace hne hword hgap, by simp⟩
    · obtain ⟨gap, hgap, rfl⟩ := afterCall?_eq_some_iff.mp hcall
      exact ⟨_, .plain hgap, rfl⟩
  · rintro ⟨hboundary, read, hread, rfl⟩
    unfold blockOpening
    rw [if_pos hboundary]
    cases hread with
    | plain hgap =>
      rw [List.append_assoc]
      simp only [afterConst?_bind_eq_none hgap]
      rw [← List.append_assoc, afterCall?_eq_some_iff.mpr ⟨_, hgap, rfl⟩]
      rfl
    | @constant space gap hspace hne hword hgap =>
      have htext : constWord ++ (space ++ (constructor ++ gap)) ++ '(' :: inside =
          constWord ++ (space ++ (constructor ++ (gap ++ '(' :: inside))) := by simp
      rw [afterConst?_bind_eq_some_iff.mpr ⟨space, gap, hspace, hne, hword, hgap, htext⟩]
      rfl

end CalculatorCatalog.Edit
