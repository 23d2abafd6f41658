import CalculatorCatalog.Proofs.Text.Search

/-!
# Where a recogniser finds something

A text is read from left to right, and what has been read is not looked at again, so that in general
a recogniser is not asked at every place. A recogniser that `ReadsApart` recognises nothing inside
of what it reads. For such a one nothing is missed: its occurrences in a text are all the places at
which it recognises something (`found_mem_piecesFrom_iff`).
-/

set_option autoImplicit false
set_option relaxedAutoImplicit false

namespace CalculatorCatalog.Text

variable {α : Type}

/-- Something is read, and nothing is recognised inside of it. -/
def ReadsApart (recognize : Recognizer α) : Prop :=
  ∀ before text value rest, recognize before text = some (value, rest) →
    ∃ c read, text = c :: (read ++ rest) ∧ Declines recognize (some c) read rest

variable {recognize : Recognizer α}

/-- A place at which something is recognised does not lie inside of what has just been read. -/
theorem exists_append_of_declines {before : Option Char} {read rest passed text : List Char}
    (hdeclines : Declines recognize before read rest)
    (hsome : (recognize (lastOr before passed) text).isSome = true)
    (hsplit : read ++ rest = passed ++ text) :
    ∃ later, passed = read ++ later ∧ rest = later ++ text := by
  obtain hbehind | ⟨inside, rfl, rfl⟩ := List.append_eq_append_iff.mp hsplit
  · exact hbehind
  · cases inside with
    | nil => exact ⟨[], by simp, rfl⟩
    | cons c inside =>
      have hplace := (declines_append.mp hdeclines).2.1
      rw [List.cons_append, hplace] at hsome
      cases hsome

/-- What is found in a text is what is recognised at any of its places. -/
theorem found_mem_piecesFrom_iff (hapart : ReadsApart recognize) {before : Option Char}
    {text matched : List Char} {value : α} :
    .found matched value ∈ piecesFrom recognize 0 before text ↔
      ∃ passed rest, text = passed ++ (matched ++ rest) ∧
        recognize (lastOr before passed) (matched ++ rest) = some (value, rest) := by
  induction hlength : text.length using Nat.strongRecOn generalizing before text with
  | _ length ih =>
    subst hlength
    cases text with
    | nil =>
      refine ⟨fun h ↦ by simp [piecesFrom] at h, fun ⟨passed, rest, htext, hread⟩ ↦ ?_⟩
      obtain ⟨c, read, hne, -⟩ := hapart _ _ _ _ hread
      rw [hne] at htext
      simp at htext
    | cons c text =>
      cases hhead : recognize before (c :: text) with
      | none =>
        rw [piecesFrom, hhead]
        simp only [List.mem_cons, reduceCtorEq, false_or]
        rw [ih text.length (by simp) rfl]
        constructor
        · rintro ⟨passed, rest, rfl, hread⟩
          exact ⟨c :: passed, rest, rfl, hread⟩
        · rintro ⟨passed, rest, htext, hread⟩
          cases passed with
          | nil =>
            rw [lastOr_nil, ← List.nil_append (matched ++ rest), ← htext, hhead] at hread
            cases hread
          | cons d passed =>
            obtain ⟨rfl, rfl⟩ := List.cons.inj htext
            exact ⟨passed, rest, rfl, hread⟩
      | some result =>
        obtain ⟨first, after⟩ := result
        obtain ⟨d, read, heq, hdeclines⟩ := hapart _ _ _ _ hhead
        obtain ⟨rfl, rfl⟩ := List.cons.inj heq
        have hpieces := piecesFrom_of_found (List.cons_ne_nil c read) hhead
        rw [List.cons_append] at hpieces
        rw [hpieces, List.mem_cons, Piece.found.injEq,
          ih after.length (by simp only [List.length_cons, List.length_append]; omega) rfl]
        constructor
        · rintro (⟨rfl, rfl⟩ | ⟨passed, rest, rfl, hread⟩)
          · exact ⟨[], after, rfl, hhead⟩
          · refine ⟨c :: read ++ passed, rest, by simp, ?_⟩
            rwa [lastOr_append]
        · rintro ⟨passed, rest, htext, hread⟩
          cases passed with
          | nil =>
            rw [List.nil_append] at htext
            rw [lastOr_nil, ← htext, hhead] at hread
            obtain ⟨rfl, rfl⟩ := Prod.mk.inj (Option.some.inj hread)
            rw [← List.cons_append] at htext
            exact .inl ⟨(List.append_cancel_right htext).symm, rfl⟩
          | cons e passed =>
            obtain ⟨rfl, hsplit⟩ := List.cons.inj htext
            obtain ⟨later, rfl, rfl⟩ :=
              exists_append_of_declines hdeclines (by rw [← lastOr_cons, hread]; rfl) hsplit
            refine .inr ⟨later, rest, rfl, ?_⟩
            rwa [← lastOr_append]

end CalculatorCatalog.Text
