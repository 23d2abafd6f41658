import CalculatorCatalog.Proofs.Edit.Extent

/-!
# Calls that a removal leaves

A removal is expected to leave no call with the key. What it reads with the key is removed, but a
call that is read hides every place inside it from the search, and so it does if it has not got the
key itself and stays. A call with the key that begins inside such a call is `Overlooked`.

`leavesNone_iff` says when the expectation is met: no overlooked call is left whole, and every call
with the key in the result has stood in the source. Where the cut keeps comments, all that is
overlooked and not cut into is a call of the result (`exists_leftWhole`), because what stands around
it is the block that hides it, and nothing is cut out of that block
(`isCut_eq_false_of_hasKey_eq_false`). `not_leavesNone` is a block inside one with another key.
-/

set_option autoImplicit false
set_option relaxedAutoImplicit false

namespace CalculatorCatalog.Edit

open CalculatorCatalog.Text

/-- A text has a call at the place that the call names. -/
def IsCallIn (constructor text : List Char) (call : Call) : Prop :=
  text = call.before ++ (call.block ++ call.after) ∧
    callAt? constructor call.before (call.block ++ call.after) = some call

theorem isCallIn_of_mem_calls {constructor text : List Char} {call : Call}
    (h : call ∈ calls constructor text) : IsCallIn constructor text call :=
  callAt?_of_mem_calls h

/-- A call with the key that the search for blocks passes over, because it begins inside a call
that has not got the key. -/
def Overlooked (constructor key source : List Char) (call : Call) : Prop :=
  IsCallIn constructor source call ∧ call.hasKey key = true ∧
    ∃ other ∈ calls constructor source, other.hasKey key = false ∧ other.Hides call

/-- No character of the block is cut out. -/
def Whole (ranges : List Removal) (call : Call) : Prop :=
  ∀ offset, byteLength call.before ≤ offset →
    offset < byteLength call.before + byteLength call.block → isCut ranges offset = false

/-- A call of a source that is left whole, as a call of the result: it stands where the cut has
moved it. -/
structure LeftWhole (ranges : List Removal) (old new : Call) : Prop where
  whole : Whole ranges old
  place : byteLength (cut ranges 0 old.before) = byteLength new.before
  sameBlock : old.block = new.block
  sameInner : old.inner = new.inner

/-- No call with the key is left. -/
def LeavesNone (constructor key content : String) : Prop :=
  ∀ call, IsCallIn constructor.toList
      (blankComments (removeBlocks constructor key content).content.toList) call →
    call.hasKey key.toList = false

/-- Every call with the key in the result is one of the source that has been left whole. -/
def BringsNone (constructor key content : String) : Prop :=
  ∀ new, IsCallIn constructor.toList
      (blankComments (removeBlocks constructor key content).content.toList) new →
    new.hasKey key.toList = true →
      ∃ old, IsCallIn constructor.toList (blankComments content.toList) old ∧
        LeftWhole (removals constructor.toList key.toList content.toList) old new

/-! ### What is left whole -/

/-- A block ends in a bracket. -/
theorem not_isMarginal_getLast?_block {constructor before text : List Char} {call : Call}
    (h : callAt? constructor before text = some call) :
    ∃ c, call.block.getLast? = some c ∧ ¬IsMarginal c := by
  cases callAt?_eq_some_iff.mp h with
  | opened => exact ⟨'(', by simp, by simp [IsMarginal, isWhiteSpace]⟩
  | @closed read inner after c _ _ hc =>
    refine ⟨c, ?_, ?_⟩
    · rw [List.getLast?_append, List.getLast?_cons, List.getLast?_append]
      rfl
    · simp only [isClosing, Bool.or_eq_true, beq_iff_eq] at hc
      obtain (rfl | rfl) | rfl := hc <;> simp [IsMarginal, isWhiteSpace]

/-- Of two calls that are read one comes behind the other. -/
theorem behind_of_mem_calls {constructor text : List Char} {call other : Call}
    (hcall : call ∈ calls constructor text) (hother : other ∈ calls constructor text) :
    call = other ∨ (∃ gap, other.before = call.before ++ (call.block ++ gap)) ∨
      ∃ gap, call.before = other.before ++ (other.block ++ gap) := by
  have hpairwise := List.pairwise_iff_getElem.mp (pairwise_callsFrom constructor 0 [] text)
  obtain ⟨i, hi, rfl⟩ := List.getElem_of_mem hcall
  obtain ⟨j, hj, rfl⟩ := List.getElem_of_mem hother
  rcases Nat.lt_trichotomy i j with hlt | rfl | hlt
  · exact .inr (.inl (hpairwise i j hi hj hlt))
  · exact .inl rfl
  · exact .inr (.inr (hpairwise j i hj hi hlt))

/-- Nothing is cut out of a block that is read and has not got the key. -/
theorem isCut_eq_false_of_hasKey_eq_false {constructor key content : List Char} {other : Call}
    (hother : other ∈ calls constructor (blankComments content)) (hkey : other.hasKey key = false)
    {offset : Nat} (hlow : byteLength other.before ≤ offset)
    (hhigh : offset < byteLength other.before + byteLength other.block) :
    isCut (removals constructor key content) offset = false := by
  rw [← Bool.not_eq_true, isCut_iff]
  rintro ⟨range, hrange, hstart, hstop⟩
  obtain ⟨call, hcall, hcallKey, head, lead, trail, tail, hbefore, hafter, hmargins, rfl⟩ :=
    exists_call_of_mem_removals hrange
  have hmarginal := hmargins.isMargin.1
  rcases behind_of_mem_calls hcall hother with rfl | ⟨gap, hgap⟩ | ⟨gap, hgap⟩
  · rw [hkey] at hcallKey
    cases hcallKey
  · -- The range ends before the next call.
    obtain ⟨inner, hinner, -⟩ := Call.exists_inner_of_hasKey hcallKey
    have hle := byteLength_trail_le hcall hother (by rw [hinner]; rfl) hgap hafter
      fun c hc ↦ hmarginal c (List.mem_append_right _ hc)
    rw [hgap, byteLength_append, byteLength_append] at hlow
    simp only at hstop
    omega
  · -- The range begins behind the bracket in which the block before it ends.
    have hsplit : head ++ lead = (other.before ++ other.block) ++ gap := by
      rw [← hbefore, hgap, List.append_assoc]
    have hlength : byteLength head < byteLength (other.before ++ other.block) := by
      rw [byteLength_append]
      simp only at hstart
      omega
    obtain ⟨middle, hmiddle, rfl⟩ := exists_eq_append_of_byteLength_le hsplit hlength.le
    obtain ⟨c, hlast, hc⟩ := not_isMarginal_getLast?_block (callAt?_of_mem_calls hother).2
    have hmem : c ∈ middle := by
      have hends := congrArg List.getLast? hmiddle
      rw [List.getLast?_append, hlast, Option.some_or, List.getLast?_append] at hends
      cases hmiddleLast : middle.getLast? with
      | none =>
        rw [List.getLast?_eq_none_iff] at hmiddleLast
        rw [hmiddle, hmiddleLast, List.append_nil] at hlength
        exact absurd hlength (Nat.lt_irrefl _)
      | some d =>
        rw [hmiddleLast, Option.some_or, Option.some.injEq] at hends
        rw [hends]
        exact List.mem_of_getLast? hmiddleLast
    exact hc (hmarginal c (List.mem_append_left _ (List.mem_append_left _ hmem)))

/-- A hidden call begins behind a character of the block that hides it. -/
theorem Call.Hides.exists_split {constructor text : List Char} {other call : Call}
    (h : other.Hides call) (hother : IsCallIn constructor text other)
    (hcall : IsCallIn constructor text call) :
    ∃ init c rest, call.before = other.before ++ (init ++ [c]) ∧
      other.block = init ++ c :: rest ∧ rest ≠ [] := by
  obtain ⟨hlow, hhigh⟩ := h
  obtain ⟨passed, hpassed, hrest⟩ : ∃ passed, call.before = other.before ++ passed ∧
      other.block ++ other.after = passed ++ (call.block ++ call.after) := by
    rcases List.append_eq_append_iff.mp (hcall.1.symm.trans hother.1) with
      ⟨middle, hmiddle, -⟩ | hsplit
    · have hlength := congrArg List.length hmiddle
      rw [List.length_append] at hlength
      omega
    · exact hsplit
  rw [hpassed, List.length_append] at hlow hhigh
  rcases List.eq_nil_or_concat passed with rfl | ⟨init, c, rfl⟩
  · exact absurd hlow (by simp)
  rw [List.concat_eq_append] at *
  rcases List.append_eq_append_iff.mp hrest with ⟨middle, hmiddle, -⟩ | ⟨rest, hblock, -⟩
  · rw [hmiddle, List.length_append] at hhigh
    omega
  · refine ⟨init, c, rest, hpassed, by rw [hblock, List.append_assoc]; rfl, ?_⟩
    rintro rfl
    rw [hblock, List.append_nil] at hhigh
    omega

/-- A hidden call begins inside the block that hides it. -/
theorem Call.Hides.byteLength_bounds {constructor text : List Char} {other call : Call}
    (h : other.Hides call) (hother : IsCallIn constructor text other)
    (hcall : IsCallIn constructor text call) :
    byteLength other.before ≤ byteLength call.before ∧
      byteLength call.before < byteLength other.before + byteLength other.block := by
  obtain ⟨init, c, rest, hbefore, hblock, hrest⟩ := h.exists_split hother hcall
  have hpos : byteLength rest ≠ 0 := fun hzero ↦ hrest (byteLength_eq_zero.mp hzero)
  rw [hbefore, hblock]
  simp only [byteLength_append, byteLength_cons, byteLength_nil]
  omega

/-- Where the cut keeps comments, what is overlooked and not cut into is a call of the result. -/
theorem exists_leftWhole {constructor key content : List Char} {old : Call}
    (h : Overlooked constructor key (blankComments content) old)
    (hwhole : Whole (removals constructor key content) old) :
    ∃ new, IsCallIn constructor
        (cut (removals constructor key content) 0 (blankComments content)) new ∧
      LeftWhole (removals constructor key content) old new := by
  obtain ⟨hold, hkey, other, hother, hotherKey, hhides⟩ := h
  obtain ⟨inner, hinner, -⟩ := Call.exists_inner_of_hasKey hkey
  obtain ⟨-, -, hblock, hboundary, -⟩ := callAt?_eq_some hold.2
  obtain ⟨init, c, rest, hbefore, hotherBlock, -⟩ :=
    hhides.exists_split (isCallIn_of_mem_calls hother) hold
  have hkept : isCut (removals constructor key content) (byteLength (other.before ++ init)) =
      false := by
    have hpos := c.utf8Size_pos
    refine isCut_eq_false_of_hasKey_eq_false hother hotherKey ?_ ?_
    · rw [byteLength_append]
      omega
    · rw [hotherBlock, byteLength_append, byteLength_append, byteLength_cons]
      omega
  have hlast : (cut (removals constructor key content) 0 old.before).getLast? =
      old.before.getLast? := by
    rw [hbefore, ← List.append_assoc, cut_append, Nat.zero_add, cut_cons, hkept,
      if_neg Bool.false_ne_true]
    simp [cut]
  have hhead : (old.block ++ old.after).head? = old.block.head? := by
    rw [List.head?_append_of_ne_nil _ hblock]
  rw [← hlast, hhead] at hboundary
  have hcut : cut (removals constructor key content) 0 (blankComments content) =
      cut (removals constructor key content) 0 old.before ++
        (old.block ++ cut (removals constructor key content)
          (byteLength old.before + byteLength old.block) old.after) := by
    rw [hold.1, cut_append, cut_append, Nat.zero_add, cut_eq_self hwhole]
  exact ⟨⟨_, old.block, some inner, _⟩, ⟨hcut, callAt?_of_block hold.2 hinner hboundary _⟩,
    hwhole, rfl, rfl, hinner⟩

/-! ### When no call is left -/

/-- A call with the key that is left whole has been overlooked. -/
theorem overlooked_of_whole {constructor key content : List Char} {old : Call}
    (hold : IsCallIn constructor (blankComments content) old) (hkey : old.hasKey key = true)
    (hwhole : Whole (removals constructor key content) old) :
    Overlooked constructor key (blankComments content) old := by
  obtain ⟨-, -, hblock, -⟩ := callAt?_eq_some hold.2
  have hpos : byteLength old.block ≠ 0 := fun hzero ↦ hblock (byteLength_eq_zero.mp hzero)
  have hkept := hwhole (byteLength old.before) (Nat.le_refl _) (by omega)
  have hcut {call : Call} (hcall : call ∈ calls constructor (blankComments content))
      (hcallKey : call.hasKey key = true) (hlow : byteLength call.before ≤ byteLength old.before)
      (hhigh : byteLength old.before < byteLength call.before + byteLength call.block) :
      False := by
    obtain ⟨range, hrange, hstart, hstop⟩ := exists_range_of_mem_calls hcall hcallKey
    have htaken := isCut_iff.mpr
      ⟨range, hrange, Nat.le_trans hstart hlow, Nat.lt_of_lt_of_le hhigh hstop⟩
    rw [hkept] at htaken
    cases htaken
  have hcovered := mem_calls_or_covered hold.2
  rw [← hold.1] at hcovered
  rcases hcovered with hread | ⟨other, hother, hhides⟩
  · exact (hcut hread hkey (Nat.le_refl _) (by omega)).elim
  · refine ⟨hold, hkey, other, hother, ?_, hhides⟩
    rw [← Bool.not_eq_true]
    intro hotherKey
    obtain ⟨hlow, hhigh⟩ :=
      Call.Hides.byteLength_bounds hhides (isCallIn_of_mem_calls hother) hold
    exact hcut hother hotherKey hlow hhigh

/-- A removal leaves no call with the key exactly if no overlooked call is left whole and the cut
brings none about. Where the cut keeps comments, the first condition is one on the source alone:
every overlooked call is cut into. -/
theorem leavesNone_iff (constructor key content : String) :
    let source := blankComments content.toList
    let result := blankComments (removeBlocks constructor key content).content.toList
    let ranges := removals constructor.toList key.toList content.toList
    (LeavesNone constructor key content ↔
      (∀ old, Overlooked constructor.toList key.toList source old →
        ∀ new, IsCallIn constructor.toList result new → ¬LeftWhole ranges old new) ∧
      BringsNone constructor key content) ∧
    (KeepsComments constructor key content →
      (LeavesNone constructor key content ↔
        (∀ old, Overlooked constructor.toList key.toList source old → ¬Whole ranges old) ∧
        BringsNone constructor key content)) := by
  intro source result ranges
  have hgeneral : LeavesNone constructor key content ↔
      (∀ old, Overlooked constructor.toList key.toList source old →
        ∀ new, IsCallIn constructor.toList result new → ¬LeftWhole ranges old new) ∧
      BringsNone constructor key content := by
    constructor
    · intro hnone
      refine ⟨fun old hold new hnew hleft ↦ ?_, fun new hnew hkey ↦ ?_⟩
      · have hkey : new.hasKey key.toList = true := by
          rw [Call.hasKey, ← hleft.sameInner]
          exact hold.2.1
        rw [hnone new hnew] at hkey
        cases hkey
      · rw [hnone new hnew] at hkey
        cases hkey
    · rintro ⟨hoverlooked, hnew⟩ call hcall
      rw [← Bool.not_eq_true]
      intro hkey
      obtain ⟨old, hold, hleft⟩ := hnew call hcall hkey
      have holdKey : old.hasKey key.toList = true := by
        rwa [Call.hasKey, hleft.sameInner]
      exact hoverlooked old (overlooked_of_whole hold holdKey hleft.whole) call hcall hleft
  refine ⟨hgeneral, fun hkeeps ↦ hgeneral.trans (and_congr_left fun _ ↦ ?_)⟩
  refine forall₂_congr fun old hold ↦ ⟨fun hnone hwhole ↦ ?_, fun hcut new _ hleft ↦
    hcut hleft.whole⟩
  obtain ⟨new, hnew, hleft⟩ := exists_leftWhole hold hwhole
  rw [← hkeeps.2] at hnew
  exact hnone new hnew hleft

/-- A block inside one with another key is passed over along with it. -/
theorem not_leavesNone :
    ¬LeavesNone "Field" "a" "Field(key: 'b', items: [Field(key: 'a')])" := by
  intro hnone
  have hkey := hnone ⟨"Field(key: 'b', items: [".toList, "Field(key: 'a')".toList,
    some "key: 'a'".toList, "])".toList⟩ ⟨by decide +kernel, rfl⟩
  revert hkey
  decide +kernel

end CalculatorCatalog.Edit
