import CalculatorCatalog.Proofs.Edit.Openings

/-!
# The calls that a removal reads

The search for blocks to remove reads a source as a list of calls of the constructor. `callAt?` is
the call at a place, with its surroundings; `calls` is the list of those that the search reads, from
left to right. A call that is read hides every place inside it, whether or not it is removed, and so
does the opening of a call that is not closed: `mem_calls_or_covered` says that every call of a text
is read or hidden in this way.

What a call consists of is said once (`CallForm`). Whether it stands at a place depends on the text
around it in two ways only: it has to begin at a word boundary, and a call without its bracket runs
to the end of the text. A closed call is therefore a call wherever its block stands at a word
boundary (`callAt?_of_block`).

The ranges to remove are computed call by call (`removals_eq_rangesOf`).
-/

set_option autoImplicit false
set_option relaxedAutoImplicit false

namespace CalculatorCatalog.Edit

open CalculatorCatalog.Text

/-- A call of the constructor in a text: what comes before it, the call up to its closing bracket,
what stands between its brackets, and what comes after it. A call that is not closed has nothing
between its brackets, and its block is the opening alone. -/
structure Call where
  before : List Char
  block : List Char
  inner : Option (List Char)
  after : List Char

/-- The call at the place between two parts of a text. -/
def callAt? (constructor before text : List Char) : Option Call :=
  match blockOpening constructor before.getLast? text with
  | none => none
  | some (_, inside) =>
    match enclosed? inside with
    | none => some ⟨before, text.take (text.length - inside.length), none, inside⟩
    | some (inner, after) =>
      some ⟨before, text.take (text.length - after.length), some inner, after⟩

/-- The calls that are read in a text, after passing over `skip` characters. -/
def callsFrom (constructor : List Char) : Nat → List Char → List Char → List Call
  | _, _, [] => []
  | skip + 1, before, c :: text => callsFrom constructor skip (before ++ [c]) text
  | 0, before, c :: text =>
    match callAt? constructor before (c :: text) with
    | none => callsFrom constructor 0 (before ++ [c]) text
    | some call => call :: callsFrom constructor (call.block.length - 1) (before ++ [c]) text

/-- The calls that are read in a text. -/
def calls (constructor text : List Char) : List Call :=
  callsFrom constructor 0 [] text

/-- Whether a call is closed and has the key at its top level. -/
def Call.hasKey (key : List Char) (call : Call) : Bool :=
  call.inner.any (Edit.hasKey key)

/-- The ranges to remove for calls of a text, the first of which must not reach behind `floor`. -/
def rangesOf (floor : Nat) : List Call → List Removal
  | [] => []
  | call :: rest =>
    let start := byteLength call.before
    let range := removal floor start (start + byteLength call.block) call.before.reverse call.after
    range :: rangesOf range.stop rest

/-! ### One call -/

/-- What a call consists of: its opening, and its inside with the bracket that closes it, if there
is such a bracket. -/
inductive CallForm (constructor before : List Char) : List Char → Call → Prop
  | opened {read after : List Char} (hread : Opening constructor read)
      (hboundary : isWordBoundary before.getLast? (read ++ ['(']).head? = true)
      (hinside : enclosed? after = none) :
      CallForm constructor before (read ++ '(' :: after) ⟨before, read ++ ['('], none, after⟩
  | closed {read inner after : List Char} {c : Char} (hread : Opening constructor read)
      (hboundary : isWordBoundary before.getLast? (read ++ ['(']).head? = true)
      (hc : isClosing c = true) (hinside : enclosed? (inner ++ c :: after) = some (inner, after)) :
      CallForm constructor before (read ++ '(' :: (inner ++ c :: after))
        ⟨before, read ++ '(' :: (inner ++ [c]), some inner, after⟩

theorem take_length_sub (block after : List Char) :
    (block ++ after).take ((block ++ after).length - after.length) = block := by
  rw [List.length_append, Nat.add_sub_cancel, List.take_left]

theorem callAt?_eq_some_iff {constructor before text : List Char} {call : Call} :
    callAt? constructor before text = some call ↔ CallForm constructor before text call := by
  have hhead (read rest : List Char) : (read ++ '(' :: rest).head? = (read ++ ['(']).head? := by
    rw [List.head?_append, List.head?_append]
    rfl
  have hopened (read after : List Char) :
      read ++ '(' :: after = (read ++ ['(']) ++ after := by simp
  have hclosed (read inner after : List Char) (c : Char) :
      read ++ '(' :: (inner ++ c :: after) = (read ++ '(' :: (inner ++ [c])) ++ after := by simp
  constructor
  · intro h
    unfold callAt? at h
    cases hopens : blockOpening constructor before.getLast? text with
    | none => simp [hopens] at h
    | some result =>
      obtain ⟨⟨⟩, inside⟩ := result
      obtain ⟨hboundary, read, hread, rfl⟩ := blockOpening_eq_some_iff.mp hopens
      rw [hhead] at hboundary
      simp only [hopens] at h
      cases hcloses : enclosed? inside with
      | none =>
        simp only [hcloses, Option.some.injEq] at h
        subst h
        rw [hopened, take_length_sub, ← hopened]
        exact .opened hread hboundary hcloses
      | some result =>
        obtain ⟨inner, after⟩ := result
        obtain ⟨c, hc, rfl⟩ := enclosed?_eq_some hcloses
        simp only [hcloses, Option.some.injEq] at h
        subst h
        rw [hclosed, take_length_sub, ← hclosed]
        exact .closed hread hboundary hc hcloses
  · intro h
    cases h with
    | @opened read after hread hboundary hinside =>
      rw [← hhead read after] at hboundary
      rw [callAt?, blockOpening_eq_some_iff.mpr ⟨hboundary, read, hread, rfl⟩]
      simp only [hinside]
      rw [hopened, take_length_sub]
    | @closed read inner after c hread hboundary hc hinside =>
      rw [← hhead read (inner ++ c :: after)] at hboundary
      rw [callAt?, blockOpening_eq_some_iff.mpr ⟨hboundary, read, hread, rfl⟩]
      simp only [hinside]
      rw [hclosed, take_length_sub]

/-- The parts of a call make up the text, and it begins at a word boundary. A closed call ends in a
closing bracket. -/
theorem callAt?_eq_some {constructor before text : List Char} {call : Call}
    (h : callAt? constructor before text = some call) :
    call.before = before ∧ text = call.block ++ call.after ∧ call.block ≠ [] ∧
      isWordBoundary before.getLast? text.head? = true ∧
      (call.inner.isSome = true → ∃ c, call.block.getLast? = some c ∧ isClosing c = true) := by
  cases callAt?_eq_some_iff.mp h with
  | opened hread hboundary hinside =>
    refine ⟨rfl, by simp, by simp, ?_, by simp⟩
    rwa [List.head?_append] at hboundary ⊢
  | @closed read inner after c hread hboundary hc hinside =>
    refine ⟨rfl, by simp, by simp, ?_, fun _ ↦ ⟨c, ?_, hc⟩⟩
    · rwa [List.head?_append] at hboundary ⊢
    · rw [List.getLast?_append, List.getLast?_cons, List.getLast?_append]
      rfl

/-- A call begins with its opening. -/
theorem exists_opening_of_callAt? {constructor before text : List Char} {call : Call}
    (h : callAt? constructor before text = some call) :
    ∃ read inside, Opening constructor read ∧ text = read ++ '(' :: inside := by
  cases callAt?_eq_some_iff.mp h with
  | opened hread => exact ⟨_, _, hread, rfl⟩
  | closed hread => exact ⟨_, _, hread, rfl⟩

/-- A closed call runs from its opening to the bracket that closes it. -/
theorem exists_block_of_callAt? {constructor before text inner : List Char} {call : Call}
    (h : callAt? constructor before text = some call) (hinner : call.inner = some inner) :
    ∃ read c, isClosing c = true ∧ call.block = read ++ '(' :: (inner ++ [c]) ∧
      blockOpening constructor before.getLast? text = some ((), inner ++ c :: call.after) ∧
      enclosed? (inner ++ c :: call.after) = some (inner, call.after) := by
  cases callAt?_eq_some_iff.mp h with
  | opened => cases hinner
  | @closed read inner' after c hread hboundary hc hinside =>
    obtain rfl : inner' = inner := Option.some.inj hinner
    refine ⟨read, c, hc, rfl, blockOpening_eq_some_iff.mpr ⟨?_, read, hread, rfl⟩, hinside⟩
    rwa [List.head?_append] at hboundary ⊢

/-- A closed call is a call wherever its block stands at a word boundary. -/
theorem callAt?_of_block {constructor before text inner : List Char} {call : Call}
    (h : callAt? constructor before text = some call) (hinner : call.inner = some inner)
    {before' : List Char} (hboundary : isWordBoundary before'.getLast? call.block.head? = true)
    (after' : List Char) :
    callAt? constructor before' (call.block ++ after') =
      some ⟨before', call.block, some inner, after'⟩ := by
  cases callAt?_eq_some_iff.mp h with
  | opened => cases hinner
  | @closed read inner' after c hread _ hc hinside =>
    obtain rfl : inner' = inner := Option.some.inj hinner
    have hblock : read ++ '(' :: (inner' ++ [c]) ++ after' =
        read ++ '(' :: (inner' ++ c :: after') := by simp
    rw [hblock]
    refine callAt?_eq_some_iff.mpr (.closed hread ?_ hc (enclosed?_congr_after hinside hc after'))
    rwa [List.head?_append] at hboundary ⊢

/-! ### The calls that are read -/

@[simp] theorem callAt?_nil (constructor before : List Char) :
    callAt? constructor before [] = none := by
  cases h : callAt? constructor before [] with
  | none => rfl
  | some call =>
    obtain ⟨-, htext, hblock, -⟩ := callAt?_eq_some h
    exact absurd (List.append_eq_nil_iff.mp htext.symm).1 hblock

/-- A call that is read is the call at its place. -/
theorem exists_place_of_mem_callsFrom {constructor before text : List Char} {skip : Nat}
    {call : Call} (h : call ∈ callsFrom constructor skip before text) :
    ∃ passed rest, text = passed ++ rest ∧ skip ≤ passed.length ∧
      callAt? constructor (before ++ passed) rest = some call := by
  induction text generalizing skip before with
  | nil =>
    cases skip <;> cases h
  | cons c text ih =>
    have hlater {skip' : Nat} (hskip : skip ≤ skip' + 1)
        (hcall : call ∈ callsFrom constructor skip' (before ++ [c]) text) :
        ∃ passed rest, c :: text = passed ++ rest ∧ skip ≤ passed.length ∧
          callAt? constructor (before ++ passed) rest = some call := by
      obtain ⟨passed, rest, rfl, hle, hplace⟩ := ih hcall
      refine ⟨c :: passed, rest, rfl, ?_, ?_⟩
      · rw [List.length_cons]
        omega
      · rwa [List.append_assoc, List.singleton_append] at hplace
    cases skip with
    | succ skip => exact hlater (Nat.le_refl _) h
    | zero =>
      rw [callsFrom] at h
      cases hplace : callAt? constructor before (c :: text) with
      | none =>
        rw [hplace] at h
        exact hlater (Nat.zero_le _) h
      | some first =>
        rw [hplace] at h
        rcases List.mem_cons.mp h with rfl | hcall
        · exact ⟨[], c :: text, rfl, Nat.le_refl _, by rw [List.append_nil, hplace]⟩
        · exact hlater (Nat.zero_le _) hcall

/-- A call that is read from a text, with its parts. -/
theorem callAt?_of_mem_calls {constructor text : List Char} {call : Call}
    (h : call ∈ calls constructor text) :
    text = call.before ++ (call.block ++ call.after) ∧
      callAt? constructor call.before (call.block ++ call.after) = some call := by
  obtain ⟨passed, rest, rfl, -, hplace⟩ := exists_place_of_mem_callsFrom h
  rw [List.nil_append] at hplace
  obtain ⟨rfl, rfl, -⟩ := callAt?_eq_some hplace
  exact ⟨rfl, hplace⟩

/-- Every call of a text is read, or it begins inside a call that is read. -/
theorem mem_callsFrom_or_covered {constructor before passed rest : List Char} {skip : Nat}
    {call : Call} (hskip : skip ≤ passed.length)
    (h : callAt? constructor (before ++ passed) rest = some call) :
    call ∈ callsFrom constructor skip before (passed ++ rest) ∨
      ∃ other ∈ callsFrom constructor skip before (passed ++ rest),
        other.before.length < (before ++ passed).length ∧
          (before ++ passed).length < other.before.length + other.block.length := by
  induction passed generalizing skip before with
  | nil =>
    obtain rfl := Nat.le_zero.mp hskip
    rw [List.append_nil] at h
    cases rest with
    | nil => simp at h
    | cons c rest =>
      left
      rw [List.nil_append, callsFrom, h]
      exact List.mem_cons_self
  | cons c passed ih =>
    have happend : before ++ c :: passed = before ++ [c] ++ passed := by simp
    rw [happend] at h ⊢
    cases skip with
    | succ skip => exact ih (Nat.le_of_succ_le_succ hskip) h
    | zero =>
      rw [List.cons_append, callsFrom]
      cases hplace : callAt? constructor before (c :: (passed ++ rest)) with
      | none => exact ih (Nat.zero_le _) h
      | some first =>
        obtain ⟨hbefore, -, hblock, -⟩ := callAt?_eq_some hplace
        by_cases hcovered : first.block.length - 1 ≤ passed.length
        · rcases ih hcovered h with hmem | ⟨other, hother, hlow, hhigh⟩
          · exact Or.inl (List.mem_cons_of_mem first hmem)
          · exact Or.inr ⟨other, List.mem_cons_of_mem first hother, hlow, hhigh⟩
        · refine Or.inr ⟨first, List.mem_cons_self, ?_, ?_⟩
          · rw [hbefore]
            simp only [List.length_append, List.length_singleton]
            omega
          · rw [hbefore]
            simp only [List.length_append, List.length_singleton]
            omega

/-- Every call of a text is read, or it begins inside a call that is read. -/
theorem mem_calls_or_covered {constructor before rest : List Char} {call : Call}
    (h : callAt? constructor before rest = some call) :
    call ∈ calls constructor (before ++ rest) ∨
      ∃ other ∈ calls constructor (before ++ rest),
        other.before.length < before.length ∧
          before.length < other.before.length + other.block.length :=
  mem_callsFrom_or_covered (Nat.zero_le _) h

/-! ### The ranges of the calls with the key -/

/-- The offset behind a block, counted from the end of the text and from the block itself. -/
theorem offset_after_block (offset : Nat) {text block after : List Char}
    (h : text = block ++ after) :
    offset + byteLength text - byteLength after =
      offset + byteLength (text.take (text.length - after.length)) := by
  rw [h, take_length_sub, byteLength_append]
  omega

theorem removalsFrom_eq_rangesOf (constructor key : List Char) (floor skip : Nat)
    (before text : List Char) :
    removalsFrom constructor key floor skip before.reverse (byteLength before) text =
      rangesOf floor ((callsFrom constructor skip before text).filter (·.hasKey key)) := by
  induction text generalizing floor skip before with
  | nil =>
    cases skip <;> rfl
  | cons c text ih =>
    have hlater (floor skip : Nat) :
        removalsFrom constructor key floor skip (c :: before.reverse)
            (byteLength before + c.utf8Size) text =
          rangesOf floor ((callsFrom constructor skip (before ++ [c]) text).filter
            (·.hasKey key)) := by
      have hbefore : (before ++ [c]).reverse = c :: before.reverse := by simp
      have hoffset : byteLength (before ++ [c]) = byteLength before + c.utf8Size := by simp
      rw [← ih, hbefore, hoffset]
    cases skip with
    | succ skip =>
      rw [removalsFrom, callsFrom, hlater]
    | zero =>
      rw [removalsFrom, callsFrom]
      unfold callAt?
      rw [List.head?_reverse]
      cases hopens : blockOpening constructor before.getLast? (c :: text) with
      | none => exact hlater floor 0
      | some result =>
        obtain ⟨⟨⟩, inside⟩ := result
        obtain ⟨-, read, -, hread⟩ := blockOpening_eq_some_iff.mp hopens
        have hlength := congrArg List.length hread
        simp only [List.length_cons, List.length_append] at hlength
        cases hcloses : enclosed? inside with
        | none =>
          have hblock : ((c :: text).take ((c :: text).length - inside.length)).length - 1 =
              text.length - inside.length := by
            rw [List.length_take, List.length_cons]
            omega
          simp only [hcloses, hlater, hblock, List.filter_cons, Call.hasKey, Option.any_none,
            Bool.false_eq_true, if_false]
        | some result =>
          obtain ⟨inner, after⟩ := result
          obtain ⟨d, -, rfl⟩ := enclosed?_eq_some hcloses
          simp only [List.length_append, List.length_cons] at hlength
          have hblock : ((c :: text).take ((c :: text).length - after.length)).length - 1 =
              text.length - (inner ++ d :: after).length + inner.length + 1 := by
            simp only [List.length_take, List.length_append, List.length_cons]
            omega
          have hsplit : c :: text = (read ++ '(' :: (inner ++ [d])) ++ after := by
            rw [hread]
            simp
          have hstop := offset_after_block (byteLength before) hsplit
          by_cases hkey : Edit.hasKey key inner = true
          · simp only [hcloses, hlater, hblock, hkey, hstop, List.filter_cons, Call.hasKey,
              Option.any_some, if_true, rangesOf]
          · simp only [hcloses, hlater, hblock, hkey, List.filter_cons, Call.hasKey,
              Option.any_some, if_false, Bool.false_eq_true]

/-- The ranges to remove are those of the calls with the key, in turn. -/
theorem removals_eq_rangesOf (constructor key content : List Char) :
    removals constructor key content =
      rangesOf 0 ((calls constructor (blankComments content)).filter (·.hasKey key)) :=
  removalsFrom_eq_rangesOf constructor key 0 0 [] (blankComments content)

end CalculatorCatalog.Edit
