import CalculatorCatalog.Proofs.Edit.ElementReading

/-!
# Lists of blocks

The ordinary list is one of blocks: each element is a closed call of the constructor (`IsBlock`), or
it is without the name of the constructor. The elements of such a list are read
(`readsElements_of_blocks`). A call begins with a letter, so that none is read outside the elements;
a block is read whole and passed over; and an opening that begins in an element has the name of the
constructor there, because behind the element comes a comma or the closing bracket (`IsFenced`),
which stands in no opening.
-/

set_option autoImplicit false
set_option relaxedAutoImplicit false

namespace CalculatorCatalog.Edit

open CalculatorCatalog.Text

/-- An element is a closed call of the constructor. -/
def IsBlock (constructor element : List Char) : Prop :=
  ∃ inner, callAt? constructor [] element = some ⟨[], element, some inner, []⟩

section Blocks

variable {constructor key before text tail : List Char}

theorem Opening.isInfix_read {read : List Char} (h : Opening constructor read) :
    constructor <:+: read := by
  cases h with
  | plain hgap => exact ⟨[], _, rfl⟩
  | @constant space gap hspace hne hword hgap =>
    exact ⟨constWord ++ space, gap, by simp⟩

/-- An opening consists of words and white space. -/
theorem Opening.isWordCharacter_or_isWhiteSpace (hword : IsWord constructor) {read : List Char}
    (h : Opening constructor read) {c : Char} (hc : c ∈ read) :
    isWordCharacter c = true ∨ isWhiteSpace c = true := by
  have hconstructor : ∀ c ∈ constructor, isWordCharacter c = true :=
    List.all_eq_true.mp hword.word
  have hmarker : constWord.all isWordCharacter = true := rfl
  cases h with
  | @plain gap hgap =>
    rcases List.mem_append.mp hc with hmem | hmem
    · exact .inl (hconstructor c hmem)
    · exact .inr (List.all_eq_true.mp hgap c hmem)
  | @constant space gap hspace _ _ hgap =>
    simp only [List.mem_append] at hc
    obtain hmem | hmem | hmem | hmem := hc
    · exact .inl (List.all_eq_true.mp hmarker c hmem)
    · exact .inr (List.all_eq_true.mp hspace c hmem)
    · exact .inl (hconstructor c hmem)
    · exact .inr (List.all_eq_true.mp hgap c hmem)

/-- A call begins with a letter. -/
theorem callAt?_eq_none_of_isWordCharacter (hword : IsWord constructor) {c : Char}
    (hc : isWordCharacter c = false) : callAt? constructor before (c :: tail) = none := by
  cases hcall : callAt? constructor before (c :: tail) with
  | none => rfl
  | some call =>
    obtain ⟨d, rest, hblock, hd⟩ := exists_cons_of_callAt? hword hcall
    obtain ⟨-, htext, -⟩ := callAt?_eq_some hcall
    rw [hblock] at htext
    obtain ⟨rfl, -⟩ := List.cons.inj htext
    rw [hc] at hd
    cases hd

/-- Where no call begins, the search goes on. -/
theorem callsFrom_append_of_none (passed : List Char)
    (h : ∀ first c second, passed = first ++ c :: second →
      callAt? constructor (before ++ first) (c :: second ++ tail) = none) :
    callsFrom constructor 0 before (passed ++ tail) =
      callsFrom constructor 0 (before ++ passed) tail := by
  induction passed generalizing before with
  | nil => rw [List.nil_append, List.append_nil]
  | cons c passed ih =>
    have hfirst := h [] c passed rfl
    rw [List.append_nil, List.cons_append] at hfirst
    rw [List.cons_append, callsFrom, hfirst]
    simp only
    rw [ih, List.append_assoc]
    · rfl
    · rintro first d second rfl
      have hlater := h (c :: first) d second rfl
      rwa [← List.singleton_append, ← List.append_assoc] at hlater

/-- What has been read is passed over. -/
theorem callsFrom_skip (passed : List Char) :
    callsFrom constructor passed.length before (passed ++ tail) =
      callsFrom constructor 0 (before ++ passed) tail := by
  induction passed generalizing before with
  | nil => rw [List.nil_append, List.append_nil]; rfl
  | cons c passed ih =>
    rw [List.length_cons, List.cons_append, callsFrom, ih, List.append_assoc]
    rfl

/-- A call that is read is passed over. -/
theorem callsFrom_of_callAt? {block : List Char} {call : Call}
    (h : callAt? constructor before (block ++ tail) = some call) (hblock : call.block = block) :
    callsFrom constructor 0 before (block ++ tail) =
      call :: callsFrom constructor 0 (before ++ block) tail := by
  obtain ⟨-, -, hne, -⟩ := callAt?_eq_some h
  obtain ⟨c, rest, rfl⟩ := List.exists_cons_of_ne_nil (hblock ▸ hne)
  rw [List.cons_append] at h ⊢
  rw [callsFrom, h]
  simp only [hblock, List.length_cons, Nat.add_sub_cancel]
  rw [callsFrom_skip, List.append_assoc, List.singleton_append]

/-- Behind space comes a character that stands in no opening. -/
def IsFenced (text : List Char) : Prop :=
  ∃ gap c rest, text = gap ++ c :: rest ∧ (∀ d ∈ gap, isPadding d = true) ∧
    isWordCharacter c = false ∧ isWhiteSpace c = false ∧ c ≠ '('

/-- A call that begins before a fence has its name before it. -/
theorem isInfix_of_callAt? (hword : IsWord constructor) (htail : IsFenced tail) {call : Call}
    (h : callAt? constructor before (text ++ tail) = some call) : constructor <:+: text := by
  obtain ⟨gap, c, rest, rfl, hgap, hc, hwhite, hbracket⟩ := htail
  obtain ⟨read, inside, hread, heq⟩ := exists_opening_of_callAt? h
  have hfence : c ∉ read := by
    intro hmem
    rcases hread.isWordCharacter_or_isWhiteSpace hword hmem with hword' | hwhite'
    · rw [hc] at hword'
      cases hword'
    · rw [hwhite] at hwhite'
      cases hwhite'
  have hgapBracket : '(' ∉ gap := fun hmem ↦ absurd (hgap _ hmem) (by decide)
  obtain ⟨rest', hread'⟩ : ∃ rest', text = read ++ rest' := by
    rcases List.append_eq_append_iff.mp heq with ⟨middle, rfl, hmiddle⟩ | ⟨middle, htext, -⟩
    · -- Behind the text the opening would have to end before the fence, in the space.
      rcases List.append_eq_append_iff.mp hmiddle with ⟨after, rfl, hafter⟩ | ⟨after, rfl, hafter⟩
      · cases after with
        | nil => exact absurd (List.cons.inj hafter).1 hbracket
        | cons d after =>
          obtain ⟨rfl, -⟩ := List.cons.inj hafter
          exact absurd (by simp) hfence
      · cases after with
        | nil => exact absurd (List.cons.inj hafter).1.symm hbracket
        | cons d after =>
          obtain ⟨rfl, -⟩ := List.cons.inj hafter
          exact absurd (by simp) hgapBracket
    · exact ⟨middle, htext⟩
  rw [hread']
  exact hread.isInfix_read.trans (List.prefix_append read rest').isInfix

/-- Behind an element comes a comma or the end of the list. -/
theorem isFenced_tail {closes : Char} (hcloses : isClosing closes = true) {divider : List Char}
    (hdivider : IsDivider divider) {rest : List Item} (hcomma : rest ≠ [] → ',' ∈ divider) :
    IsFenced (divider ++ (body rest ++ [closes])) := by
  by_cases hmem : ',' ∈ divider
  · obtain ⟨gap, behind, rfl, hgap⟩ := List.eq_append_cons_of_mem hmem
    exact ⟨gap, ',', behind ++ (body rest ++ [closes]), by simp,
      fun d hd ↦ hdivider.of_append.1.isPadding_of_notMem hgap hd, rfl, rfl, by decide⟩
  · obtain rfl : rest = [] := by_contra fun hne ↦ hmem (hcomma hne)
    have hbracket : isWhiteSpace closes = false ∧ closes ≠ '(' := by
      simp only [isClosing, Bool.or_eq_true, beq_iff_eq] at hcloses
      obtain (rfl | rfl) | rfl := hcloses <;> exact ⟨rfl, by decide⟩
    exact ⟨divider, closes, [], rfl, fun d hd ↦ hdivider.isPadding_of_notMem hmem hd,
      isWordCharacter_of_isClosing hcloses, hbracket⟩

/-- Outside words the search goes on. -/
theorem callsFrom_append_of_isWordCharacter (hword : IsWord constructor) {passed : List Char}
    (h : ∀ c ∈ passed, isWordCharacter c = false) :
    callsFrom constructor 0 before (passed ++ tail) =
      callsFrom constructor 0 (before ++ passed) tail := by
  refine callsFrom_append_of_none passed fun first c second hsplit ↦ ?_
  exact callAt?_eq_none_of_isWordCharacter hword (h c (by rw [hsplit]; simp))

/-- Nothing is read in an element without the name of the constructor. -/
theorem callsFrom_append_of_not_isInfix (hword : IsWord constructor) (htail : IsFenced tail)
    (h : ¬constructor <:+: text) :
    callsFrom constructor 0 before (text ++ tail) =
      callsFrom constructor 0 (before ++ text) tail := by
  refine callsFrom_append_of_none text fun first c second hsplit ↦ ?_
  cases hcall : callAt? constructor (before ++ first) (c :: second ++ tail) with
  | none => rfl
  | some call =>
    refine absurd ((isInfix_of_callAt? hword htail hcall).trans ?_) h
    rw [hsplit]
    exact (List.suffix_append _ _).isInfix

theorem isKeyed_eq_false_of_not_isInfix (hword : IsWord constructor) {element : List Char}
    (h : ¬constructor <:+: element) : isKeyed constructor key element = false := by
  have hfenced : IsFenced [','] := ⟨[], ',', [], rfl, by simp, rfl, rfl, by decide⟩
  rw [← Bool.not_eq_true]
  intro hkeyed
  have hstart : isWordAt ([] : List Char).getLast? = false := rfl
  obtain ⟨call, hcall, -⟩ := exists_call_of_isKeyed hkeyed hstart [',']
  exact h (isInfix_of_callAt? hword hfenced hcall)

/-- A block is read where no word goes on before it, and it has the key as the element it is. -/
theorem IsBlock.exists_call {element : List Char} (h : IsBlock constructor element)
    (hbefore : isWordAt before.getLast? = false) (key tail : List Char) :
    ∃ call, callsFrom constructor 0 before (element ++ tail) =
        call :: callsFrom constructor 0 (before ++ element) tail ∧
      (call.before, call.block) = (before, element) ∧
      call.hasKey key = isKeyed constructor key element := by
  obtain ⟨inner, hblock⟩ := h
  obtain ⟨-, -, -, hboundary, -⟩ := callAt?_eq_some hblock
  have hhead : isWordBoundary before.getLast? element.head? = true := by
    rw [isWordBoundary, List.getLast?_nil] at hboundary
    rw [isWordBoundary, hbefore]
    exact hboundary
  refine ⟨_, callsFrom_of_callAt? (callAt?_of_block hblock rfl hhead tail) rfl, rfl, ?_⟩
  simp [isKeyed, hblock, Call.hasKey]

/-- The calls with the key in a list of blocks, and of elements without the name of the
constructor, are the elements with the key. -/
theorem keyedCallsFrom_body (hword : IsWord constructor) {closes : Char}
    (hcloses : isClosing closes = true) {items : List Item} (hitems : ∀ item ∈ items, item.IsProper)
    (hcommas : SingleCommas items)
    (hblocks : ∀ item ∈ items, IsBlock constructor item.element ∨ ¬constructor <:+: item.element)
    (hbefore : items ≠ [] → isWordAt before.getLast? = false) :
    ((callsFrom constructor 0 before (body items ++ [closes])).filter (·.hasKey key)).map
        (fun call ↦ (call.before, call.block)) =
      (placesFrom before items).filter fun place ↦ isKeyed constructor key place.2 := by
  induction items generalizing before with
  | nil =>
    rw [body_nil, List.nil_append, callsFrom,
      callAt?_eq_none_of_isWordCharacter hword (isWordCharacter_of_isClosing hcloses)]
    rfl
  | cons item rest ih =>
    obtain ⟨-, hcomma, hcommas⟩ := hcommas
    rw [List.forall_mem_cons] at hitems hblocks
    have hrest := ih hitems.2 hcommas hblocks.2
      fun hne ↦ isWordAt_behind (before ++ item.element) hitems.1.divider (hcomma hne)
    rw [← callsFrom_append_of_isWordCharacter hword fun c hc ↦
      isWordCharacter_of_isDivider hitems.1.divider hc] at hrest
    rw [body_cons, List.append_assoc, List.append_assoc, placesFrom_cons, List.filter_cons]
    rcases hblocks.1 with hblock | hfree
    · obtain ⟨call, hcalls, hplace, hkey⟩ := hblock.exists_call
        (hbefore (List.cons_ne_nil _ _)) key (item.divider ++ (body rest ++ [closes]))
      rw [hcalls, List.filter_cons, hkey]
      split_ifs
      · rw [List.map_cons, hplace, hrest]
      · exact hrest
    · rw [callsFrom_append_of_not_isInfix hword (isFenced_tail hcloses hitems.1.divider hcomma)
        hfree, hrest, isKeyed_eq_false_of_not_isInfix hword hfree, if_neg Bool.false_ne_true]

/-- In a list of blocks, and of elements without the name of the constructor, the elements are
read. -/
theorem readsElements_of_blocks (hword : IsWord constructor) {l : SourceList}
    (hblocks : ∀ element ∈ l.elements, IsBlock constructor element ∨ ¬constructor <:+: element) :
    ReadsElements constructor key l.toElementList := by
  have hopens : calls constructor (blankComments l.text) =
      callsFrom constructor 0 (l.opens :: l.lead) (body l.items ++ [l.closes]) := by
    rw [l.blankComments_text]
    exact callsFrom_append_of_isWordCharacter hword l.isWordCharacter_of_mem_opens
  rw [ReadsElements, keyedCalls, hopens]
  exact keyedCallsFrom_body hword l.isClosing_closes l.isProper l.singleCommas
    (fun item hitem ↦ hblocks item.element (List.mem_map_of_mem hitem)) fun _ ↦ l.isWordAt_opens

end Blocks

end CalculatorCatalog.Edit
