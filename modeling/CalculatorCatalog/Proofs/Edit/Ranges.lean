import CalculatorCatalog.Proofs.Edit.Calls
import CalculatorCatalog.Proofs.Text.LineIndex
import Mathlib.Data.List.Induction

/-!
# What is removed with a block

The range that is removed for a block reaches beyond it. `Margins` lists the ways: a block on lines
of its own goes with its indentation, the comma after it and the line break; any other goes with the
comma after it and the blanks around that comma or, if there is none, with the comma before it.
`removal_eq` says that the range of a block is always one of these.

`exists_call_of_mem_removals` and `exists_range_of_mem_calls` tie the ranges to the calls that are
read: every range belongs to a call with the key, and every such call has one. The last section has
the equations for cutting ranges out of a text.
-/

set_option autoImplicit false
set_option relaxedAutoImplicit false

namespace CalculatorCatalog.Edit

open CalculatorCatalog.Text

/-! ### Margins -/

/-- A text at whose end a line begins. -/
def StartsLine (text : List Char) : Prop :=
  text = [] ∨ text.getLast? = some '\n'

/-- What divides a block from the next thing on its line: blanks, and perhaps a comma. -/
inductive Separator : List Char → Bool → Prop
  | blanks {gap : List Char} (blank : gap.all isHorizontal = true) : Separator gap false
  | comma {gap gap' : List Char} (blank : gap.all isHorizontal = true)
      (blank' : gap'.all isHorizontal = true) : Separator (gap ++ ',' :: gap') true

/-- The end of a line before the rest of a text. -/
inductive LineEnd : List Char → List Char → Prop
  | endOfText : LineEnd [] []
  | lineBreak (rest : List Char) : LineEnd ['\n'] rest
  | windowsLineBreak (rest : List Char) : LineEnd ['\r', '\n'] rest

/-- No blank comes first. -/
def NotHorizontal (text : List Char) : Prop :=
  ∀ c, text.head? = some c → isHorizontal c = false

/-- How far the range of a block reaches: `lead` is what goes with it before the block and `trail`
what goes with it after the block, while `head` and `tail` stay. -/
inductive Margins : List Char → List Char → List Char → List Char → Prop
  /-- The block stands on lines of its own. -/
  | ownLine {head lead separator lineEnd tail : List Char} {hasComma : Bool}
      (indentation : isBlank lead = true) (sameLine : '\n' ∉ lead) (start : StartsLine head)
      (separated : Separator separator hasComma) (stop : LineEnd lineEnd tail) :
      Margins head lead (separator ++ lineEnd) tail
  /-- A comma follows. -/
  | following {head separator tail : List Char} (separated : Separator separator true)
      (stop : NotHorizontal tail) : Margins head [] separator tail
  /-- No comma follows, but one stands before the block. -/
  | preceding {head gap tail : List Char}
      (blank : ∀ c ∈ gap, isHorizontal c = true ∨ c = '\n' ∨ c = '\r')
      (last : (afterBlock tail).1 = false) : Margins head (',' :: gap) [] tail
  /-- The block is the only one. -/
  | bare {head tail : List Char} (last : (afterBlock tail).1 = false) : Margins head [] [] tail

theorem notHorizontal_dropWhile (text : List Char) :
    NotHorizontal (text.dropWhile isHorizontal) := by
  intro c hc
  have hdrop := List.head?_dropWhile_not isHorizontal text
  rw [hc] at hdrop
  simpa using hdrop

/-- What follows a block divides into a separator and the next thing on the line. -/
theorem afterBlock_eq (after : List Char) :
    ∃ separator, after = separator ++ (afterBlock after).2 ∧
      Separator separator (afterBlock after).1 ∧ NotHorizontal (afterBlock after).2 := by
  have hsplit := List.takeWhile_append_dropWhile (p := isHorizontal) (l := after)
  have hgap : (after.takeWhile isHorizontal).all isHorizontal = true := List.all_takeWhile
  rw [afterBlock]
  split
  · next rest hrest =>
    have hsplit' := List.takeWhile_append_dropWhile (p := isHorizontal) (l := rest)
    refine ⟨after.takeWhile isHorizontal ++ ',' :: rest.takeWhile isHorizontal, ?_,
      .comma hgap List.all_takeWhile, notHorizontal_dropWhile rest⟩
    rw [List.append_assoc, List.cons_append, hsplit', ← hrest, hsplit]
  · exact ⟨after.takeWhile isHorizontal, hsplit.symm, .blanks hgap, notHorizontal_dropWhile after⟩

theorem lineEnd?_eq_some {text : List Char} {length : Nat} (h : lineEnd? text = some length) :
    ∃ lineEnd rest, text = lineEnd ++ rest ∧ byteLength lineEnd = length ∧
      LineEnd lineEnd rest := by
  unfold lineEnd? at h
  split at h
  · obtain rfl := Option.some.inj h
    exact ⟨[], [], rfl, rfl, .endOfText⟩
  · next rest =>
    obtain rfl := Option.some.inj h
    exact ⟨['\n'], rest, rfl, rfl, .lineBreak rest⟩
  · next rest =>
    obtain rfl := Option.some.inj h
    exact ⟨['\r', '\n'], rest, rfl, rfl, .windowsLineBreak rest⟩
  · cases h

/-- A comma before a place, with what stands between. -/
theorem precedingComma?_eq_some {room distance : Nat} {before : List Char}
    (h : precedingComma? room before.reverse = some distance) :
    ∃ head gap, before = head ++ ',' :: gap ∧ distance = byteLength (',' :: gap) ∧
      distance ≤ room ∧ ∀ c ∈ gap, isHorizontal c = true ∨ c = '\n' ∨ c = '\r' := by
  induction before using List.reverseRecOn generalizing room distance with
  | nil =>
    cases room <;> cases h
  | append_singleton before c ih =>
    rw [List.reverse_append, List.reverse_singleton, List.singleton_append] at h
    cases room with
    | zero => cases h
    | succ room =>
      rw [precedingComma?] at h
      split_ifs at h with hcomma hblank
      · obtain rfl := Option.some.inj h
        subst hcomma
        exact ⟨before, [], rfl, rfl, Nat.le_add_left 1 room, by simp⟩
      · obtain ⟨distance, hdistance, rfl⟩ := Option.map_eq_some_iff.mp h
        obtain ⟨head, gap, rfl, rfl, hroom, hgap⟩ := ih hdistance
        have hsize : c.utf8Size = 1 := by
          rcases hblank with hblank | rfl | rfl
          · simp only [isHorizontal, Bool.or_eq_true, beq_iff_eq] at hblank
            rcases hblank with rfl | rfl <;> rfl
          · rfl
          · rfl
        refine ⟨head, gap ++ [c], by simp, ?_, Nat.succ_le_succ hroom, ?_⟩
        · simp only [byteLength_cons, byteLength_append, byteLength_nil, hsize]
          omega
        · intro d hd
          rcases List.mem_append.mp hd with hd | hd
          · exact hgap d hd
          · rwa [List.mem_singleton.mp hd]

/-- The start of the line on which a place stands. -/
theorem exists_startsLine (before : List Char) :
    ∃ head lead, before = head ++ lead ∧ StartsLine head ∧ '\n' ∉ lead ∧
      before.reverse.takeWhile (· != '\n') = lead.reverse := by
  obtain ⟨lines, hbefore, hlines, hline⟩ := Source.exists_lines before
  exact ⟨lines, Source.openLine before, hbefore, hlines, hline, (List.reverse_reverse _).symm⟩

/-- The range of a block is the block with its margins. -/
theorem removal_eq (floor : Nat) (before block after : List Char) :
    ∃ head lead trail tail, before = head ++ lead ∧ after = trail ++ tail ∧
      Margins head lead trail tail ∧ (floor ≤ byteLength before → floor ≤ byteLength head) ∧
      removal floor (byteLength before) (byteLength before + byteLength block) before.reverse
          after =
        ⟨byteLength head, byteLength before + byteLength block + byteLength trail,
          byteLength before⟩ := by
  obtain ⟨separator, hafter, hseparator, hstop⟩ := afterBlock_eq after
  obtain ⟨head, lead, hbefore, hhead, hlead, hindentation⟩ := exists_startsLine before
  have htail : byteLength before + byteLength block + byteLength after -
      byteLength (afterBlock after).2 =
      byteLength before + byteLength block + byteLength separator := by
    have hlength := congrArg byteLength hafter
    rw [byteLength_append] at hlength
    omega
  have hstart : byteLength before - byteLength lead.reverse = byteLength head := by
    rw [hbefore, byteLength_append, byteLength_reverse]
    omega
  simp only [removal, hindentation, hstart, htail]
  cases hown : if floor ≤ byteLength head ∧ isBlank lead.reverse = true
      then lineEnd? (afterBlock after).2 else none with
  | some length =>
    split_ifs at hown with hblank
    obtain ⟨lineEnd, tail, htail, rfl, hlineEnd⟩ := lineEnd?_eq_some hown
    have hindent : isBlank lead = true := by
      rw [← hblank.2, isBlank, isBlank, List.all_reverse]
    refine ⟨head, lead, separator ++ lineEnd, tail, hbefore, ?_,
      .ownLine hindent hlead hhead hseparator hlineEnd, fun _ ↦ hblank.1, ?_⟩
    · rw [hafter, htail, List.append_assoc]
    · rw [byteLength_append separator, ← Nat.add_assoc]
  | none =>
    cases hcomma : (afterBlock after).1 with
    | true =>
      rw [hcomma] at hseparator
      exact ⟨before, [], separator, (afterBlock after).2, (List.append_nil before).symm, hafter,
        .following hseparator hstop, id, rfl⟩
    | false =>
      cases hpreceding : precedingComma? (byteLength before - floor) before.reverse with
      | some distance =>
        obtain ⟨head, gap, rfl, rfl, hroom, hgap⟩ := precedingComma?_eq_some hpreceding
        refine ⟨head, ',' :: gap, [], after, rfl, rfl, .preceding hgap hcomma, ?_, ?_⟩
        · rw [byteLength_append] at hroom ⊢
          omega
        · simp
      | none =>
        refine ⟨before, [], [], after, (List.append_nil before).symm, rfl, .bare hcomma, id, ?_⟩
        simp

/-! ### Ranges and calls -/

theorem mem_rangesOf {floor : Nat} {list : List Call} {range : Removal}
    (h : range ∈ rangesOf floor list) :
    ∃ call ∈ list, ∃ floor', range = removal floor' (byteLength call.before)
      (byteLength call.before + byteLength call.block) call.before.reverse call.after := by
  induction list generalizing floor with
  | nil => cases h
  | cons call list ih =>
    rw [rangesOf] at h
    rcases List.mem_cons.mp h with rfl | hrest
    · exact ⟨call, List.mem_cons_self, floor, rfl⟩
    · obtain ⟨other, hother, hrange⟩ := ih hrest
      exact ⟨other, List.mem_cons_of_mem call hother, hrange⟩

theorem exists_mem_rangesOf (floor : Nat) {list : List Call} {call : Call} (h : call ∈ list) :
    ∃ floor', removal floor' (byteLength call.before)
      (byteLength call.before + byteLength call.block) call.before.reverse call.after ∈
        rangesOf floor list := by
  induction list generalizing floor with
  | nil => cases h
  | cons first list ih =>
    rw [rangesOf]
    rcases List.mem_cons.mp h with rfl | hrest
    · exact ⟨floor, List.mem_cons_self⟩
    · obtain ⟨floor', hrange⟩ := ih _ hrest
      exact ⟨floor', List.mem_cons_of_mem _ hrange⟩

/-- A range that is removed is a call with the key, with its margins. -/
theorem exists_call_of_mem_removals {constructor key content : List Char} {range : Removal}
    (h : range ∈ removals constructor key content) :
    ∃ call ∈ calls constructor (blankComments content), call.hasKey key = true ∧
      ∃ head lead trail tail, call.before = head ++ lead ∧ call.after = trail ++ tail ∧
        Margins head lead trail tail ∧
        range = ⟨byteLength head, byteLength call.before + byteLength call.block + byteLength trail,
          byteLength call.before⟩ := by
  rw [removals_eq_rangesOf] at h
  obtain ⟨call, hcall, floor, rfl⟩ := mem_rangesOf h
  obtain ⟨hread, hkey⟩ := List.mem_filter.mp hcall
  obtain ⟨head, lead, trail, tail, hbefore, hafter, hmargins, -, hrange⟩ :=
    removal_eq floor call.before call.block call.after
  exact ⟨call, hread, hkey, head, lead, trail, tail, hbefore, hafter, hmargins, hrange⟩

/-- Every call with the key that is read is removed. -/
theorem exists_range_of_mem_calls {constructor key content : List Char} {call : Call}
    (h : call ∈ calls constructor (blankComments content)) (hkey : call.hasKey key = true) :
    ∃ range ∈ removals constructor key content, range.start ≤ byteLength call.before ∧
      byteLength call.before + byteLength call.block ≤ range.stop := by
  obtain ⟨floor, hrange⟩ := exists_mem_rangesOf 0 (List.mem_filter.mpr ⟨h, hkey⟩)
  rw [← removals_eq_rangesOf] at hrange
  obtain ⟨head, lead, trail, tail, hbefore, -, -, -, heq⟩ :=
    removal_eq floor call.before call.block call.after
  refine ⟨_, hrange, ?_, ?_⟩
  · rw [heq, hbefore, byteLength_append]
    exact Nat.le_add_right _ _
  · rw [heq]
    exact Nat.le_add_right _ _

/-! ### Cutting ranges out of a text -/

/-- Whether the character at an offset is cut out. -/
def isCut (ranges : List Removal) (offset : Nat) : Bool :=
  ranges.any fun range ↦ range.start ≤ offset && offset < range.stop

theorem isCut_iff {ranges : List Removal} {offset : Nat} :
    isCut ranges offset = true ↔ ∃ range ∈ ranges, range.start ≤ offset ∧ offset < range.stop := by
  simp [isCut]

theorem cut_cons (ranges : List Removal) (offset : Nat) (c : Char) (text : List Char) :
    cut ranges offset (c :: text) =
      if isCut ranges offset then cut ranges (offset + c.utf8Size) text
      else c :: cut ranges (offset + c.utf8Size) text :=
  rfl

theorem cut_append (ranges : List Removal) (offset : Nat) (first second : List Char) :
    cut ranges offset (first ++ second) =
      cut ranges offset first ++ cut ranges (offset + byteLength first) second := by
  induction first generalizing offset with
  | nil => rfl
  | cons c first ih =>
    rw [List.cons_append, cut_cons, cut_cons, ih, byteLength_cons, ← Nat.add_assoc]
    split_ifs <;> rfl

@[simp] theorem cut_no_ranges (offset : Nat) (text : List Char) : cut [] offset text = text := by
  induction text generalizing offset with
  | nil => rfl
  | cons c text ih => rw [cut_cons, if_neg (by simp [isCut]), ih]

end CalculatorCatalog.Edit
