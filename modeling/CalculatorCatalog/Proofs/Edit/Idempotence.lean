import CalculatorCatalog.Proofs.Edit.Ranges

/-!
# Removing blocks twice

A second removal is expected to find nothing. Every call with the key that the first one reads is
removed, so what the second one finds has not been read before: either no such call stood at that
place of the source, because the cut has joined its parts or has opened a comment around it, or
another call began before it in the source and hid it from the search, and that call is gone.
`BroughtAbout` says this of a call of the result, and `removeBlocks_twice_iff` that the second
removal changes nothing exactly if there is no call of this kind with the key.

Such calls exist: `removeBlocks_twice_ne` is a block that is followed by a comment over two lines.
The line break inside the comment counts as the end of the line of the block, the first half of the
comment is removed along with the block, and what the second half holds becomes code.
-/

set_option autoImplicit false
set_option relaxedAutoImplicit false

namespace CalculatorCatalog.Edit

open CalculatorCatalog.Text

/-- The calls with the key that a removal reads in a source. -/
def keyedCalls (constructor key content : List Char) : List Call :=
  (calls constructor (blankComments content)).filter (·.hasKey key)

/-- A call of a source whose comments are hidden stays where it is when ranges are cut out: its
place is not removed, and a call with the same text stands there afterwards. -/
structure Stays (constructor : List Char) (ranges : List Removal) (source : List Char)
    (old new : Call) : Prop where
  isCall : ∃ before rest, source = before ++ rest ∧ callAt? constructor before rest = some old
  kept : isCut ranges (byteLength old.before) = false
  place : byteLength (cut ranges 0 old.before) = byteLength new.before
  sameBlock : old.block = new.block
  sameInner : old.inner = new.inner

/-- A call that is read hides those that begin inside it. -/
def Call.Hides (other call : Call) : Prop :=
  other.before.length < call.before.length ∧
    call.before.length < other.before.length + other.block.length

/-- A call of the result that a removal has brought about: the source has no such call, or only
inside one that is read. -/
def BroughtAbout (constructor : List Char) (ranges : List Removal) (source : List Char)
    (new : Call) : Prop :=
  ∀ old, Stays constructor ranges source old new →
    ∃ other ∈ calls constructor source, other.Hides old

theorem removals_eq_nil_iff {constructor key content : List Char} :
    removals constructor key content = [] ↔ keyedCalls constructor key content = [] := by
  rw [removals_eq_rangesOf]
  change rangesOf 0 (keyedCalls constructor key content) = [] ↔ _
  cases keyedCalls constructor key content with
  | nil => exact iff_of_true rfl rfl
  | cons call list => exact iff_of_false (List.cons_ne_nil _ _) (List.cons_ne_nil _ _)

/-- A removal without ranges changes nothing. -/
theorem removeBlocks_eq_self_iff {constructor key content : String} :
    removeBlocks constructor key content = ⟨content, []⟩ ↔
      keyedCalls constructor.toList key.toList content.toList = [] := by
  rw [← removals_eq_nil_iff]
  constructor
  · intro h
    have hchanges := congrArg Edit.changes h
    exact List.map_eq_nil_iff.mp hchanges
  · intro h
    rw [removeBlocks]
    simp only [h, cut_no_ranges, List.map_nil, String.ofList_toList]

/-- A removal that lists no change makes none. -/
theorem removeBlocks_of_changes_eq_nil {constructor key content : String}
    (h : (removeBlocks constructor key content).changes = []) :
    (removeBlocks constructor key content).content = content := by
  have hnone : removals constructor.toList key.toList content.toList = [] :=
    List.map_eq_nil_iff.mp h
  simp only [removeBlocks, hnone, cut_no_ranges, String.ofList_toList]

/-- A call with the key that is not hidden does not stay. -/
theorem exists_hides_of_stays {constructor key content : List Char} {old new : Call}
    (hkey : new.hasKey key = true)
    (hstays : Stays constructor (removals constructor key content) (blankComments content)
      old new) :
    ∃ other ∈ calls constructor (blankComments content), other.Hides old := by
  obtain ⟨before, rest, hsource, hcall⟩ := hstays.isCall
  obtain ⟨hbefore, -, hblock, -⟩ := callAt?_eq_some hcall
  rcases mem_calls_or_covered hcall with hread | ⟨other, hother, hlow, hhigh⟩
  · have holdKey : old.hasKey key = true := by
      rwa [Call.hasKey, hstays.sameInner]
    rw [← hsource] at hread
    obtain ⟨range, hrange, hstart, hstop⟩ := exists_range_of_mem_calls hread holdKey
    have hpos : byteLength old.block ≠ 0 := fun h ↦ hblock (byteLength_eq_zero.mp h)
    have hcut : isCut (removals constructor key content) (byteLength old.before) = true :=
      isCut_iff.mpr ⟨range, hrange, hstart, by omega⟩
    rw [hstays.kept] at hcut
    cases hcut
  · rw [← hsource] at hother
    rw [← hbefore] at hlow hhigh
    exact ⟨other, hother, hlow, hhigh⟩

/-- A second removal changes nothing exactly if the first one has brought about no call with the
key. -/
theorem removeBlocks_twice_iff (constructor key content : String) :
    removeBlocks constructor key (removeBlocks constructor key content).content =
        ⟨(removeBlocks constructor key content).content, []⟩ ↔
      ¬∃ call ∈ keyedCalls constructor.toList key.toList
          (removeBlocks constructor key content).content.toList,
        BroughtAbout constructor.toList (removals constructor.toList key.toList content.toList)
          (blankComments content.toList) call := by
  rw [removeBlocks_eq_self_iff, List.eq_nil_iff_forall_not_mem]
  constructor
  · rintro hnone ⟨call, hcall, -⟩
    exact hnone call hcall
  · intro hnone call hcall
    have hkey : call.hasKey key.toList = true := (List.mem_filter.mp hcall).2
    apply hnone
    exact ⟨call, hcall, fun old hstays ↦ exists_hides_of_stays hkey hstays⟩

/-- The line break inside a comment that follows a block on its line ends that line for the search,
and the rest of the comment becomes code. -/
theorem removeBlocks_twice_ne :
    removeBlocks "Field" "a"
        (removeBlocks "Field" "a" "Field(key: 'a'), /* old:\nField(key: 'a'),\n*/\n").content ≠
      ⟨(removeBlocks "Field" "a" "Field(key: 'a'), /* old:\nField(key: 'a'),\n*/\n").content,
        []⟩ := by
  decide +kernel

end CalculatorCatalog.Edit
