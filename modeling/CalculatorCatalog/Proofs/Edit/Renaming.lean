import CalculatorCatalog.Edit.Categories
import CalculatorCatalog.Proofs.Json.Members
import CalculatorCatalog.Proofs.Text.Layout
import CalculatorCatalog.Proofs.Text.Offset
import CalculatorCatalog.Source

/-!
# Renaming categories

A category attribute is a word, a colon and a member of the namespace (`MemberAt`); all of it but
the name of the member is its head. The attributes that a renaming reads are those found from left
to right: a source is divided into `Mention`s, each with the text that is passed over before it, and
no attribute begins in a text that is passed over (`Leftmost`).

The namespace is any text at all, so it may hold further attributes, the word itself or names that
are renamed. Still the attributes of the new text are those of the old one under their new names
(`Leftmost.rename`): an attribute that begins in front of a head and reaches its name would have the
word twice, although the part of it before the namespace has a single `c`. With the fixed points of
the table this gives `renameCategories_exact`: nothing but listed names changes, every change is
reported, and a second renaming changes nothing.
-/

set_option autoImplicit false
set_option relaxedAutoImplicit false

namespace CalculatorCatalog.Edit

open CalculatorCatalog.Text

/-! ### Category attributes -/

/-- The part of a category attribute before the namespace: the word and a colon, each with white
space after it if need be. -/
inductive AttributeStart : List Char → Prop
  | mk {gap gap' : List Char} (blank : isBlank gap = true) (blank' : isBlank gap' = true) :
      AttributeStart ("category".toList ++ gap ++ ':' :: gap')

/-- The head of a category attribute: all of it up to the dot before the name. -/
inductive AttributeHead (namespaceName : List Char) : List Char → Prop
  | mk {start : List Char} (isStart : AttributeStart start) :
      AttributeHead namespaceName (start ++ (namespaceName ++ ['.']))

/-- A category attribute with the given head and name between the character before it and the text
after it. It begins where a word begins, and the name takes in all word characters that come. -/
structure MemberAt (namespaceName : List Char) (before : Option Char)
    (head name after : List Char) : Prop where
  beginsWord : isWordAt before = false
  isHead : AttributeHead namespaceName head
  isName : IsWord name
  endsWord : isWordAt after.head? = false

theorem isWord_category : IsWord "category".toList :=
  ⟨by decide, by decide⟩

/-- The member of a namespace is read with all word characters after the dot. -/
theorem memberName?_eq_some_iff {namespaceName text name after : List Char} :
    memberName? namespaceName text = some (name, after) ↔
      text = namespaceName ++ ['.'] ++ (name ++ after) ∧ IsWord name ∧
        isWordAt after.head? = false := by
  unfold memberName?
  constructor
  · intro h
    obtain ⟨afterNamespace, hnamespace, h⟩ := Option.bind_eq_some_iff.mp h
    obtain ⟨rest, hdot, h⟩ := Option.bind_eq_some_iff.mp h
    rw [afterWord?_eq_some_iff] at hnamespace hdot
    simp only at h
    split_ifs at h with hempty
    obtain ⟨rfl, rfl⟩ := Prod.mk.inj (Option.some.inj h)
    refine ⟨?_, ⟨fun hnil ↦ hempty (by rw [hnil]; rfl), List.all_takeWhile⟩, ?_⟩
    · rw [hnamespace, hdot, List.takeWhile_append_dropWhile, List.append_assoc]
    · cases hrest : rest.dropWhile isWordCharacter with
      | nil => rfl
      | cons c tail =>
        have hhead := List.head?_dropWhile_not isWordCharacter rest
        rw [hrest] at hhead
        simpa [isWordAt] using hhead
  · rintro ⟨rfl, hname, hafter⟩
    have hstop : ∀ c, after.head? = some c → isWordCharacter c = false := by
      intro c hc
      rw [hc] at hafter
      exact hafter
    have hnonempty : name.isEmpty = false := by simpa using hname.ne_nil
    rw [List.append_assoc, afterWord?_append, Option.bind_eq_bind, Option.bind_some,
      afterWord?_append, Option.bind_some, takeWhile_append_of_stop hname.word hstop,
      dropWhile_append_of_stop hname.word hstop]
    simp [hnonempty]

/-- Reading after white space succeeds where the reading does. -/
theorem afterWhite?_eq_some {α : Type} {reading : List Char → Option α} {text : List Char}
    {value : α} (h : afterWhite? reading text = some value) :
    ∃ gap rest, isBlank gap = true ∧ text = gap ++ rest ∧ reading rest = some value := by
  induction text with
  | nil => exact ⟨[], [], rfl, rfl, h⟩
  | cons c text ih =>
    rw [afterWhite?] at h
    split_ifs at h with hc
    · rw [Option.orElse_eq_orElse, Option.orElse_eq_or, Option.or_eq_some_iff] at h
      rcases h with h | ⟨-, h⟩
      · obtain ⟨gap, rest, hgap, rfl, hrest⟩ := ih h
        exact ⟨c :: gap, rest, by rw [isBlank, List.all_cons, hc]; exact hgap, rfl, hrest⟩
      · exact ⟨[], c :: text, rfl, rfl, h⟩
    · exact ⟨[], c :: text, rfl, rfl, h⟩

theorem exists_afterWhite?_append {α : Type} {reading : List Char → Option α}
    {gap rest : List Char} {value : α} (hgap : isBlank gap = true)
    (hrest : reading rest = some value) :
    ∃ value', afterWhite? reading (gap ++ rest) = some value' := by
  induction gap with
  | nil =>
    cases rest with
    | nil => exact ⟨value, hrest⟩
    | cons c rest =>
      rw [List.nil_append, afterWhite?, hrest]
      split_ifs with hc
      · cases afterWhite? reading rest with
        | none => exact ⟨value, rfl⟩
        | some first => exact ⟨first, rfl⟩
      · exact ⟨value, rfl⟩
  | cons c gap ih =>
    rw [isBlank, List.all_cons, Bool.and_eq_true] at hgap
    obtain ⟨value', hvalue'⟩ := ih hgap.2
    rw [List.cons_append, afterWhite?, if_pos hgap.1, hvalue']
    exact ⟨value', rfl⟩

/-- The white space before a text that is not all white space is determined, although the text may
begin with white space itself. -/
theorem gap_unique {gap gap' text rest rest' : List Char} {c : Char} (hgap : isBlank gap = true)
    (hgap' : isBlank gap' = true) (hc : isWhiteSpace c = false)
    (h : gap ++ (text ++ c :: rest) = gap' ++ (text ++ c :: rest')) : gap = gap' := by
  have hrun (tail : List Char) :
      (text ++ c :: tail).takeWhile isWhiteSpace = text.takeWhile isWhiteSpace := by
    rw [List.takeWhile_append]
    split_ifs with hall
    · rw [List.takeWhile_cons_of_neg (by rw [hc]; exact Bool.false_ne_true), List.append_nil,
        List.IsPrefix.eq_of_length (List.takeWhile_prefix _) hall]
    · rfl
  have hlead := congrArg (List.takeWhile isWhiteSpace) h
  rw [List.takeWhile_append_of_pos (List.all_eq_true.mp hgap),
    List.takeWhile_append_of_pos (List.all_eq_true.mp hgap'), hrun, hrun] at hlead
  exact List.append_cancel_right hlead

/-- What a renaming recognises is a category attribute. -/
theorem categoryMember_eq_some_iff {namespaceName text name after : List Char}
    {before : Option Char} :
    categoryMember namespaceName before text = some (name, after) ↔
      ∃ head, text = head ++ (name ++ after) ∧ MemberAt namespaceName before head name after := by
  unfold categoryMember afterBoundedWord?
  constructor
  · intro h
    obtain ⟨afterWord, hword, h⟩ := Option.bind_eq_some_iff.mp h
    obtain ⟨afterColon, hcolon, h⟩ := Option.bind_eq_some_iff.mp h
    obtain ⟨gap', rest, hgap', rfl, hrest⟩ := afterWhite?_eq_some h
    obtain ⟨rfl, hname, hafter⟩ := memberName?_eq_some_iff.mp hrest
    split_ifs at hword with hboundary
    rw [afterWord?_eq_some_iff] at hword
    obtain ⟨gap, hgap, rfl⟩ := (afterWord?_skipWhite_eq_some_iff (by decide)).mp hcolon
    refine ⟨_, ?_, ?_, .mk (.mk hgap hgap'), hname, hafter⟩
    · simp only [hword, List.append_assoc, List.cons_append, List.nil_append]
    · cases hbefore : isWordAt before with
      | false => rfl
      | true =>
        rw [isWordBoundary, hbefore, hword, isWord_category.isWordAt_head?] at hboundary
        cases hboundary
  · rintro ⟨head, rfl, hbefore, ⟨@⟨gap, gap', hgap, hgap'⟩⟩, hname, hafter⟩
    have htext : "category".toList ++ gap ++ ':' :: gap' ++ (namespaceName ++ ['.']) ++
        (name ++ after) = "category".toList ++ (gap ++ ':' ::
          (gap' ++ (namespaceName ++ ['.'] ++ (name ++ after)))) := by
      simp only [List.append_assoc, List.cons_append, List.nil_append]
    have hboundary (tail : List Char) :
        isWordBoundary before ("category".toList ++ tail).head? = true := by
      rw [isWordBoundary, hbefore, isWord_category.isWordAt_head?]
      rfl
    have hread : memberName? namespaceName (namespaceName ++ ['.'] ++ (name ++ after)) =
        some (name, after) :=
      memberName?_eq_some_iff.mpr ⟨rfl, hname, hafter⟩
    obtain ⟨found, hfound⟩ := exists_afterWhite?_append hgap' hread
    obtain ⟨other, rest, hother, hsplit, hrest⟩ := afterWhite?_eq_some hfound
    have hcolon : afterWord? [':'] (skipWhite (gap ++ ':' ::
        (gap' ++ (namespaceName ++ ['.'] ++ (name ++ after))))) =
        some (gap' ++ (namespaceName ++ ['.'] ++ (name ++ after))) :=
      (afterWord?_skipWhite_eq_some_iff (by decide)).mpr ⟨gap, hgap, rfl⟩
    rw [htext, if_pos (hboundary _), afterWord?_append, Option.bind_eq_bind, Option.bind_some,
      hcolon, Option.bind_some, hfound]
    -- The only reading after the colon is the one that the attribute itself gives.
    obtain ⟨name', after'⟩ := found
    obtain ⟨rfl, -, -⟩ := memberName?_eq_some_iff.mp hrest
    have hunique : gap' = other := by
      simp only [List.append_assoc, List.cons_append, List.nil_append] at hsplit
      exact gap_unique hgap' hother (by decide) hsplit
    rw [hunique, List.append_cancel_left_eq] at hsplit
    rw [← hsplit, hread] at hrest
    exact hrest.symm

/-! ### Mentions from left to right -/

/-- A category attribute of a source and the text that is passed over before it. -/
structure Mention where
  passed : List Char
  head : List Char
  name : List Char

/-- The mention under its new name. -/
def Mention.renamed (mention : Mention) : Mention :=
  { mention with name := newName mention.name }

/-- The source that consists of mentions and the text after them. -/
def sourceOf (tail : List Char) : List Mention → List Char
  | [] => tail
  | mention :: mentions =>
    mention.passed ++ (mention.head ++ (mention.name ++ sourceOf tail mentions))

/-- No category attribute begins in `passed` when `rest` comes after it. -/
def NoneBegins (namespaceName : List Char) (before : Option Char) (passed rest : List Char) :
    Prop :=
  ∀ first second head name after, passed = first ++ second → second ≠ [] →
    second ++ rest = head ++ (name ++ after) →
      ¬MemberAt namespaceName (lastOr before first) head name after

/-- The mentions are the category attributes that are found from left to right, without overlaps,
in a text that ends in `tail`. -/
def Leftmost (namespaceName tail : List Char) : Option Char → List Mention → Prop
  | before, [] => NoneBegins namespaceName before tail []
  | before, mention :: mentions =>
    NoneBegins namespaceName before mention.passed
        (mention.head ++ (mention.name ++ sourceOf tail mentions)) ∧
      MemberAt namespaceName (lastOr before mention.passed) mention.head mention.name
        (sourceOf tail mentions) ∧
      Leftmost namespaceName tail
        (lastOr before (mention.passed ++ (mention.head ++ mention.name))) mentions

variable {namespaceName tail : List Char}

theorem noneBegins_iff_declines {before : Option Char} {passed rest : List Char} :
    NoneBegins namespaceName before passed rest ↔
      Declines (categoryMember namespaceName) before passed rest := by
  induction passed generalizing before with
  | nil =>
    refine iff_of_true ?_ trivial
    intro first second head name after hsplit hsecond
    exact absurd (List.append_eq_nil_iff.mp hsplit.symm).2 hsecond
  | cons c passed ih =>
    rw [Declines, ← ih]
    constructor
    · intro hnone
      constructor
      · cases hread : categoryMember namespaceName before (c :: (passed ++ rest)) with
        | none => rfl
        | some found =>
          obtain ⟨head, htext, hmember⟩ := categoryMember_eq_some_iff.mp hread
          exact absurd hmember (hnone [] (c :: passed) head _ _ rfl (List.cons_ne_nil _ _) htext)
      · intro first second head name after hsplit hsecond htext
        exact hnone (c :: first) second head name after (by rw [hsplit]; rfl) hsecond htext
    · rintro ⟨hdeclined, hlater⟩ first second head name after hsplit hsecond htext hmember
      cases first with
      | nil =>
        obtain rfl : c :: passed = second := hsplit
        have hread := categoryMember_eq_some_iff.mpr ⟨head, htext, hmember⟩
        rw [lastOr_nil, List.cons_append, hdeclined] at hread
        cases hread
      | cons d first =>
        obtain ⟨rfl, rfl⟩ := List.cons.inj hsplit
        exact hlater first second head name after rfl hsecond htext hmember

/-- Every text is divided into mentions and what is passed over. -/
theorem exists_leftmost (namespaceName : List Char) (before : Option Char) (text : List Char) :
    ∃ mentions tail, Leftmost namespaceName tail before mentions ∧
      sourceOf tail mentions = text := by
  induction hlength : text.length using Nat.strongRecOn generalizing before text with
  | ind length ih =>
    subst hlength
    cases text with
    | nil =>
      refine ⟨[], [], ?_, rfl⟩
      exact noneBegins_iff_declines.mpr trivial
    | cons c text =>
      cases hread : categoryMember namespaceName before (c :: text) with
      | none =>
        obtain ⟨mentions, tail, hmentions, rfl⟩ := ih text.length (by simp) (some c) text rfl
        cases mentions with
        | nil =>
          refine ⟨[], c :: tail, ?_, rfl⟩
          refine noneBegins_iff_declines.mpr ⟨?_, noneBegins_iff_declines.mp hmentions⟩
          rwa [List.append_nil]
        | cons mention mentions =>
          obtain ⟨hpassed, hmember, hrest⟩ := hmentions
          refine ⟨{ mention with passed := c :: mention.passed } :: mentions, tail, ⟨?_, ?_⟩, rfl⟩
          · exact noneBegins_iff_declines.mpr ⟨hread, noneBegins_iff_declines.mp hpassed⟩
          · exact ⟨hmember, hrest⟩
      | some found =>
        obtain ⟨name, after⟩ := found
        obtain ⟨head, htext, hmember⟩ := categoryMember_eq_some_iff.mp hread
        have hshorter : after.length < (c :: text).length := by
          have hname : name.length ≠ 0 := by simpa using hmember.isName.ne_nil
          rw [htext, List.length_append, List.length_append]
          omega
        obtain ⟨mentions, tail, hmentions, rfl⟩ :=
          ih after.length hshorter (lastOr before (head ++ name)) after rfl
        refine ⟨⟨[], head, name⟩ :: mentions, tail, ⟨?_, hmember, hmentions⟩, htext.symm⟩
        exact noneBegins_iff_declines.mpr trivial

/-- Nothing is recognised after the last mention. -/
theorem piecesFrom_tail {before : Option Char} (h : Leftmost namespaceName tail before []) :
    piecesFrom (categoryMember namespaceName) 0 before tail = tail.map .plain := by
  have hpieces := piecesFrom_append_of_declines (noneBegins_iff_declines.mp h)
  rwa [List.append_nil, piecesFrom, List.append_nil] at hpieces

/-- The first mention is recognised after the text that is passed over. -/
theorem piecesFrom_mention {before : Option Char} {mention : Mention} {mentions : List Mention}
    (h : Leftmost namespaceName tail before (mention :: mentions)) :
    piecesFrom (categoryMember namespaceName) 0 before (sourceOf tail (mention :: mentions)) =
      mention.passed.map .plain ++ .found (mention.head ++ mention.name) mention.name ::
        piecesFrom (categoryMember namespaceName) 0
          (lastOr before (mention.passed ++ (mention.head ++ mention.name)))
          (sourceOf tail mentions) := by
  obtain ⟨hpassed, hmember, -⟩ := h
  have hread : mention.head ++ mention.name ≠ [] := by simp [hmember.isName.ne_nil]
  have hfound : categoryMember namespaceName (lastOr before mention.passed)
      (mention.head ++ mention.name ++ sourceOf tail mentions) =
        some (mention.name, sourceOf tail mentions) :=
    categoryMember_eq_some_iff.mpr ⟨mention.head, by rw [List.append_assoc], hmember⟩
  rw [sourceOf, piecesFrom_append_of_declines (noneBegins_iff_declines.mp hpassed),
    ← List.append_assoc mention.head, piecesFrom_of_found hread hfound, ← lastOr_append]

/-! ### New names -/

/-- What a name is called after a renaming: as the table says or, if the name is not listed, as
before. -/
def IsNewName (old new : List Char) : Prop :=
  (String.ofList old, String.ofList new) ∈ Vocabulary.categoryRenames ∨
    new = old ∧ ∀ target, (String.ofList old, target) ∉ Vocabulary.categoryRenames

theorem isNewName_newName (name : List Char) : IsNewName name (newName name) := by
  rw [newName, Vocabulary.renamedCategory]
  cases hlisted : Json.member? (String.ofList name) Vocabulary.categoryRenames with
  | none =>
    right
    exact ⟨String.toList_ofList, fun target hmem ↦
      Json.member?_eq_none_iff.mp hlisted (List.mem_map_of_mem (f := (·.1)) hmem)⟩
  | some target =>
    left
    rw [Option.getD_some, String.ofList_toList]
    exact Json.mem_of_member? hlisted

/-- New names are not renamed again. -/
theorem newName_newName (name : List Char) : newName (newName name) = newName name := by
  rcases isNewName_newName name with hlisted | ⟨hsame, -⟩
  · have hfixed := Vocabulary.categoryRenames_fixed _ hlisted
    rw [newName, Vocabulary.renamedCategory, hfixed, Option.getD_none, String.toList_ofList]
  · rw [hsame, hsame]

theorem isWord_newName {name : List Char} (h : IsWord name) : IsWord (newName name) := by
  rcases isNewName_newName name with hlisted | ⟨hsame, -⟩
  · have htargets : ∀ entry ∈ Vocabulary.categoryRenames,
        entry.2.toList ≠ [] ∧ entry.2.toList.all isWordCharacter = true := by
      decide
    obtain ⟨hne, hword⟩ := htargets _ hlisted
    rw [String.toList_ofList] at hne hword
    exact ⟨hne, hword⟩
  · rwa [hsame]

/-! ### Mentions of the new text -/

/-- The part of an attribute before the namespace has one `c`, the one that it begins with. -/
theorem AttributeStart.exists_cons {start : List Char} (h : AttributeStart start) :
    ∃ rest, start = 'c' :: rest ∧ 'c' ∉ rest := by
  obtain @⟨gap, gap', hgap, hgap'⟩ := h
  refine ⟨"ategory".toList ++ gap ++ ':' :: gap', rfl, ?_⟩
  have hwhite : isWhiteSpace 'c' = false := by decide
  simp [notMem_gap hgap hwhite, notMem_gap hgap' hwhite]

theorem AttributeHead.exists_cons {head : List Char} (h : AttributeHead namespaceName head) :
    ∃ c rest, head = c :: rest := by
  obtain ⟨hstart⟩ := h
  obtain ⟨rest, rfl, -⟩ := hstart.exists_cons
  exact ⟨'c', _, rfl⟩

/-- An attribute that begins before the head of another one has its own head end inside that
head. -/
theorem AttributeHead.length_lt {second head head' rest after : List Char}
    (hsecond : second ≠ []) (hhead : AttributeHead namespaceName head)
    (hhead' : AttributeHead namespaceName head')
    (h : second ++ head ++ rest = head' ++ after) : head'.length < (second ++ head).length := by
  obtain ⟨hstart⟩ := hhead
  obtain ⟨hstart'⟩ := hhead'
  rename_i start start'
  by_contra hle
  have hlong : second ++ start <+: start' ++ (namespaceName ++ ['.']) ++ after := by
    rw [← h]
    simp only [List.append_assoc, List.prefix_append_right_inj, List.prefix_append]
  have hshort : start' <+: start' ++ (namespaceName ++ ['.']) ++ after := by
    rw [List.append_assoc]
    exact List.prefix_append _ _
  have hprefix : second ++ start <+: start' := by
    refine List.prefix_of_prefix_length_le hlong hshort ?_
    simp only [List.length_append] at hle ⊢
    omega
  obtain ⟨beyond, hbeyond⟩ := hprefix
  obtain ⟨rest, rfl, -⟩ := hstart.exists_cons
  obtain ⟨rest', rfl, hnotMem⟩ := hstart'.exists_cons
  cases second with
  | nil => exact hsecond rfl
  | cons c second =>
    apply hnotMem
    rw [← (List.cons.inj hbeyond).2]
    simp

theorem isWordAt_lastOr_congr {before before' : Option Char}
    (h : isWordAt before = isWordAt before') (passed : List Char) :
    isWordAt (lastOr before passed) = isWordAt (lastOr before' passed) := by
  cases passed with
  | nil => exact h
  | cons c passed => rfl

/-- Of the character before the text that is passed over only its kind matters. -/
theorem NoneBegins.congr_before {before before' : Option Char} {passed rest : List Char}
    (hbefore : isWordAt before = isWordAt before')
    (h : NoneBegins namespaceName before passed rest) :
    NoneBegins namespaceName before' passed rest := by
  intro first second head name after hsplit hsecond htext hmember
  refine h first second head name after hsplit hsecond htext { hmember with beginsWord := ?_ }
  rw [isWordAt_lastOr_congr hbefore]
  exact hmember.beginsWord

/-- Whether an attribute begins before a head does not depend on what comes after the head. -/
theorem NoneBegins.congr_after {before : Option Char} {passed head rest rest' : List Char}
    (hhead : AttributeHead namespaceName head)
    (h : NoneBegins namespaceName before passed (head ++ rest)) :
    NoneBegins namespaceName before passed (head ++ rest') := by
  intro first second head' name after hsplit hsecond htext hmember
  rw [← List.append_assoc] at htext
  have hshorter := hhead.length_lt hsecond hmember.isHead htext
  obtain ⟨middle, hmiddle, hafter⟩ :=
    List.append_eq_append_iff.mp htext |>.resolve_left (by
      rintro ⟨middle, hmiddle, -⟩
      rw [hmiddle, List.length_append] at hshorter
      omega)
  -- What is left of the head ends in a dot, so the name ends before that.
  have hdot : middle.getLast? = some '.' := by
    have hlast := congrArg List.getLast? hmiddle
    obtain ⟨hstart⟩ := hhead
    have hne : middle ≠ [] := by
      rintro rfl
      rw [hmiddle, List.append_nil] at hshorter
      omega
    rw [List.getLast?_append_of_ne_nil _ hne] at hlast
    rw [← hlast]
    simp
  have hnotMem : '.' ∉ name := hmember.isName.notMem (by decide)
  obtain ⟨left, rfl, hleft⟩ :=
    List.append_eq_append_iff.mp hafter |>.resolve_right (by
      rintro ⟨beyond, rfl, -⟩
      exact hnotMem (List.mem_append_left _ (List.mem_of_getLast? hdot)))
  have hne : left ≠ [] := by
    rintro rfl
    rw [List.append_nil] at hdot
    exact hnotMem (List.mem_of_getLast? hdot)
  refine h first second head' name (left ++ rest) hsplit hsecond ?_ ?_
  · rw [← List.append_assoc, hmiddle]
    simp only [List.append_assoc]
  · refine { hmember with endsWord := ?_ }
    have hend := hmember.endsWord
    rw [hleft] at hend
    cases left with
    | nil => exact absurd rfl hne
    | cons c left => exact hend

theorem isWordAt_lastOr_word (before : Option Char) {word : List Char} (h : IsWord word) :
    isWordAt (lastOr before word) = true := by
  obtain ⟨c, rest, rfl, hc, hrest⟩ := h.exists_cons
  clear h
  induction rest generalizing c before with
  | nil => exact hc
  | cons d rest ih =>
    rw [List.all_cons, Bool.and_eq_true] at hrest
    exact ih (some c) d hrest.1 hrest.2

/-- New names do not touch the beginning of what comes after a mention. -/
theorem head?_sourceOf_rename {before : Option Char} {mentions : List Mention}
    (h : Leftmost namespaceName tail before mentions) :
    (sourceOf tail (mentions.map Mention.renamed)).head? = (sourceOf tail mentions).head? := by
  cases mentions with
  | nil => rfl
  | cons mention mentions =>
    obtain ⟨c, rest, hhead⟩ := h.2.1.isHead.exists_cons
    cases hpassed : mention.passed <;> simp [sourceOf, Mention.renamed, hpassed, hhead]

/-- The mentions of the new text are those of the old one under their new names. -/
theorem Leftmost.rename {before before' : Option Char} {mentions : List Mention}
    (hbefore : isWordAt before = isWordAt before')
    (h : Leftmost namespaceName tail before mentions) :
    Leftmost namespaceName tail before' (mentions.map Mention.renamed) := by
  induction mentions generalizing before before' with
  | nil => exact NoneBegins.congr_before hbefore h
  | cons mention mentions ih =>
    obtain ⟨hpassed, hmember, hrest⟩ := h
    have hafter : isWordAt (sourceOf tail (mentions.map Mention.renamed)).head? =
        isWordAt (sourceOf tail mentions).head? :=
      congrArg isWordAt (head?_sourceOf_rename hrest)
    refine ⟨(hpassed.congr_before hbefore).congr_after hmember.isHead, ?_, ih ?_ hrest⟩
    · refine ⟨?_, hmember.isHead, isWord_newName hmember.isName, ?_⟩
      · exact (isWordAt_lastOr_congr hbefore _).symm.trans hmember.beginsWord
      · exact hafter.trans hmember.endsWord
    · rw [lastOr_append, lastOr_append, lastOr_append, lastOr_append,
        isWordAt_lastOr_word _ hmember.isName]
      exact (isWordAt_lastOr_word _ (isWord_newName hmember.isName)).symm

/-! ### What a renaming does -/

/-- The changes that renaming makes for mentions of a source which come after `before`: one for each
name that changes, with the line on which the name stands. -/
def changesOf (source before : List Char) : List Mention → List Change
  | [] => []
  | mention :: mentions =>
    let start := before ++ (mention.passed ++ mention.head)
    let later := changesOf source (start ++ mention.name) mentions
    if newName mention.name = mention.name then later
    else
      .categoryRenamed (Source.lineNumber source (byteLength start)) (String.ofList mention.name)
        (String.ofList (newName mention.name)) :: later

theorem renames_append_plain (line : Nat) (passed : List Char)
    (pieces : List (Piece (List Char))) :
    renames line (passed.map .plain ++ pieces) = renames (line + passed.count '\n') pieces := by
  induction passed generalizing line with
  | nil => rfl
  | cons c passed ih =>
    rw [List.map_cons, List.cons_append, renames, ih, List.count_cons]
    by_cases hc : c = '\n'
    · simp [hc, Nat.add_comm, Nat.add_left_comm]
    · simp [hc]

/-- The changes of a renaming are those of the mentions it reads. -/
theorem renames_eq_changesOf {before : Option Char} {mentions : List Mention}
    (h : Leftmost namespaceName tail before mentions) (passed : List Char) :
    renames (1 + passed.count '\n')
        (piecesFrom (categoryMember namespaceName) 0 before (sourceOf tail mentions)) =
      changesOf (passed ++ sourceOf tail mentions) passed mentions := by
  induction mentions generalizing before passed with
  | nil =>
    have htail := renames_append_plain (1 + passed.count '\n') tail []
    rw [List.append_nil] at htail
    rw [sourceOf, piecesFrom_tail h, htail]
    rfl
  | cons mention mentions ih =>
    have hname : mention.name.count '\n' = 0 :=
      List.count_eq_zero.mpr (h.2.1.isName.notMem (by decide))
    have hsource : passed ++ sourceOf tail (mention :: mentions) =
        passed ++ (mention.passed ++ mention.head) ++ (mention.name ++ sourceOf tail mentions) := by
      simp only [sourceOf, List.append_assoc]
    have hline : Source.lineNumber (passed ++ sourceOf tail (mention :: mentions))
          (byteLength (passed ++ (mention.passed ++ mention.head))) =
        1 + passed.count '\n' + mention.passed.count '\n' +
          (mention.head ++ mention.name).count '\n' := by
      rw [hsource, Source.lineNumber, takeBytes_byteLength_append]
      simp only [List.count_append, hname]
      omega
    have hlater := ih h.2.2 (passed ++ (mention.passed ++ mention.head) ++ mention.name)
    have hcount : (passed ++ (mention.passed ++ mention.head) ++ mention.name).count '\n' =
        passed.count '\n' + mention.passed.count '\n' +
          (mention.head ++ mention.name).count '\n' := by
      simp only [List.count_append]
      omega
    rw [hcount, ← Nat.add_assoc, ← Nat.add_assoc, List.append_assoc _ mention.name, ← hsource]
      at hlater
    rw [piecesFrom_mention h, renames_append_plain, renames, changesOf]
    simp only [hline, hlater]

theorem flatMap_renamedPiece {before : Option Char} {mentions : List Mention}
    (h : Leftmost namespaceName tail before mentions) :
    (piecesFrom (categoryMember namespaceName) 0 before (sourceOf tail mentions)).flatMap
        renamedPiece = sourceOf tail (mentions.map Mention.renamed) := by
  have hplain (text : List Char) :
      (text.map Piece.plain).flatMap (renamedPiece) = text := by
    rw [List.flatMap_map]
    exact List.flatMap_singleton' text
  induction mentions generalizing before with
  | nil => rw [sourceOf, piecesFrom_tail h, hplain, List.map_nil, sourceOf]
  | cons mention mentions ih =>
    have htaken : (mention.head ++ mention.name).take
        ((mention.head ++ mention.name).length - mention.name.length) = mention.head := by
      rw [List.length_append, Nat.add_sub_cancel, List.take_left]
    rw [piecesFrom_mention h, List.flatMap_append, hplain, List.flatMap_cons, ih h.2.2,
      renamedPiece, htaken, List.map_cons, sourceOf, List.append_assoc]
    rfl

/-- What a renaming makes of a text that is divided into mentions. -/
theorem renameCategories_eq {namespaceName content : String} {mentions : List Mention}
    (h : Leftmost namespaceName.toList tail none mentions)
    (hcontent : content.toList = sourceOf tail mentions) :
    renameCategories namespaceName content =
      ⟨String.ofList (sourceOf tail (mentions.map Mention.renamed)),
        changesOf content.toList [] mentions⟩ := by
  have hchanges := renames_eq_changesOf h []
  rw [List.nil_append, List.count_nil] at hchanges
  rw [renameCategories, hcontent, pieces, flatMap_renamedPiece h, hchanges]

theorem changesOf_renamed (source before : List Char) (mentions : List Mention) :
    changesOf source before (mentions.map Mention.renamed) = [] := by
  induction mentions generalizing before with
  | nil => rfl
  | cons mention mentions ih =>
    simp only [List.map_cons, changesOf, Mention.renamed, newName_newName, if_true]
    exact ih _

/-- Where no change is listed, every mention has its new name already. -/
theorem map_renamed_of_changesOf_eq_nil {source before : List Char} {mentions : List Mention}
    (h : changesOf source before mentions = []) : mentions.map Mention.renamed = mentions := by
  induction mentions generalizing before with
  | nil => rfl
  | cons mention mentions ih =>
    rw [changesOf] at h
    split_ifs at h with hname
    rw [List.map_cons, ih h, Mention.renamed, hname]

/-- A renaming that lists no change makes none. -/
theorem renameCategories_of_changes_eq_nil {namespaceName content : String}
    (h : (renameCategories namespaceName content).changes = []) :
    (renameCategories namespaceName content).content = content := by
  obtain ⟨mentions, tail, hmentions, hcontent⟩ :=
    exists_leftmost namespaceName.toList none content.toList
  rw [renameCategories_eq hmentions hcontent.symm] at h ⊢
  simp only [map_renamed_of_changesOf_eq_nil h, hcontent, String.ofList_toList]

theorem renamed_renamed (mention : Mention) : mention.renamed.renamed = mention.renamed := by
  simp only [Mention.renamed, newName_newName]

/-- A second renaming changes nothing and lists nothing. -/
theorem renameCategories_twice (namespaceName content : String) :
    renameCategories namespaceName (renameCategories namespaceName content).content =
      ⟨(renameCategories namespaceName content).content, []⟩ := by
  obtain ⟨mentions, tail, hmentions, hcontent⟩ :=
    exists_leftmost namespaceName.toList none content.toList
  have htwice := renameCategories_eq (hmentions.rename rfl) String.toList_ofList
  have hsame : (mentions.map Mention.renamed).map Mention.renamed =
      mentions.map Mention.renamed := by
    rw [List.map_map]
    exact List.map_congr_left fun mention _ ↦ renamed_renamed mention
  rw [renameCategories_eq hmentions hcontent.symm, htwice, changesOf_renamed, hsame]

/-- A renaming replaces the listed names of the category attributes that are found from left to
right, reports each with its line, and leaves all other text as it is; a second one changes
nothing. -/
theorem renameCategories_exact (namespaceName content : String) :
    ∃ mentions tail,
      Leftmost namespaceName.toList tail none mentions ∧
      content.toList = sourceOf tail mentions ∧
      (∀ mention ∈ mentions, IsNewName mention.name mention.renamed.name) ∧
      renameCategories namespaceName content =
        ⟨String.ofList (sourceOf tail (mentions.map Mention.renamed)),
          changesOf content.toList [] mentions⟩ ∧
      renameCategories namespaceName (renameCategories namespaceName content).content =
        ⟨(renameCategories namespaceName content).content, []⟩ := by
  obtain ⟨mentions, tail, hmentions, hcontent⟩ :=
    exists_leftmost namespaceName.toList none content.toList
  exact ⟨mentions, tail, hmentions, hcontent.symm, fun mention _ ↦ isNewName_newName mention.name,
    renameCategories_eq hmentions hcontent.symm, renameCategories_twice namespaceName content⟩

end CalculatorCatalog.Edit
