import CalculatorCatalog.Files.Pattern
import CalculatorCatalog.Proofs.Files.Addresses

/-!
# What patterns describe

A pattern without wildcards describes only the text that it was read from (`eq_of_literal?`), and
that text has no wildcard.

Matching computes the answers for a text and for all of its ends at once; the answers for an end are
those of the text without the first one (`describedEnds_cons`), so that the pass over a part can be
read as an equation about one text. From these equations follows that a pattern that begins with a
star describes a text together with the directories before it (`isMatch_append_of_star`).
-/

set_option autoImplicit false
set_option relaxedAutoImplicit false

namespace CalculatorCatalog.Files.Pattern

/-! ### Patterns without wildcards -/

/-- A character that has a meaning of its own in patterns. -/
def IsSpecial (c : Char) : Prop :=
  c = '?' ∨ c = '*' ∨ c = '['

theorem eq_of_readStars {position length : Nat} {before : Option Char} {text : List Char}
    {part : PatternPart} (h : readStars position before text = .ok (part, length)) :
    part = .anySequence ∨ part = .anyDirectories := by
  unfold readStars at h
  split at h
  · cases h
    exact .inl rfl
  · split_ifs at h
    split at h
    · cases h
      exact .inr rfl
    · cases h
      exact .inr rfl
    · cases h
  · cases h

theorem readClass?_ne_character {text : List Char} {c : Char} {length : Nat} :
    readClass? text ≠ some (.character c, length) := by
  unfold readClass?
  split <;> simp

/-- Only a character without a meaning of its own is read as one that stands for itself. -/
theorem of_readPart_eq_character {position length : Nat} {before : Option Char} {c c' : Char}
    {text : List Char} (h : readPart position before c text = .ok (.character c', length)) :
    c' = c ∧ length = 0 ∧ ¬IsSpecial c := by
  unfold readPart at h
  split_ifs at h with hquestion hstar hbracket
  · cases h
  · obtain hpart | hpart := eq_of_readStars h <;> cases hpart
  · split at h
    · rename_i part hclass
      rw [Except.ok.inj h] at hclass
      exact absurd hclass readClass?_ne_character
    · cases h
  · cases h
    refine ⟨rfl, rfl, ?_⟩
    rintro (hc | hc | hc)
    · exact hquestion hc
    · exact hstar hc
    · exact hbracket hc

theorem eq_of_mapM_character? {position : Nat} {before : Option Char} {text characters : List Char}
    {pattern : Pattern} (hparse : parseFrom 0 position before text = .ok pattern)
    (h : pattern.mapM PatternPart.character? = some characters) :
    characters = text ∧ ∀ c ∈ text, ¬IsSpecial c := by
  induction text generalizing position before pattern characters with
  | nil =>
    obtain rfl := Except.ok.inj hparse
    obtain rfl : characters = [] := by simpa using h.symm
    exact ⟨rfl, by simp⟩
  | cons c text ih =>
    rw [parseFrom, bind_eq_ok_iff] at hparse
    obtain ⟨⟨part, length⟩, hpart, hparse⟩ := hparse
    obtain ⟨parts, hparts, hparse⟩ := bind_eq_ok_iff.mp hparse
    obtain rfl := Except.ok.inj hparse
    rw [List.mapM_cons, Option.bind_eq_bind, Option.bind_eq_some_iff] at h
    obtain ⟨c', hcharacter, h⟩ := h
    obtain ⟨rest, hrest, h⟩ := Option.bind_eq_some_iff.mp h
    obtain rfl := Option.some.inj h
    cases part with
    | character c'' =>
      obtain rfl := Option.some.inj hcharacter
      obtain ⟨rfl, rfl, hspecial⟩ := of_readPart_eq_character hpart
      obtain ⟨rfl, hall⟩ := ih hparts hrest
      exact ⟨rfl, List.forall_mem_cons.mpr ⟨hspecial, hall⟩⟩
    | _ => cases hcharacter

/-- A pattern without wildcards describes the text that it was read from. -/
theorem eq_of_literal? {text name : String} {pattern : Pattern} (hparse : parse text = .ok pattern)
    (h : literal? pattern = some name) : name = text ∧ ∀ c ∈ text.toList, ¬IsSpecial c := by
  obtain ⟨characters, hcharacters, rfl⟩ := Option.map_eq_some_iff.mp h
  obtain ⟨rfl, hall⟩ := eq_of_mapM_character? hparse hcharacters
  exact ⟨String.ofList_toList, hall⟩

/-! ### Answers -/

theorem exists_describedEnds_cons (c : Char) (text : List Char) (pattern : Pattern) :
    ∃ answer, describedEnds (c :: text) pattern = answer :: describedEnds text pattern := by
  induction pattern with
  | nil => exact ⟨false, rfl⟩
  | cons part parts ih =>
    obtain ⟨answer, hanswer⟩ := ih
    cases part <;>
    · rw [describedEnds, describedEnds, hanswer]
      exact ⟨_, rfl⟩

/-- The answers for the end of a text come after the answer for the whole. -/
theorem describedEnds_cons (c : Char) (text : List Char) (pattern : Pattern) :
    describedEnds (c :: text) pattern =
      isMatch pattern (c :: text) :: describedEnds text pattern := by
  obtain ⟨answer, hanswer⟩ := exists_describedEnds_cons c text pattern
  rw [isMatch, hanswer]
  rfl

theorem describedEnds_nil (pattern : Pattern) :
    describedEnds [] pattern = [isMatch pattern []] := by
  have hone : ∃ answer, describedEnds [] pattern = [answer] := by
    induction pattern with
    | nil => exact ⟨true, rfl⟩
    | cons part parts ih =>
      obtain ⟨answer, hanswer⟩ := ih
      cases part <;>
      · rw [describedEnds, hanswer]
        exact ⟨_, rfl⟩
  obtain ⟨answer, hanswer⟩ := hone
  rw [isMatch, hanswer]
  rfl

theorem isMatch_anySequence_cons (parts : Pattern) (c : Char) (text : List Char) :
    isMatch (.anySequence :: parts) (c :: text) =
      (isMatch parts (c :: text) || isMatch (.anySequence :: parts) text) := by
  rw [isMatch, describedEnds, describedEnds_cons]
  rfl

/-- Whether a pattern describes what follows some slash of a text; it may describe nothing, at the
end of the text. -/
def matchesAfterSlash (parts : Pattern) (text : List Char) : Bool :=
  (endsAfterSlash text (describedEnds text parts)).headD false

theorem matchesAfterSlash_nil (parts : Pattern) :
    matchesAfterSlash parts [] = isMatch parts [] := by
  rw [matchesAfterSlash, describedEnds_nil]
  rfl

theorem matchesAfterSlash_cons (parts : Pattern) (c : Char) (text : List Char) :
    matchesAfterSlash parts (c :: text) =
      (c == '/' && isMatch parts text || matchesAfterSlash parts text) := by
  rw [matchesAfterSlash, describedEnds_cons]
  rfl

theorem isMatch_anyDirectories (parts : Pattern) (text : List Char) :
    isMatch (.anyDirectories :: parts) text =
      (isMatch parts text || matchesAfterSlash parts text) := by
  rw [matchesAfterSlash]
  cases text with
  | nil =>
    rw [isMatch, describedEnds, describedEnds_nil]
    rfl
  | cons c text =>
    rw [isMatch, describedEnds, describedEnds_cons]
    rfl

/-! ### Patterns that begin with a star -/

theorem exists_of_parse_star {text : String} {pattern : Pattern} (hparse : parse text = .ok pattern)
    (h : text.toList.head? = some '*') :
    ∃ parts, pattern = .anySequence :: parts ∨ pattern = .anyDirectories :: parts := by
  obtain ⟨rest, hrest⟩ := List.head?_eq_some_iff.mp h
  rw [parse, hrest, parseFrom, bind_eq_ok_iff] at hparse
  obtain ⟨⟨part, length⟩, hpart, hparse⟩ := hparse
  obtain ⟨parts, -, hparse⟩ := bind_eq_ok_iff.mp hparse
  obtain rfl := Except.ok.inj hparse
  rw [readPart, if_neg (by decide), if_pos rfl] at hpart
  obtain rfl | rfl := eq_of_readStars hpart
  · exact ⟨parts, .inl rfl⟩
  · exact ⟨parts, .inr rfl⟩

theorem isMatch_anySequence_append {parts : Pattern} {text : List Char}
    (h : isMatch (.anySequence :: parts) text = true) (before : List Char) :
    isMatch (.anySequence :: parts) (before ++ text) = true := by
  induction before with
  | nil => exact h
  | cons c before ih => rw [List.cons_append, isMatch_anySequence_cons, ih, Bool.or_true]

theorem matchesAfterSlash_append {parts : Pattern} {text : List Char}
    (h : matchesAfterSlash parts text = true) (before : List Char) :
    matchesAfterSlash parts (before ++ text) = true := by
  induction before with
  | nil => exact h
  | cons c before ih => rw [List.cons_append, matchesAfterSlash_cons, ih, Bool.or_true]

/-- A pattern that begins with a star describes a text together with the directories before it. -/
theorem isMatch_append_of_star {ignore : String} {pattern : Pattern} {text before : List Char}
    (hparse : parse ignore = .ok pattern) (hstar : ignore.toList.head? = some '*')
    (h : isMatch pattern text = true)
    (hbefore : text = [] ∨ before = [] ∨ before.getLast? = some '/') :
    isMatch pattern (before ++ text) = true := by
  obtain ⟨parts, rfl | rfl⟩ := exists_of_parse_star hparse hstar
  · exact isMatch_anySequence_append h before
  · rw [isMatch_anyDirectories, Bool.or_eq_true] at h
    obtain rfl | rfl | hslash := hbefore
    · rw [matchesAfterSlash_nil, or_self, ← matchesAfterSlash_nil] at h
      rw [isMatch_anyDirectories, matchesAfterSlash_append h before, Bool.or_true]
    · rwa [List.nil_append, isMatch_anyDirectories, Bool.or_eq_true]
    · obtain ⟨directories, rfl⟩ := List.getLast?_eq_some_iff.mp hslash
      have hafter : matchesAfterSlash parts ('/' :: text) = true := by
        rw [matchesAfterSlash_cons]
        simpa using h
      rw [List.append_assoc, List.singleton_append, isMatch_anyDirectories,
        matchesAfterSlash_append hafter directories, Bool.or_true]

end CalculatorCatalog.Files.Pattern
