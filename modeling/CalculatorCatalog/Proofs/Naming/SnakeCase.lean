import CalculatorCatalog.Naming
import CalculatorCatalog.Proofs.Text.Search
import Mathlib

/-!
# Names in snake case

A camel-case name is divided in two passes, and what the first one reads hides places from it: the
word that it has just divided may itself end before a capital. `replaceAll_lowerUpper_wordStart`
proves that both passes together come to one rule about a character and its two neighbours
(`startsWord`), read from left to right by `divideAt`. For ASCII names `snakeCase_exact` states this
rule by positions, together with the fact that a name in snake case stays as it is.

The first pass leaves to the second exactly the capitals after a small letter or digit. `Settled`
says that this is so at the place where the first pass goes on, and carries the induction.
-/

set_option autoImplicit false
set_option relaxedAutoImplicit false

namespace CalculatorCatalog.Naming

open CalculatorCatalog.Text

/-! ### Dividing a name by a rule -/

/-- A small letter or a digit. -/
def isSmall (c : Char) : Bool :=
  c.isLower || c.isDigit

/-- A capital after a small letter or digit. -/
def followsSmall (before : Option Char) (c : Char) (_ : Option Char) : Bool :=
  c.isUpper && before.any isSmall

/-- A capital that begins a word: it follows a small letter or digit, or it follows anything on the
same line and a small letter comes after it. -/
def startsWord (before : Option Char) (c : Char) (next : Option Char) : Bool :=
  c.isUpper && before.any fun p ↦ isSmall p || (p != '\n' && next.any Char.isLower)

/-- Puts an underscore before every character at which a rule on its neighbours divides. -/
def divideAt (divides : Option Char → Char → Option Char → Bool) :
    Option Char → List Char → List Char
  | _, [] => []
  | before, c :: text =>
    (if divides before c text.head? then ['_', c] else [c]) ++ divideAt divides (some c) text

theorem isUpper_eq_false_of_isLower {c : Char} (h : c.isLower = true) : c.isUpper = false :=
  Bool.eq_false_iff.mpr (Char.not_isUpper_of_isLower h)

theorem isSmall_eq_false_of_isUpper {c : Char} (h : c.isUpper = true) : isSmall c = false := by
  have hdigit : ¬c.isDigit = true := by
    simp only [Char.isUpper, Char.isDigit, Bool.and_eq_true, decide_eq_true_eq,
      UInt32.le_iff_toNat_le, ge_iff_le] at h ⊢
    exact fun hdigit ↦ absurd (Nat.le_trans h.1 hdigit.2) (by decide)
  rw [isSmall, Bool.or_eq_false_iff, Bool.eq_false_iff, Bool.eq_false_iff]
  exact ⟨Char.not_isLower_of_isUpper h, hdigit⟩

section

variable {divides : Option Char → Char → Option Char → Bool}

/-- A rule that divides at capitals leaves a text without capitals whole. -/
theorem divideAt_append
    (hcapital : ∀ before c next, divides before c next = true → c.isUpper = true)
    {run : List Char} (hrun : ∀ c ∈ run, c.isUpper = false) (before : Option Char)
    (text : List Char) :
    divideAt divides before (run ++ text) = run ++ divideAt divides (lastOr before run) text := by
  induction run generalizing before with
  | nil => rfl
  | cons c run ih =>
    have hwhole : ¬divides before c (run ++ text).head? = true := fun h ↦ by
      have hupper := hcapital before c _ h
      rw [hrun c List.mem_cons_self] at hupper
      cases hupper
    rw [List.cons_append, divideAt, if_neg hwhole, ih fun d hd ↦ hrun d (List.mem_cons_of_mem c hd),
      lastOr_cons]
    rfl

theorem isUpper_of_followsSmall (before : Option Char) (c : Char) (next : Option Char)
    (h : followsSmall before c next = true) : c.isUpper = true :=
  (Bool.and_eq_true_iff.mp h).1

theorem isUpper_of_startsWord (before : Option Char) (c : Char) (next : Option Char)
    (h : startsWord before c next = true) : c.isUpper = true :=
  (Bool.and_eq_true_iff.mp h).1

/-- The neighbours of a character by its position in a text. -/
def dividesAt (divides : Option Char → Char → Option Char → Bool) (text : List Char)
    (position : Nat) (c : Char) : Bool :=
  divides (if position = 0 then none else text[position - 1]?) c text[position + 1]?

/-- Dividing from left to right is dividing at positions. -/
theorem divideAt_eq_flatMap_zipIdx (passed text : List Char) :
    divideAt divides passed.getLast? text =
      (text.zipIdx passed.length).flatMap fun (c, position) ↦
        if dividesAt divides (passed ++ text) position c then ['_', c] else [c] := by
  induction text generalizing passed with
  | nil => rfl
  | cons c text ih =>
    have hbefore : (if passed.length = 0 then none
        else (passed ++ c :: text)[passed.length - 1]?) = passed.getLast? := by
      cases passed with
      | nil => rfl
      | cons d passed =>
        rw [if_neg (by simp), List.getElem?_append_left (by simp), List.getLast?_eq_getElem?]
    have hnext : (passed ++ c :: text)[passed.length + 1]? = text.head? := by
      rw [List.getElem?_append_right (by omega), Nat.add_sub_cancel_left, List.getElem?_cons_succ,
        List.head?_eq_getElem?]
    have hrest := ih (passed ++ [c])
    rw [List.getLast?_concat, List.append_assoc, List.singleton_append, List.length_append,
      List.length_singleton] at hrest
    rw [divideAt, hrest, List.zipIdx_cons, List.flatMap_cons]
    simp only [dividesAt, hbefore, hnext]

end

/-- The last character of a run that is not empty belongs to it. -/
theorem exists_lastOr_eq_some (before : Option Char) (first : Char) (run : List Char) :
    ∃ c ∈ first :: run, lastOr before (first :: run) = some c := by
  rw [lastOr_eq, List.getLast?_eq_some_getLast (List.cons_ne_nil first run)]
  exact ⟨_, List.getLast_mem _, rfl⟩

/-! ### The two passes -/

section Replacing

variable {recognize : Recognizer (List Char)}

/-- Replacing goes on after a character at which nothing is recognised. -/
theorem replaceAll_cons (hbefore : ∀ before text, recognize before text = recognize none text)
    {c : Char} {text : List Char} (h : recognize none (c :: text) = none) :
    replaceAll recognize (c :: text) = c :: replaceAll recognize text := by
  rw [replaceAll, pieces, piecesFrom, h, List.flatMap_cons,
    piecesFrom_congr_before (hbefore (some c)), List.singleton_append, replaceAll, pieces]

/-- Replacing goes on after what is recognised. -/
theorem replaceAll_append (hbefore : ∀ before text, recognize before text = recognize none text)
    {read rest replacement : List Char} (hread : read ≠ [])
    (h : recognize none (read ++ rest) = some (replacement, rest)) :
    replaceAll recognize (read ++ rest) = replacement ++ replaceAll recognize rest := by
  rw [replaceAll, pieces, piecesFrom_of_found hread h, List.flatMap_cons,
    piecesFrom_congr_before (hbefore _), replaceAll, pieces]

end Replacing

/-- The second pass divides at the capitals after small letters and digits, if the character before
the text leaves its first one alone. -/
theorem replaceAll_lowerUpper {before : Option Char} {text : List Char}
    (hquiet : ∀ c, text.head? = some c → followsSmall before c none = false) :
    replaceAll lowerUpper text = divideAt followsSmall before text := by
  induction hlength : text.length using Nat.strong_induction_on generalizing before text with
  | _ length ih =>
    subst hlength
    cases text with
    | nil => rfl
    | cons first text =>
      have hwhole : ¬followsSmall before first text.head? = true :=
        Bool.eq_false_iff.mp (hquiet first rfl)
      rw [divideAt, if_neg hwhole]
      cases text with
      | nil => rfl
      | cons c rest =>
        by_cases hpair : (first.isLower ∨ first.isDigit) ∧ c.isUpper
        · -- A capital is nothing that the next character could follow.
          have hrest : ∀ d, rest.head? = some d → followsSmall (some c) d none = false := by
            intro d _
            simp [followsSmall, isSmall_eq_false_of_isUpper hpair.2]
          have hpass : replaceAll lowerUpper (first :: c :: rest) =
              [first, '_', c] ++ replaceAll lowerUpper rest :=
            replaceAll_append (fun _ _ ↦ rfl) (List.cons_ne_nil first [c]) (if_pos hpair)
          have hdivides : followsSmall (some first) c rest.head? = true := by
            simp [followsSmall, isSmall, hpair]
          rw [hpass, ih rest.length (by simp only [List.length_cons]; omega) hrest rfl, divideAt,
            if_pos hdivides]
          rfl
        · have hrest : ∀ d, (c :: rest).head? = some d →
              followsSmall (some first) d none = false := by
            rintro d ⟨⟩
            rw [Bool.eq_false_iff]
            intro h
            simp only [followsSmall, isSmall, Bool.and_eq_true, Option.any_some,
              Bool.or_eq_true] at h
            exact hpair h.symm
          rw [replaceAll_cons (fun _ _ ↦ rfl) (if_neg hpair),
            ih (c :: rest).length (by simp) hrest rfl]
          rfl

/-- The first pass can go on at a place if the capital there, should a word begin with it, follows a
small letter or digit: it is left to the second pass. -/
def Settled (before : Option Char) (text : List Char) : Prop :=
  ∀ c rest, text = c :: rest → startsWord before c rest.head? = true → before.any isSmall = true

theorem startsWord_of_followsSmall {before : Option Char} {c : Char} {next : Option Char}
    (h : followsSmall before c next = true) : startsWord before c next = true := by
  cases before with
  | none => simp [followsSmall] at h
  | some p =>
    obtain ⟨hupper, hsmall⟩ := Bool.and_eq_true_iff.mp h
    rw [Option.any_some] at hsmall
    simp [startsWord, hupper, hsmall]

theorem Settled.startsWord_eq {before : Option Char} {c : Char} {rest : List Char}
    (h : Settled before (c :: rest)) (next : Option Char) :
    startsWord before c rest.head? = followsSmall before c next := by
  rw [Bool.eq_iff_iff]
  refine ⟨fun hstarts ↦ ?_, fun hfollows ↦ startsWord_of_followsSmall hfollows⟩
  exact Bool.and_eq_true_iff.mpr ⟨isUpper_of_startsWord _ _ _ hstarts, h c rest rfl hstarts⟩

/-- After a small letter nothing is left to the first pass. -/
theorem settled_of_isLower {p : Char} (hp : p.isLower = true) (text : List Char) :
    Settled (some p) text :=
  fun _ _ _ _ ↦ by simp [isSmall, hp]

/-- The first pass either declines a place, and can go on at the next one, or reads a capital, the
small letters after it, and the character before it. -/
theorem wordStart_cases (first : Char) (text : List Char) :
    wordStart none (first :: text) = none ∧ Settled (some first) text ∨
      ∃ capital small run rest, text = capital :: small :: (run ++ rest) ∧ first ≠ '\n' ∧
        capital.isUpper = true ∧ (∀ c ∈ small :: run, c.isLower = true) ∧
        wordStart none (first :: text) =
          some (first :: '_' :: capital :: small :: run, rest) := by
  match text with
  | [] => exact .inl ⟨rfl, fun _ _ h ↦ absurd h (by simp)⟩
  | [capital] =>
    refine .inl ⟨rfl, fun c rest h hstarts ↦ ?_⟩
    obtain ⟨rfl, rfl⟩ := List.cons.inj h
    simpa [startsWord, (Bool.and_eq_true_iff.mp hstarts).1] using hstarts
  | capital :: small :: text =>
    by_cases hword : first ≠ '\n' ∧ capital.isUpper ∧ small.isLower
    · obtain ⟨hline, hcapital, hsmall⟩ := hword
      refine .inr ⟨capital, small, text.takeWhile Char.isLower, text.dropWhile Char.isLower,
        by rw [List.takeWhile_append_dropWhile], hline, hcapital,
        List.forall_mem_cons.mpr ⟨hsmall, fun c hc ↦ List.mem_takeWhile_imp hc⟩,
        if_pos ⟨hline, hcapital, hsmall⟩⟩
    · refine .inl ⟨if_neg hword, fun c rest h hstarts ↦ ?_⟩
      obtain ⟨rfl, rfl⟩ := List.cons.inj h
      have hcapital := isUpper_of_startsWord _ _ _ hstarts
      have hnext : (first != '\n' && small.isLower) = false := by
        rw [Bool.eq_false_iff]
        intro h
        obtain ⟨hline, hsmall⟩ := Bool.and_eq_true_iff.mp h
        exact hword ⟨bne_iff_ne.mp hline, hcapital, hsmall⟩
      simpa [startsWord, hcapital, hnext] using hstarts

/-- What the second pass makes of the result of the first one. -/
theorem divideAt_replaceAll_wordStart {before : Option Char} {text : List Char}
    (h : Settled before text) :
    divideAt followsSmall before (replaceAll wordStart text) =
      divideAt startsWord before text := by
  induction hlength : text.length using Nat.strong_induction_on generalizing before text with
  | _ length ih =>
    subst hlength
    cases text with
    | nil => rfl
    | cons first text =>
      rw [divideAt.eq_2 startsWord]
      obtain hdeclines | hword := wordStart_cases first text
      · obtain ⟨hdeclines, hsettled⟩ := hdeclines
        rw [replaceAll_cons (fun _ _ ↦ rfl) hdeclines, divideAt, ← h.startsWord_eq,
          ih text.length (by simp) hsettled rfl]
      · obtain ⟨capital, small, run, rest, rfl, hline, hcapital, hrun, hread⟩ := hword
        have hpass : replaceAll wordStart (first :: capital :: small :: (run ++ rest)) =
            first :: '_' :: capital :: ((small :: run) ++ replaceAll wordStart rest) :=
          replaceAll_append (fun _ _ ↦ rfl) (List.cons_ne_nil first (capital :: small :: run)) hread
        have hwhole : ∀ c ∈ small :: run, c.isUpper = false :=
          fun c hc ↦ isUpper_eq_false_of_isLower (hrun c hc)
        have hstarts : startsWord (some first) capital (some small) = true := by
          simp [startsWord, hcapital, hline, hrun small List.mem_cons_self]
        have hleft (next : Option Char) : ¬followsSmall (some '_') capital next = true := by
          simp [followsSmall, isSmall]
        have hsettled : Settled (lastOr (some capital) (small :: run)) rest := by
          obtain ⟨p, hp, hlast⟩ := exists_lastOr_eq_some (some capital) small run
          rw [hlast]
          exact settled_of_isLower (hrun p hp) rest
        have hafter := ih rest.length (by simp only [List.length_cons, List.length_append]; omega)
          hsettled rfl
        have hsecond : divideAt followsSmall (some first)
            ('_' :: capital :: ((small :: run) ++ replaceAll wordStart rest)) =
              '_' :: capital :: ((small :: run) ++
                divideAt startsWord (lastOr (some capital) (small :: run)) rest) := by
          rw [divideAt, if_neg (by simp [followsSmall]), divideAt, if_neg (hleft _),
            divideAt_append isUpper_of_followsSmall hwhole, hafter]
          rfl
        have hrule : divideAt startsWord (some first) (capital :: small :: (run ++ rest)) =
            '_' :: capital :: ((small :: run) ++
              divideAt startsWord (lastOr (some capital) (small :: run)) rest) := by
          rw [divideAt, List.head?_cons, if_pos hstarts, ← List.cons_append,
            divideAt_append isUpper_of_startsWord hwhole]
          rfl
        rw [hpass, divideAt, hsecond, hrule, ← h.startsWord_eq]

/-- Both passes together divide a text where words start. -/
theorem replaceAll_lowerUpper_wordStart (text : List Char) :
    replaceAll lowerUpper (replaceAll wordStart text) = divideAt startsWord none text := by
  have hfirst : ∀ c, (replaceAll wordStart text).head? = some c →
      followsSmall none c none = false := by
    intro c _
    rw [followsSmall, Option.any_none, Bool.and_false]
  rw [replaceAll_lowerUpper hfirst]
  refine divideAt_replaceAll_wordStart fun c rest _ hstarts ↦ ?_
  rw [startsWord, Option.any_none, Bool.and_false] at hstarts
  cases hstarts

/-! ### ASCII names -/

/-- A text of ASCII characters in lower case, character by character. -/
theorem lowercaseText_of_ascii {text : List Char} (h : ∀ c ∈ text, c.toNat < 128) :
    lowercaseText text = text.map Char.toLower := by
  have hafter : ∀ before, lowercaseAfter before text = text.map Char.toLower := by
    induction text with
    | nil => exact fun _ ↦ rfl
    | cons c text ih =>
      intro before
      have hc := h c List.mem_cons_self
      have hsigma : c ≠ 'Σ' := by
        rintro rfl
        exact absurd hc (by decide)
      rw [lowercaseAfter, if_neg hsigma, lowercase, if_pos hc,
        ih fun d hd ↦ h d (List.mem_cons_of_mem c hd), List.map_cons, List.singleton_append]
  exact hafter []

/-- Dividing adds underscores only. -/
theorem mem_divideAt {divides : Option Char → Char → Option Char → Bool} {before : Option Char}
    {text : List Char} {c : Char} (h : c ∈ divideAt divides before text) : c = '_' ∨ c ∈ text := by
  induction text generalizing before with
  | nil => cases h
  | cons first text ih =>
    rw [divideAt, List.mem_append] at h
    obtain hfirst | hrest := h
    · have hfirst : c = '_' ∨ c = first := by
        split at hfirst
        · simpa using hfirst
        · exact .inr (List.mem_singleton.mp hfirst)
      exact hfirst.imp_right fun h ↦ List.mem_cons.mpr (.inl h)
    · exact (ih hrest).imp_right (List.mem_cons_of_mem first)

/-- Whether the underscore rule divides a name before a position: a capital stands there, not at the
beginning, and it follows a small letter or digit, or a small letter comes after it and it does not
follow a line break. -/
def dividesBefore (name : List Char) (position : Nat) : Bool :=
  decide (0 < position) && name[position]?.any Char.isUpper &&
    (name[position - 1]?.any (fun p ↦ p.isLower || p.isDigit) ||
      name[position + 1]?.any Char.isLower && name[position - 1]?.any (· != '\n'))

/-- The rule by positions is the rule on neighbours. -/
theorem dividesAt_startsWord {name : List Char} {position : Nat} {c : Char}
    (h : name[position]? = some c) :
    dividesAt startsWord name position c = dividesBefore name position := by
  rw [dividesAt, dividesBefore, startsWord, h, Option.any_some]
  obtain rfl | hposition := Nat.eq_zero_or_pos position
  · simp
  · rw [if_neg (Nat.ne_of_gt hposition), decide_eq_true hposition, Bool.true_and]
    cases name[position - 1]? with
    | none => simp
    | some p => simp only [Option.any_some, isSmall, Bool.and_comm]

/-- A name in snake case is what the rule makes of it, in lower case. -/
theorem snakeCase_eq_map {name : String} (hascii : ∀ c ∈ name.toList, c.toNat < 128) :
    snakeCase name =
      String.ofList ((divideAt startsWord none name.toList).map Char.toLower) := by
  have hdivided : ∀ c ∈ divideAt startsWord none name.toList, c.toNat < 128 := by
    intro c hc
    obtain rfl | hc := mem_divideAt hc
    · decide
    · exact hascii c hc
  rw [snakeCase, replaceAll_lowerUpper_wordStart, lowercaseText_of_ascii hdivided]

theorem map_toLower_divideAt (name : List Char) :
    (divideAt startsWord none name).map Char.toLower =
      name.zipIdx.flatMap fun (c, position) ↦
        if dividesBefore name position then ['_', c.toLower] else [c.toLower] := by
  have hpositions : divideAt startsWord none name = name.zipIdx.flatMap fun (c, position) ↦
      if dividesAt startsWord name position c then ['_', c] else [c] :=
    divideAt_eq_flatMap_zipIdx [] name
  rw [hpositions, List.map_flatMap]
  refine List.flatMap_congr fun ⟨c, position⟩ hmem ↦ ?_
  have hc : name[position]? = some c := List.mem_zipIdx_iff_getElem?.mp hmem
  dsimp only
  rw [dividesAt_startsWord hc]
  split <;> rfl

theorem toNat_toLower_lt {c : Char} (h : c.toNat < 128) : c.toLower.toNat < 128 := by
  by_cases hupper : c.isUpper = true
  · have hrange : c.toNat ≤ 90 := by
      simp only [Char.isUpper, decide_eq_true_eq, UInt32.le_iff_toNat_le] at hupper
      exact hupper.2
    have hvalid : (c.toNat + 32).isValidChar := .inl (by omega)
    rw [Char.toLower_eq_of_isUpper hupper, Char.toNat_ofNat, if_pos hvalid]
    omega
  · rwa [Char.toLower_eq_of_not_isUpper hupper]

/-- A name of ASCII characters without capitals stays as it is. -/
theorem snakeCase_of_lower {name : String} (hascii : ∀ c ∈ name.toList, c.toNat < 128)
    (hlower : ∀ c ∈ name.toList, c.isUpper = false) : snakeCase name = name := by
  have hwhole := divideAt_append isUpper_of_startsWord hlower none []
  rw [List.append_nil, divideAt, List.append_nil] at hwhole
  have hsame : name.toList.map Char.toLower = name.toList.map id :=
    List.map_congr_left fun c hc ↦
      Char.toLower_eq_of_not_isUpper (Bool.eq_false_iff.mp (hlower c hc))
  rw [snakeCase_eq_map hascii, hwhole, hsame, List.map_id, String.ofList_toList]

/-- The underscore rule: an ASCII name in snake case is the name in lower case, with one underscore
before every position at which the rule divides. In snake case a name stays as it is. -/
theorem snakeCase_exact (name : String) (hascii : ∀ c ∈ name.toList, c.toNat < 128) :
    snakeCase name = String.ofList (name.toList.zipIdx.flatMap fun (c, position) ↦
        if dividesBefore name.toList position then ['_', c.toLower] else [c.toLower]) ∧
      snakeCase (snakeCase name) = snakeCase name := by
  have hresult : ∀ c ∈ (snakeCase name).toList, c.toNat < 128 ∧ c.isUpper = false := by
    intro c hc
    rw [snakeCase_eq_map hascii, String.toList_ofList] at hc
    obtain ⟨d, hd, rfl⟩ := List.mem_map.mp hc
    refine ⟨toNat_toLower_lt ?_, Char.isUpper_toLower_eq_false d⟩
    obtain rfl | hd := mem_divideAt hd
    · decide
    · exact hascii d hd
  refine ⟨by rw [snakeCase_eq_map hascii, map_toLower_divideAt], ?_⟩
  exact snakeCase_of_lower (fun c hc ↦ (hresult c hc).1) fun c hc ↦ (hresult c hc).2

/-- Acronyms stay together up to the word that follows them, and a capital after a digit begins a
word of its own. -/
theorem snakeCase_exact_wall :
    (∀ c ∈ "MDFWall3D".toList, c.toNat < 128) ∧
      snakeCase "MDFWall3D" = "mdf_wall3_d" ∧
      snakeCase (snakeCase "MDFWall3D") = "mdf_wall3_d" := by
  have hascii : ∀ c ∈ "MDFWall3D".toList, c.toNat < 128 := by simp
  obtain ⟨hsnake, hagain⟩ := snakeCase_exact _ hascii
  have hsnake : snakeCase "MDFWall3D" = "mdf_wall3_d" := by
    rw [hsnake]
    rfl
  exact ⟨hascii, hsnake, by rw [hagain, hsnake]⟩

end CalculatorCatalog.Naming
