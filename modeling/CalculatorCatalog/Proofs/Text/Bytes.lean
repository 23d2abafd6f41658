import CalculatorCatalog.Proofs.Text.Nesting
import CalculatorCatalog.Proofs.Text.Slice

/-!
# Texts as bytes

`encode` gives the bytes of a text in UTF-8. A program that looks for quotes, comments and brackets
may do so among the bytes, since no byte of a character that has several is the byte of one that has
one (`le_toNat_of_mem_encode`). `tokens?` is such a scanner: literals and comments are found by
their offsets, and everything else is a token for each byte. It answers `none` where an offset is
out of range, and where a token does not move it forward.

On the bytes of a text it always succeeds, and its tokens say what `scan` says of the characters
(`exists_tokens`): this relation is `Tokenizes`.
-/

set_option autoImplicit false
set_option relaxedAutoImplicit false

namespace CalculatorCatalog.Text

/-! ### Encoding -/

/-- The bytes of a text in UTF-8. -/
def encode (text : List Char) : List UInt8 :=
  text.flatMap String.utf8EncodeChar

/-- The text that bytes stand for, if they are valid UTF-8. -/
def decode? (bytes : List UInt8) : Option (List Char) :=
  (String.fromUTF8? bytes.toByteArray).map String.toList

theorem decode?_encode (text : List Char) : decode? (encode text) = some text := by
  have hbytes : (encode text).toByteArray = (String.ofList text).toByteArray := by
    rw [String.toByteArray_ofList]
    rfl
  have hvalid : (String.ofList text).toByteArray.IsValidUTF8 := (String.ofList text).isValidUTF8
  rw [decode?, hbytes, String.fromUTF8?, dif_pos hvalid, Option.map_some]
  exact congrArg some (String.toList_ofList)

theorem encode_injective {text text' : List Char} (h : encode text = encode text') :
    text = text' :=
  Option.some.inj (by rw [← decode?_encode text, h, decode?_encode])

@[simp] theorem encode_nil : encode [] = [] := rfl

theorem encode_cons (c : Char) (text : List Char) :
    encode (c :: text) = String.utf8EncodeChar c ++ encode text := rfl

@[simp] theorem encode_append (first second : List Char) :
    encode (first ++ second) = encode first ++ encode second :=
  List.flatMap_append

@[simp] theorem length_encode (text : List Char) : (encode text).length = byteLength text := by
  induction text with
  | nil => rfl
  | cons c text ih => rw [encode_cons, List.length_append, ih, String.length_utf8EncodeChar,
      byteLength_cons]

/-! ### Single bytes -/

theorem val_lt_iff {c : Char} : c.val.toNat < 128 ↔ c.utf8Size = 1 := by
  rw [Char.utf8Size_eq_one_iff, UInt32.le_iff_toNat_le]
  exact Nat.lt_succ_iff

theorem encode_cons_of_single {c : Char} (h : c.utf8Size = 1) (text : List Char) :
    encode (c :: text) = c.toUInt8 :: encode text := by
  rw [encode_cons, String.utf8EncodeChar_eq_singleton h]
  rfl

theorem toNat_toUInt8 {c : Char} (h : c.utf8Size = 1) : c.toUInt8.toNat = c.val.toNat := by
  have hlt := val_lt_iff.mpr h
  rw [← Char.toUInt8_val, UInt32.toNat_toUInt8]
  omega

/-- Characters with one byte are told apart by it. -/
theorem toUInt8_inj {c d : Char} (hc : c.utf8Size = 1) (hd : d.utf8Size = 1) :
    c.toUInt8 = d.toUInt8 ↔ c = d := by
  constructor
  · intro h
    have hval := congrArg UInt8.toNat h
    rw [toNat_toUInt8 hc, toNat_toUInt8 hd] at hval
    exact Char.ext (UInt32.toNat_inj.mp hval)
  · rintro rfl
    rfl

/-- All bytes of a character that has several are outside the range of single ones. -/
theorem le_toNat_of_mem_encode {c : Char} (h : c.utf8Size ≠ 1) {b : UInt8}
    (hb : b ∈ String.utf8EncodeChar c) : 128 ≤ b.toNat := by
  have hlarge : ¬c.val.toNat ≤ 127 := fun hle ↦ h (val_lt_iff.mp (Nat.lt_succ_of_le hle))
  have hbyte : ∀ n, 128 ≤ n → n < 256 → 128 ≤ (UInt8.ofNat n).toNat := by
    intro n hlow hhigh
    rw [UInt8.toNat_ofNat']
    omega
  unfold String.utf8EncodeChar at hb
  simp only [hlarge, if_false] at hb
  split_ifs at hb <;> simp only [List.mem_cons, List.not_mem_nil, or_false] at hb
  · rcases hb with rfl | rfl <;> exact hbyte _ (by omega) (by omega)
  · rcases hb with rfl | rfl | rfl <;> exact hbyte _ (by omega) (by omega)
  · rcases hb with rfl | rfl | rfl | rfl <;> exact hbyte _ (by omega) (by omega)

/-! ### Bytes at places -/

section Places

variable {before text : List Char} {c : Char}

theorem byteAt_of_single (h : c.utf8Size = 1) (before text : List Char) :
    (encode (before ++ c :: text))[byteLength before]? = some c.toUInt8 := by
  rw [encode_append, List.getElem?_append_right (Nat.le_of_eq (length_encode before)),
    length_encode, Nat.sub_self, encode_cons_of_single h]
  rfl

/-- What stands in a character with several bytes is no character with one byte. -/
theorem exists_byteAt_of_not_single (h : c.utf8Size ≠ 1) {k : Nat} (hk : k < c.utf8Size)
    (before text : List Char) :
    ∃ b, (encode (before ++ c :: text))[byteLength before + k]? = some b ∧ 128 ≤ b.toNat := by
  have hlength : k < (String.utf8EncodeChar c).length := by rwa [String.length_utf8EncodeChar]
  refine ⟨(String.utf8EncodeChar c)[k], ?_, le_toNat_of_mem_encode h (List.getElem_mem hlength)⟩
  rw [encode_append, List.getElem?_append_right (by rw [length_encode]; omega), length_encode,
    Nat.add_sub_cancel_left, encode_cons, List.getElem?_append_left hlength,
    List.getElem?_eq_getElem hlength]

theorem byteAt_of_le {offset : Nat} (h : byteLength text ≤ offset) :
    (encode text)[offset]? = none :=
  List.getElem?_eq_none (by rwa [length_encode])

theorem ne_toUInt8_of_le {b : UInt8} (h : 128 ≤ b.toNat) (hc : c.utf8Size = 1) :
    b ≠ c.toUInt8 := by
  rintro rfl
  rw [toNat_toUInt8 hc] at h
  have hlt := val_lt_iff.mpr hc
  omega

end Places

/-! ### Literals -/

/-- The end of a literal with the given quote, searched for from an offset inside it on: behind the
quote or at the line break that comes first, and the end of all bytes if there is neither. The byte
after a backslash is passed over. -/
def literalEnd (bytes : List UInt8) (quote : UInt8) (offset : Nat) : Nat :=
  match h : bytes[offset]? with
  | none => bytes.length
  | some b =>
    have : offset < bytes.length := (List.getElem?_eq_some_iff.mp h).1
    if b = '\\'.toUInt8 then literalEnd bytes quote (offset + 2)
    else if b = '\n'.toUInt8 then offset
    else if b = quote then offset + 1
    else literalEnd bytes quote (offset + 1)
termination_by bytes.length - offset

theorem literalEnd_of_none {bytes : List UInt8} {quote : UInt8} {offset : Nat}
    (h : bytes[offset]? = none) : literalEnd bytes quote offset = bytes.length := by
  rw [literalEnd]
  split
  · rfl
  · rename_i b hb
    rw [h] at hb
    cases hb

theorem literalEnd_of_some {bytes : List UInt8} {quote b : UInt8} {offset : Nat}
    (h : bytes[offset]? = some b) :
    literalEnd bytes quote offset =
      if b = '\\'.toUInt8 then literalEnd bytes quote (offset + 2)
      else if b = '\n'.toUInt8 then offset
      else if b = quote then offset + 1
      else literalEnd bytes quote (offset + 1) := by
  rw [literalEnd]
  split
  · rename_i hb
    rw [h] at hb
    cases hb
  · rename_i b' hb
    obtain rfl : b' = b := Option.some.inj (hb.symm.trans h)
    rfl

theorem utf8Size_of_isQuote {c : Char} (h : isQuote c = true) : c.utf8Size = 1 := by
  simp only [isQuote, Bool.or_eq_true, beq_iff_eq] at h
  rcases h with rfl | rfl <;> rfl

/-- The bytes of a character with several are passed over. -/
theorem literalEnd_of_not_single {quote c : Char} (hquote : isQuote quote = true)
    (h : c.utf8Size ≠ 1) {k : Nat} (hk : k ≤ c.utf8Size) (before text : List Char) :
    literalEnd (encode (before ++ c :: text)) quote.toUInt8 (byteLength before + k) =
      literalEnd (encode (before ++ c :: text)) quote.toUInt8
        (byteLength before + c.utf8Size) := by
  induction hrest : c.utf8Size - k generalizing k with
  | zero =>
    obtain rfl : k = c.utf8Size := by omega
    rfl
  | succ rest ih =>
    obtain ⟨b, hb, hhigh⟩ := exists_byteAt_of_not_single h (k := k) (by omega) before text
    rw [literalEnd_of_some hb, if_neg (ne_toUInt8_of_le hhigh rfl),
      if_neg (ne_toUInt8_of_le hhigh rfl),
      if_neg (ne_toUInt8_of_le hhigh (utf8Size_of_isQuote hquote)), Nat.add_assoc]
    exact ih (by omega) (by omega)

/-- Searching for the end of a literal goes on behind a character that is nothing to it. -/
theorem literalEnd_of_other {quote c : Char} (hquote : isQuote quote = true) (hslash : c ≠ '\\')
    (hbreak : c ≠ '\n') (hother : c ≠ quote) (before text : List Char) :
    literalEnd (encode (before ++ c :: text)) quote.toUInt8 (byteLength before) =
      literalEnd (encode (before ++ c :: text)) quote.toUInt8
        (byteLength before + c.utf8Size) := by
  by_cases h : c.utf8Size = 1
  · rw [literalEnd_of_some (byteAt_of_single h before text),
      if_neg ((toUInt8_inj h rfl).not.mpr hslash), if_neg ((toUInt8_inj h rfl).not.mpr hbreak),
      if_neg ((toUInt8_inj h (utf8Size_of_isQuote hquote)).not.mpr hother), h]
  · exact literalEnd_of_not_single hquote h (Nat.zero_le _) before text

/-- Behind the first byte of a character, the search goes on with the next one. -/
theorem literalEnd_succ {quote c : Char} (hquote : isQuote quote = true)
    (before text : List Char) :
    literalEnd (encode (before ++ c :: text)) quote.toUInt8 (byteLength before + 1) =
      literalEnd (encode (before ++ c :: text)) quote.toUInt8
        (byteLength before + c.utf8Size) := by
  by_cases h : c.utf8Size = 1
  · rw [h]
  · exact literalEnd_of_not_single hquote h c.utf8Size_pos before text

/-- The end of a literal is a place of the text, and up to there the text is read as a literal. -/
theorem exists_literal {quote : Char} (hquote : isQuote quote = true) (before text : List Char) :
    ∃ literal after, text = literal ++ after ∧
      literalEnd (encode (before ++ text)) quote.toUInt8 (byteLength before) =
        byteLength (before ++ literal) ∧
      scanFrom (.literal quote) text = literal.map (·, .literal) ++ scan after := by
  induction hlength : text.length using Nat.strongRecOn generalizing before text with
  | ind length ih =>
    subst hlength
    cases text with
    | nil =>
      refine ⟨[], [], rfl, ?_, rfl⟩
      rw [List.append_nil, literalEnd_of_none (byteAt_of_le (Nat.le_refl _)), length_encode]
    | cons c text =>
      have hsize := byteLength_concat before c
      have hsplit : before ++ c :: text = (before ++ [c]) ++ text := by simp
      by_cases hslash : c = '\\'
      · subst hslash
        have hbyte : (encode (before ++ '\\' :: text))[byteLength before]? = some '\\'.toUInt8 :=
          byteAt_of_single rfl before text
        have hend := @literalEnd_of_some _ quote.toUInt8 _ _ hbyte
        rw [if_pos rfl] at hend
        cases text with
        | nil =>
          refine ⟨['\\'], [], rfl, ?_, rfl⟩
          rw [hend, literalEnd_of_none (byteAt_of_le ?_), length_encode]
          rw [hsize]
          exact Nat.add_le_add_left (by decide) _
        | cons d text =>
          have hsplit' : before ++ '\\' :: d :: text = (before ++ ['\\', d]) ++ text := by simp
          obtain ⟨literal, after, rfl, hstop, hscan⟩ :=
            ih text.length (by simp only [List.length_cons]; omega) (before ++ ['\\', d]) text rfl
          refine ⟨'\\' :: d :: literal, after, rfl, ?_, ?_⟩
          · have hbehind : byteLength before + 2 = byteLength (before ++ ['\\']) + 1 := by
              rw [hsize]
              rfl
            have hnext : byteLength (before ++ ['\\']) + d.utf8Size =
                byteLength (before ++ ['\\', d]) := by
              simp only [byteLength_append, byteLength_cons, byteLength_nil]
              omega
            rw [hend, hbehind, hsplit, literalEnd_succ hquote, ← hsplit, hsplit', hnext, hstop]
            simp
          · rw [scanFrom, scanFrom, List.map_cons, List.map_cons]
            exact congrArg _ (congrArg _ hscan)
      · by_cases hbreak : c = '\n'
        · subst hbreak
          refine ⟨[], '\n' :: text, rfl, ?_, ?_⟩
          · rw [literalEnd_of_some (byteAt_of_single rfl before text), if_neg (by decide),
              if_pos rfl, List.append_nil]
          · rw [scanFrom, scan, scanFrom]
            rfl
        · by_cases hother : c = quote
          · subst hother
            refine ⟨[c], text, rfl, ?_, ?_⟩
            · have hsingle := utf8Size_of_isQuote hquote
              rw [literalEnd_of_some (byteAt_of_single hsingle before text),
                if_neg ((toUInt8_inj hsingle rfl).not.mpr hslash),
                if_neg ((toUInt8_inj hsingle rfl).not.mpr hbreak), if_pos rfl, hsize, hsingle]
            · rw [scanFrom]
              simp [Mode.step, hslash, hbreak, scan]
          · obtain ⟨literal, after, rfl, hstop, hscan⟩ :=
              ih text.length (by simp) (before ++ [c]) text rfl
            refine ⟨c :: literal, after, rfl, ?_, ?_⟩
            · rw [literalEnd_of_other hquote hslash hbreak hother, ← hsize, hsplit, hstop]
              simp
            · rw [scanFrom]
              simp [Mode.step, hslash, hbreak, hother, hscan]

/-! ### Comments -/

/-- The bytes from an offset on, if it is not past their end. -/
def bytesFrom? (offset : Nat) (bytes : List UInt8) : Option (List UInt8) :=
  if offset ≤ bytes.length then some (bytes.drop offset) else none

/-- The number of bytes before a star with a slash behind it. -/
def starSlash? : List UInt8 → Option Nat
  | first :: second :: bytes =>
    if first = '*'.toUInt8 ∧ second = '/'.toUInt8 then some 0
    else (starSlash? (second :: bytes)).map (· + 1)
  | _ => none

/-- The end of the line comment that begins at an offset: the line break that comes first, and the
end of all bytes if there is none. -/
def lineEnd? (bytes : List UInt8) (start : Nat) : Option Nat :=
  (bytesFrom? start bytes).map fun rest ↦
    (rest.findIdx? (· = '\n'.toUInt8)).elim bytes.length (start + ·)

/-- The end of the block comment that begins at an offset: behind the star and the slash that come
first, and the end of all bytes if there are none. -/
def blockEnd? (bytes : List UInt8) (start : Nat) : Option Nat :=
  (bytesFrom? (start + 2) bytes).map fun rest ↦
    (starSlash? rest).elim bytes.length (start + 2 + · + 2)

/-- The end of the comment that begins at an offset, if one does. The answer is `none` if an offset
is out of range. -/
def commentEnd? (bytes : List UInt8) (start : Nat) : Option (Option Nat) :=
  bytes[start]?.bind fun first ↦
    if first = '/'.toUInt8 then
      if bytes[start + 1]? = some '/'.toUInt8 then (lineEnd? bytes start).map some
      else if bytes[start + 1]? = some '*'.toUInt8 then (blockEnd? bytes start).map some
      else some none
    else some none

theorem bytesFrom?_encode (before text : List Char) :
    bytesFrom? (byteLength before) (encode (before ++ text)) = some (encode text) := by
  have hle : byteLength before ≤ (encode (before ++ text)).length := by
    rw [length_encode, byteLength_append]
    exact Nat.le_add_right _ _
  rw [bytesFrom?, if_pos hle, encode_append, ← length_encode before, List.drop_left]

/-- A line comment ends at a place, and up to there the text is read as a comment. -/
theorem exists_lineComment (text : List Char) :
    ∃ comment after, text = comment ++ after ∧
      ((encode text).findIdx? (· = '\n'.toUInt8)).getD (byteLength text) = byteLength comment ∧
      scanFrom .lineComment text = comment.map (·, .comment) ++ scan after := by
  induction text with
  | nil => exact ⟨[], [], rfl, rfl, rfl⟩
  | cons c text ih =>
    by_cases hbreak : c = '\n'
    · subst hbreak
      refine ⟨[], '\n' :: text, rfl, ?_, ?_⟩
      · rw [encode_cons_of_single rfl, List.findIdx?_cons]
        rfl
      · rw [scanFrom, scan, scanFrom]
        rfl
    · obtain ⟨comment, after, rfl, hstop, hscan⟩ := ih
      refine ⟨c :: comment, after, rfl, ?_, ?_⟩
      · have hnone : (String.utf8EncodeChar c).findIdx? (· = '\n'.toUInt8) = none := by
          rw [List.findIdx?_eq_none_iff]
          intro b hb
          by_cases h : c.utf8Size = 1
          · rw [String.utf8EncodeChar_eq_singleton h, List.mem_singleton] at hb
            rw [hb]
            exact decide_eq_false ((toUInt8_inj h rfl).not.mpr hbreak)
          · exact decide_eq_false (ne_toUInt8_of_le (le_toNat_of_mem_encode h hb) rfl)
        rw [encode_cons, List.findIdx?_append, hnone, Option.none_or, byteLength_cons,
          byteLength_cons, ← hstop, String.length_utf8EncodeChar]
        cases (encode (comment ++ after)).findIdx? (· = '\n'.toUInt8) with
        | none => rfl
        | some position => exact Nat.add_comm position c.utf8Size
      · rw [scanFrom]
        simp [Mode.step, hbreak, hscan]

theorem starSlash?_cons {first : UInt8} {bytes : List UInt8}
    (h : ¬(first = '*'.toUInt8 ∧ bytes.head? = some '/'.toUInt8)) :
    starSlash? (first :: bytes) = (starSlash? bytes).map (· + 1) := by
  cases bytes with
  | nil => rfl
  | cons second bytes =>
    rw [starSlash?, if_neg]
    exact fun hboth ↦ h ⟨hboth.1, congrArg some hboth.2⟩

theorem starSlash?_append {bytes : List UInt8} (h : ∀ b ∈ bytes, b ≠ '*'.toUInt8)
    (others : List UInt8) :
    starSlash? (bytes ++ others) = (starSlash? others).map (· + bytes.length) := by
  induction bytes with
  | nil => simp
  | cons b bytes ih =>
    rw [List.forall_mem_cons] at h
    rw [List.cons_append, starSlash?_cons (fun hboth ↦ h.1 hboth.1), ih h.2, Option.map_map]
    rfl

theorem head?_encode_eq_iff {d : Char} (hd : d.utf8Size = 1) (text : List Char) :
    (encode text).head? = some d.toUInt8 ↔ text.head? = some d := by
  cases text with
  | nil => simp
  | cons c text =>
    by_cases h : c.utf8Size = 1
    · rw [encode_cons_of_single h]
      simp [toUInt8_inj h hd]
    · have hne : c ≠ d := by
        rintro rfl
        exact h hd
      obtain ⟨b, bytes, hbytes⟩ : ∃ b bytes, String.utf8EncodeChar c = b :: bytes := by
        refine List.exists_cons_of_length_pos ?_
        rw [String.length_utf8EncodeChar]
        exact c.utf8Size_pos
      have hhigh := le_toNat_of_mem_encode h (hbytes ▸ List.mem_cons_self)
      rw [encode_cons, hbytes]
      simp [ne_toUInt8_of_le hhigh hd, hne]

/-- A block comment ends at a place, and up to there the text is read as a comment. -/
theorem exists_blockComment (text : List Char) :
    ∃ comment after, text = comment ++ after ∧
      ((starSlash? (encode text)).map (· + 2)).getD (byteLength text) = byteLength comment ∧
      scanFrom .blockComment text = comment.map (·, .comment) ++ scan after := by
  induction text with
  | nil => exact ⟨[], [], rfl, rfl, rfl⟩
  | cons c text ih =>
    by_cases hends : c = '*' ∧ text.head? = some '/'
    · obtain ⟨rfl, hslash⟩ := hends
      obtain ⟨text, rfl⟩ : ∃ rest, text = '/' :: rest := by
        cases text with
        | nil => cases hslash
        | cons d text => exact ⟨text, by rw [Option.some.inj hslash]⟩
      refine ⟨['*', '/'], text, rfl, ?_, ?_⟩
      · rw [encode_cons_of_single rfl, encode_cons_of_single rfl, starSlash?, if_pos ⟨rfl, rfl⟩]
        rfl
      · rw [scanFrom, scanFrom]
        rfl
    · obtain ⟨comment, after, rfl, hstop, hscan⟩ := ih
      refine ⟨c :: comment, after, rfl, ?_, ?_⟩
      · have hrest : starSlash? (encode (c :: (comment ++ after))) =
            (starSlash? (encode (comment ++ after))).map (· + c.utf8Size) := by
          by_cases h : c.utf8Size = 1
          · rw [encode_cons_of_single h, starSlash?_cons, h]
            rwa [toUInt8_inj h rfl, head?_encode_eq_iff rfl]
          · rw [encode_cons, starSlash?_append, String.length_utf8EncodeChar]
            exact fun b hb ↦ ne_toUInt8_of_le (le_toNat_of_mem_encode h hb) rfl
        rw [hrest, byteLength_cons, byteLength_cons, ← hstop]
        cases starSlash? (encode (comment ++ after)) with
        | none => rfl
        | some position =>
          simp only [Option.map_some, Option.getD_some]
          omega
      · have hstep : Mode.blockComment.step c (comment ++ after).head? =
            (.comment, .blockComment) := if_neg hends
        rw [scanFrom, hstep, hscan]
        rfl

section CommentEnd

variable (before text : List Char)

theorem byteAt_behind_slash {c : Char} (h : c.utf8Size = 1) :
    (encode (before ++ '/' :: c :: text))[byteLength before + 1]? = some c.toUInt8 := by
  have hbyte := byteAt_of_single h (before ++ ['/']) text
  rw [List.append_assoc, byteLength_append] at hbyte
  exact hbyte

theorem commentEnd?_line :
    commentEnd? (encode (before ++ '/' :: '/' :: text)) (byteLength before) =
      some (some (byteLength before + 2
        + ((encode text).findIdx? (· = '\n'.toUInt8)).getD (byteLength text))) := by
  have hfind : (encode ('/' :: '/' :: text)).findIdx? (· = '\n'.toUInt8) =
      ((encode text).findIdx? (· = '\n'.toUInt8)).map (· + 2) := by
    rw [encode_cons_of_single rfl, encode_cons_of_single rfl, List.findIdx?_cons,
      List.findIdx?_cons, if_neg (by decide), if_neg (by decide), Option.map_map]
    rfl
  have hlength : (encode (before ++ '/' :: '/' :: text)).length =
      byteLength before + 2 + byteLength text := by
    rw [length_encode, byteLength_append, byteLength_cons, byteLength_cons, Nat.add_assoc]
    exact congrArg _ (Nat.add_assoc 1 1 (byteLength text)).symm
  rw [commentEnd?, byteAt_of_single rfl, byteAt_behind_slash before text rfl, Option.bind_some,
    if_pos rfl, if_pos rfl, lineEnd?, bytesFrom?_encode before, Option.map_some, hfind, hlength]
  cases (encode text).findIdx? (· = '\n'.toUInt8) with
  | none => rfl
  | some position =>
    simp only [Option.map_some, Option.elim_some, Option.getD_some, Nat.add_assoc,
      Nat.add_comm 2 position]

theorem commentEnd?_block :
    commentEnd? (encode (before ++ '/' :: '*' :: text)) (byteLength before) =
      some (some (byteLength before + 2
        + ((starSlash? (encode text)).map (· + 2)).getD (byteLength text))) := by
  have hsplit : before ++ '/' :: '*' :: text = (before ++ ['/', '*']) ++ text := by simp
  have hplace : byteLength (before ++ ['/', '*']) = byteLength before + 2 := by
    rw [byteLength_append]
    rfl
  have hrest := bytesFrom?_encode (before ++ ['/', '*']) text
  rw [← hsplit, hplace] at hrest
  have hlength : (encode (before ++ '/' :: '*' :: text)).length =
      byteLength before + 2 + byteLength text := by
    rw [length_encode, hsplit, byteLength_append, hplace]
  rw [commentEnd?, byteAt_of_single rfl, byteAt_behind_slash before text rfl, Option.bind_some,
    if_pos rfl, if_neg (by decide), if_pos rfl, blockEnd?, hrest, Option.map_some, hlength]
  cases starSlash? (encode text) <;> rfl

theorem commentEnd?_of_other (hslash : text.head? ≠ some '/') (hstar : text.head? ≠ some '*') :
    commentEnd? (encode (before ++ '/' :: text)) (byteLength before) = some none := by
  have hsecond : (encode (before ++ '/' :: text))[byteLength before + 1]? =
      (encode text).head? := by
    rw [encode_append, List.getElem?_append_right (by rw [length_encode]; omega), length_encode,
      Nat.add_sub_cancel_left, encode_cons_of_single rfl, List.head?_eq_getElem?]
    rfl
  rw [commentEnd?, byteAt_of_single rfl, hsecond, Option.bind_some, if_pos rfl,
    if_neg ((head?_encode_eq_iff rfl text).not.mpr hslash),
    if_neg ((head?_encode_eq_iff rfl text).not.mpr hstar)]

end CommentEnd

/-- Behind a slash in code, either a comment ends at a place, and up to there the text is read as
one, or there is none. -/
theorem exists_comment (before text : List Char) :
    (∃ comment after, '/' :: text = comment ++ after ∧ comment ≠ [] ∧
      commentEnd? (encode (before ++ '/' :: text)) (byteLength before) =
        some (some (byteLength (before ++ comment))) ∧
      scan ('/' :: text) = comment.map (·, .comment) ++ scan after) ∨
    commentEnd? (encode (before ++ '/' :: text)) (byteLength before) = some none ∧
      scan ('/' :: text) = ('/', .code) :: scan text := by
  by_cases hslash : text.head? = some '/'
  · obtain ⟨text, rfl⟩ := List.head?_eq_some_iff.mp hslash
    obtain ⟨comment, after, rfl, hstop, hscan⟩ := exists_lineComment text
    refine .inl ⟨'/' :: '/' :: comment, after, rfl, by simp, ?_, ?_⟩
    · have hopens : byteLength ('/' :: '/' :: comment) = 2 + byteLength comment :=
        byteLength_append ['/', '/'] comment
      rw [commentEnd?_line, hstop, byteLength_append, hopens, Nat.add_assoc]
    · rw [scan, scanFrom, scanFrom]
      exact congrArg _ (congrArg _ hscan)
  by_cases hstar : text.head? = some '*'
  · obtain ⟨text, rfl⟩ := List.head?_eq_some_iff.mp hstar
    obtain ⟨comment, after, rfl, hstop, hscan⟩ := exists_blockComment text
    refine .inl ⟨'/' :: '*' :: comment, after, rfl, by simp, ?_, ?_⟩
    · have hopens : byteLength ('/' :: '*' :: comment) = 2 + byteLength comment :=
        byteLength_append ['/', '*'] comment
      rw [commentEnd?_block, hstop, byteLength_append, hopens, Nat.add_assoc]
    · rw [scan, scanFrom, scanFrom]
      exact congrArg _ (congrArg _ hscan)
  · refine .inr ⟨commentEnd?_of_other before text hslash hstar, ?_⟩
    have hstep : Mode.code.step '/' text.head? = (.code, .code) := by
      simp [Mode.step, isQuote, hslash, hstar]
    rw [scan, scanFrom, hstep]
    rfl

/-! ### Tokens -/

/-- A part of the bytes of a source: a literal, a comment or a single byte of code. -/
structure Token where
  kind : Kind
  start : Nat
  stop : Nat
  deriving DecidableEq, Repr

/-- The token that begins with a byte at an offset. -/
def token? (bytes : List UInt8) (start : Nat) (b : UInt8) : Option Token :=
  if b = '\x27'.toUInt8 ∨ b = '\x22'.toUInt8 then
    some ⟨.literal, start, literalEnd bytes b (start + 1)⟩
  else if b = '/'.toUInt8 then
    (commentEnd? bytes start).map fun
      | some stop => ⟨.comment, start, stop⟩
      | none => ⟨.code, start, start + 1⟩
  else some ⟨.code, start, start + 1⟩

/-- The tokens from an offset on. The answer is `none` if an offset is out of range, or if a token
does not end behind its beginning. -/
def tokens? (bytes : List UInt8) (start : Nat) : Option (List Token) :=
  match h : bytes[start]? with
  | none => some []
  | some b =>
    have : start < bytes.length := (List.getElem?_eq_some_iff.mp h).1
    match token? bytes start b with
    | none => none
    | some token =>
      if start < token.stop then (tokens? bytes token.stop).map (token :: ·) else none
termination_by bytes.length - start

theorem tokens?_of_none {bytes : List UInt8} {start : Nat} (h : bytes[start]? = none) :
    tokens? bytes start = some [] := by
  rw [tokens?]
  split
  · rfl
  · rename_i b hb
    rw [h] at hb
    cases hb

theorem tokens?_of_some {bytes : List UInt8} {start : Nat} {b : UInt8} {token : Token}
    (h : bytes[start]? = some b) (htoken : token? bytes start b = some token)
    (hforward : start < token.stop) :
    tokens? bytes start = (tokens? bytes token.stop).map (token :: ·) := by
  rw [tokens?]
  split
  · rename_i hb
    rw [h] at hb
    cases hb
  · rename_i b' hb
    obtain rfl : b' = b := Option.some.inj (hb.symm.trans h)
    simp only [htoken, if_pos hforward]

/-- Single bytes of code, one after the other. -/
def codeTokens : Nat → Nat → List Token
  | _, 0 => []
  | start, count + 1 => ⟨.code, start, start + 1⟩ :: codeTokens (start + 1) count

/-- How the tokens of a text correspond to what its characters belong to. A literal or a comment is
one token, while a character of code is a token for each of its bytes. -/
inductive Tokenizes : Nat → List Char → List Token → Prop
  | nil (start : Nat) : Tokenizes start [] []
  | part {start : Nat} {kind : Kind} {piece rest : List Char} {tokens : List Token}
    (hkind : kind ≠ .code) (hscan : scan (piece ++ rest) = piece.map (·, kind) ++ scan rest)
    (htokens : Tokenizes (start + byteLength piece) rest tokens) :
    Tokenizes start (piece ++ rest) (⟨kind, start, start + byteLength piece⟩ :: tokens)
  | code {start : Nat} {c : Char} {rest : List Char} {tokens : List Token}
    (hscan : scan (c :: rest) = (c, .code) :: scan rest)
    (htokens : Tokenizes (start + c.utf8Size) rest tokens) :
    Tokenizes start (c :: rest) (codeTokens start c.utf8Size ++ tokens)

theorem token?_of_high {b : UInt8} (h : 128 ≤ b.toNat) (bytes : List UInt8) (start : Nat) :
    token? bytes start b = some ⟨.code, start, start + 1⟩ := by
  rw [token?, if_neg (not_or.mpr ⟨ne_toUInt8_of_le h rfl, ne_toUInt8_of_le h rfl⟩),
    if_neg (ne_toUInt8_of_le h rfl)]

theorem token?_of_isQuote {c : Char} (h : isQuote c = true) (bytes : List UInt8) (start : Nat) :
    token? bytes start c.toUInt8 =
      some ⟨.literal, start, literalEnd bytes c.toUInt8 (start + 1)⟩ := by
  rw [token?, if_pos]
  simp only [isQuote, Bool.or_eq_true, beq_iff_eq] at h
  exact h.imp (congrArg Char.toUInt8) (congrArg Char.toUInt8)

theorem token?_of_code {c : Char} (h : c.utf8Size = 1) (hquote : isQuote c = false)
    (hslash : c ≠ '/') (bytes : List UInt8) (start : Nat) :
    token? bytes start c.toUInt8 = some ⟨.code, start, start + 1⟩ := by
  simp only [isQuote, Bool.or_eq_false_iff, beq_eq_false_iff_ne] at hquote
  have hne : ∀ d : Char, d.utf8Size = 1 → c ≠ d → c.toUInt8 ≠ d.toUInt8 :=
    fun d hd ↦ (toUInt8_inj h hd).not.mpr
  rw [token?, if_neg (not_or.mpr ⟨hne _ rfl hquote.1, hne _ rfl hquote.2⟩),
    if_neg (hne _ rfl hslash)]

/-- A character of code with several bytes gives a token for each of them. -/
theorem tokens?_of_not_single {c : Char} (h : c.utf8Size ≠ 1) {k : Nat} (hk : k ≤ c.utf8Size)
    (before text : List Char) :
    tokens? (encode (before ++ c :: text)) (byteLength before + k) =
      (tokens? (encode (before ++ c :: text)) (byteLength before + c.utf8Size)).map
        (codeTokens (byteLength before + k) (c.utf8Size - k) ++ ·) := by
  induction hrest : c.utf8Size - k generalizing k with
  | zero =>
    obtain rfl : k = c.utf8Size := by omega
    simp [codeTokens]
  | succ rest ih =>
    obtain ⟨b, hb, hhigh⟩ := exists_byteAt_of_not_single h (k := k) (by omega) before text
    rw [tokens?_of_some hb (token?_of_high hhigh _ _) (Nat.lt_succ_self _), codeTokens]
    simp only [Nat.add_assoc]
    rw [ih (by omega) (by omega), Option.map_map]
    rfl

/-- A literal or a comment is the first token of a text, and the others are those behind it. -/
theorem exists_tokens_of_part {before rest : List Char} {kind : Kind} {b : UInt8}
    (piece : List Char) (hkind : kind ≠ .code) (hpiece : piece ≠ [])
    (hbyte : (encode (before ++ (piece ++ rest)))[byteLength before]? = some b)
    (htoken : token? (encode (before ++ (piece ++ rest))) (byteLength before) b =
      some ⟨kind, byteLength before, byteLength before + byteLength piece⟩)
    (hscan : scan (piece ++ rest) = piece.map (·, kind) ++ scan rest) {tokens : List Token}
    (htokens : tokens? (encode ((before ++ piece) ++ rest)) (byteLength (before ++ piece)) =
      some tokens)
    (hread : Tokenizes (byteLength (before ++ piece)) rest tokens) :
    ∃ tokens, tokens? (encode (before ++ (piece ++ rest))) (byteLength before) = some tokens ∧
      Tokenizes (byteLength before) (piece ++ rest) tokens := by
  have hbytes := mt byteLength_eq_zero.mp hpiece
  rw [byteLength_append] at htokens hread
  rw [List.append_assoc] at htokens
  refine ⟨_, ?_, .part hkind hscan hread⟩
  rw [tokens?_of_some hbyte htoken (Nat.lt_add_of_pos_right (Nat.pos_of_ne_zero hbytes)), htokens]
  rfl

/-- A character of code comes first, and the other tokens are those behind it. -/
theorem exists_tokens_of_code {before rest : List Char} {c : Char}
    (htoken : c.utf8Size = 1 → token? (encode (before ++ c :: rest)) (byteLength before)
      c.toUInt8 = some ⟨.code, byteLength before, byteLength before + 1⟩)
    (hscan : scan (c :: rest) = (c, .code) :: scan rest) {tokens : List Token}
    (htokens : tokens? (encode ((before ++ [c]) ++ rest)) (byteLength (before ++ [c])) =
      some tokens)
    (hread : Tokenizes (byteLength (before ++ [c])) rest tokens) :
    ∃ tokens, tokens? (encode (before ++ c :: rest)) (byteLength before) = some tokens ∧
      Tokenizes (byteLength before) (c :: rest) tokens := by
  have hsplit : (before ++ [c]) ++ rest = before ++ c :: rest := by simp
  have hsize := byteLength_concat before c
  rw [hsplit, hsize] at htokens
  rw [hsize] at hread
  refine ⟨codeTokens (byteLength before) c.utf8Size ++ tokens, ?_, .code hscan hread⟩
  by_cases h : c.utf8Size = 1
  · rw [h] at htokens ⊢
    rw [tokens?_of_some (byteAt_of_single h before rest) (htoken h) (Nat.lt_succ_self _), htokens]
    rfl
  · have hbytes := tokens?_of_not_single h (Nat.zero_le _) before rest
    rw [Nat.add_zero, htokens] at hbytes
    rw [hbytes]
    rfl

/-- The bytes of a text from a place on are cut into tokens with all offsets in range, and the
tokens are those of its characters. -/
theorem exists_tokens (before text : List Char) :
    ∃ tokens, tokens? (encode (before ++ text)) (byteLength before) = some tokens ∧
      Tokenizes (byteLength before) text tokens := by
  induction hlength : text.length using Nat.strongRecOn generalizing before text with
  | ind length ih =>
    subst hlength
    cases text with
    | nil =>
      exact ⟨[], tokens?_of_none (byteAt_of_le (Nat.le_of_eq (by rw [List.append_nil]))), .nil _⟩
    | cons c text =>
      by_cases hquote : isQuote c = true
      · have hsingle := utf8Size_of_isQuote hquote
        obtain ⟨literal, after, rfl, hstop, hscan⟩ := exists_literal hquote (before ++ [c]) text
        obtain ⟨tokens, htokens, hread⟩ :=
          ih after.length (by simp only [List.length_cons, List.length_append]; omega)
            (before ++ c :: literal) after rfl
        have hplace : byteLength (before ++ [c]) = byteLength before + 1 := by
          rw [byteLength_append, byteLength_cons, hsingle, byteLength_nil]
        have htoken : token? (encode (before ++ c :: (literal ++ after))) (byteLength before)
            c.toUInt8 = some ⟨.literal, byteLength before,
              byteLength before + byteLength (c :: literal)⟩ := by
          have hsplit : before ++ c :: (literal ++ after) =
              (before ++ [c]) ++ (literal ++ after) := by simp
          rw [token?_of_isQuote hquote, ← hplace, ← byteLength_append, hsplit, hstop]
          simp
        have hstep (next : Option Char) : Mode.code.step c next = (.literal, .literal c) := by
          simp [Mode.step, hquote]
        refine exists_tokens_of_part (c :: literal) (by simp) (by simp)
          (byteAt_of_single hsingle before _) htoken ?_ htokens hread
        rw [scan, List.cons_append, scanFrom, hstep, hscan]
        rfl
      by_cases hslash : c = '/'
      · subst hslash
        obtain ⟨comment, after, htext, hne, hstop, hscan⟩ | ⟨hend, hscan⟩ :=
          exists_comment before text
        · have hshorter : after.length < ('/' :: text).length := by
            rw [htext, List.length_append]
            exact Nat.lt_add_of_pos_left (List.length_pos_iff.mpr hne)
          obtain ⟨tokens, htokens, hread⟩ := ih after.length hshorter (before ++ comment) after rfl
          have hbyte := byteAt_of_single (c := '/') rfl before text
          rw [htext] at hbyte hstop hscan ⊢
          refine exists_tokens_of_part comment (by simp) hne hbyte ?_ hscan htokens hread
          rw [token?, if_neg (by decide), if_pos rfl, hstop, byteLength_append]
          rfl
        · obtain ⟨tokens, htokens, hread⟩ := ih text.length (by simp) (before ++ ['/']) text rfl
          refine exists_tokens_of_code (fun _ ↦ ?_) hscan htokens hread
          rw [token?, if_neg (by decide), if_pos rfl, hend]
          rfl
      · rw [Bool.not_eq_true] at hquote
        obtain ⟨tokens, htokens, hread⟩ := ih text.length (by simp) (before ++ [c]) text rfl
        exact exists_tokens_of_code (fun h ↦ token?_of_code h hquote hslash _ _)
          (scan_cons_of_code hquote hslash text) htokens hread

end CalculatorCatalog.Text
