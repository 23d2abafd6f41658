import CalculatorCatalog.Proofs.Text.Bytes

/-!
# Views of bytes

A view of a source hides a part of it and keeps all offsets. Among bytes it is made by overwriting:
`blankBytes?` and `maskBytes?` replace the bytes of tokens by spaces and read the result as a text,
and `closingByte?` counts the brackets behind an offset. They answer `none` where an offset is out
of range, where a depth falls below zero and where the bytes that are left are no text.

None of this happens: a token ends where a character ends, so a character is overwritten as a whole
or not at all. The results are `blankComments`, `maskNested` and `closingOffset?`
(`blankBytes?_eq`, `maskBytes?_eq`, `closingByte?_append`).
-/

set_option autoImplicit false
set_option relaxedAutoImplicit false

namespace CalculatorCatalog.Text

/-! ### Overwriting -/

/-- Bytes in which those between two offsets are replaced, if the offsets are in order and not past
the end. -/
def overwrite? (replace : UInt8 → UInt8) (start stop : Nat) (bytes : List UInt8) :
    Option (List UInt8) :=
  if start ≤ stop ∧ stop ≤ bytes.length then
    some (bytes.take start ++ (((bytes.drop start).take (stop - start)).map replace
      ++ bytes.drop stop))
  else none

theorem overwrite?_append (replace : UInt8 → UInt8) (first part rest : List UInt8) :
    overwrite? replace first.length (first.length + part.length) (first ++ (part ++ rest)) =
      some (first ++ (part.map replace ++ rest)) := by
  have hlength : (first ++ (part ++ rest)).length = first.length + part.length + rest.length := by
    simp only [List.length_append, Nat.add_assoc]
  rw [overwrite?, if_pos ⟨Nat.le_add_right _ _, by omega⟩, List.take_left, List.drop_left,
    Nat.add_sub_cancel_left, List.take_left, ← List.drop_drop, List.drop_left, List.drop_left]

/-- The byte of a space, in the place of every other one. -/
def spaceByte (_ : UInt8) : UInt8 :=
  ' '.toUInt8

/-- The byte of a space in the place of every other one except that of a line break. -/
def blankByte (b : UInt8) : UInt8 :=
  if b = '\n'.toUInt8 then b else ' '.toUInt8

theorem encode_spaces (count : Nat) :
    encode (List.replicate count ' ') = List.replicate count ' '.toUInt8 := by
  induction count with
  | zero => rfl
  | succ count ih =>
    rw [List.replicate_succ, encode_cons_of_single rfl, ih]
    rfl

theorem map_spaceByte_encode (text : List Char) :
    (encode text).map spaceByte = encode (blanks text) := by
  rw [blanks, encode_spaces, ← length_encode]
  exact List.map_const'

theorem map_blankByte_encode (text : List Char) :
    (encode text).map blankByte = encode (text.flatMap fun c ↦ withoutComment (c, .comment)) := by
  induction text with
  | nil => rfl
  | cons c text ih =>
    rw [encode_cons, List.map_append, ih, List.flatMap_cons, encode_append]
    congr 1
    by_cases hbreak : c = '\n'
    · subst hbreak
      rfl
    · rw [withoutComment, if_neg hbreak]
      have hspace : ∀ b ∈ String.utf8EncodeChar c, blankByte b = ' '.toUInt8 := by
        refine fun b hb ↦ if_neg ?_
        by_cases h : c.utf8Size = 1
        · rw [String.utf8EncodeChar_eq_singleton h, List.mem_singleton] at hb
          rw [hb]
          exact (toUInt8_inj h rfl).not.mpr hbreak
        · exact ne_toUInt8_of_le (le_toNat_of_mem_encode h hb) rfl
      rw [hidden, encode_spaces, List.map_congr_left hspace, List.map_const',
        String.length_utf8EncodeChar]

theorem byteLength_of_map_encode {replace : UInt8 → UInt8} {part view : List Char}
    (h : (encode part).map replace = encode view) : byteLength view = byteLength part := by
  rw [← length_encode, ← h, List.length_map, length_encode]

/-- Overwriting a part of a text. -/
theorem overwrite?_encode {replace : UInt8 → UInt8} {part view : List Char}
    (h : (encode part).map replace = encode view) (done rest : List Char) :
    overwrite? replace (byteLength done) (byteLength done + byteLength part)
        (encode (done ++ (part ++ rest))) =
      some (encode (done ++ (view ++ rest))) := by
  have hbytes := overwrite?_append replace (encode done) (encode part) (encode rest)
  rw [h, length_encode, length_encode] at hbytes
  simpa only [encode_append] using hbytes

/-! ### Hiding comments -/

/-- Overwrites a token if it is a comment. -/
def blankToken? (out : List UInt8) (token : Token) : Option (List UInt8) :=
  if token.kind = .comment then overwrite? blankByte token.start token.stop out else some out

/-- The text with its comments hidden, byte by byte. The answer is `none` if an offset is out of
range or if what is left is no text. -/
def blankBytes? (text : List Char) : Option (List Char) := do
  let tokens ← tokens? (encode text) 0
  let out ← tokens.foldlM blankToken? (encode text)
  decode? out

theorem foldlM_blankToken?_codeTokens (start count : Nat) (out : List UInt8) :
    (codeTokens start count).foldlM blankToken? out = some out := by
  induction count generalizing start with
  | zero => rfl
  | succ count ih =>
    rw [codeTokens, List.foldlM_cons, blankToken?, if_neg (by simp)]
    exact ih (start + 1)

/-- Token by token, the comments give way to spaces. -/
theorem foldlM_blankToken? {start : Nat} {text : List Char} {tokens : List Token}
    (h : Tokenizes start text tokens) {done : List Char} (hdone : byteLength done = start) :
    tokens.foldlM blankToken? (encode (done ++ text)) =
      some (encode (done ++ blankComments text)) := by
  induction h generalizing done with
  | nil start => rfl
  | @part start kind piece rest tokens hkind hscan htokens ih =>
    subst hdone
    have hview : blankComments (piece ++ rest) =
        (piece.flatMap fun c ↦ withoutComment (c, kind)) ++ blankComments rest := by
      rw [blankComments, hscan, List.flatMap_append, List.flatMap_map]
      rfl
    rw [List.foldlM_cons, hview, ← List.append_assoc]
    cases kind with
    | code => exact absurd rfl hkind
    | literal =>
      have hsame : (piece.flatMap fun c ↦ withoutComment (c, .literal)) = piece := by
        simp [withoutComment]
      rw [blankToken?, if_neg (by simp), hsame, ← List.append_assoc]
      exact ih (byteLength_append done piece)
    | comment =>
      have hbytes := map_blankByte_encode piece
      have hpart := overwrite?_encode hbytes done rest
      rw [← List.append_assoc, ← List.append_assoc] at hpart
      rw [blankToken?, if_pos rfl]
      simp only [hpart, Option.bind_eq_bind, Option.bind_some]
      rw [← List.append_assoc]
      refine ih ?_
      rw [byteLength_append, byteLength_of_map_encode hbytes]
  | @code start c rest tokens hscan htokens ih =>
    subst hdone
    have hview : blankComments (c :: rest) = [c] ++ blankComments rest := by
      rw [blankComments, hscan]
      rfl
    rw [List.foldlM_append, foldlM_blankToken?_codeTokens, hview, ← List.append_assoc]
    have hsplit : done ++ c :: rest = (done ++ [c]) ++ rest := by simp
    rw [hsplit]
    exact ih (byteLength_concat done c)

/-- Hiding comments byte by byte uses no offset out of range, and leaves a text: the one without the
comments. -/
theorem blankBytes?_eq (text : List Char) : blankBytes? text = some (blankComments text) := by
  obtain ⟨tokens, htokens, hread⟩ := exists_tokens [] text
  have hout := @foldlM_blankToken? _ _ _ hread [] rfl
  rw [List.nil_append, List.nil_append] at hout
  rw [List.nil_append, byteLength_nil] at htokens
  rw [blankBytes?, htokens]
  simp only [Option.bind_eq_bind, Option.bind_some, hout, decode?_encode]

/-! ### Hiding what is nested -/

def isOpeningByte (b : UInt8) : Bool :=
  b == '('.toUInt8 || b == '['.toUInt8 || b == '\x7b'.toUInt8

def isClosingByte (b : UInt8) : Bool :=
  b == ')'.toUInt8 || b == ']'.toUInt8 || b == '\x7d'.toUInt8

/-- Overwrites the bytes between two offsets inside brackets. -/
def hideInside? (depth : Nat) (start stop : Nat) (out : List UInt8) : Option (List UInt8) :=
  if depth = 0 then some out else overwrite? spaceByte start stop out

/-- Overwrites a token if it is to be hidden at the given depth, and counts the brackets. -/
def maskToken? (bytes : List UInt8) (state : Nat × List UInt8) (token : Token) :
    Option (Nat × List UInt8) :=
  let (depth, out) := state
  match token.kind with
  | .comment => (overwrite? spaceByte token.start token.stop out).map (depth, ·)
  | .literal => (hideInside? depth token.start token.stop out).map (depth, ·)
  | .code =>
    bytes[token.start]?.bind fun b ↦
      if isOpeningByte b then (hideInside? depth token.start token.stop out).map (depth + 1, ·)
      else if isClosingByte b then
        (hideInside? (depth - 1) token.start token.stop out).map (depth - 1, ·)
      else (hideInside? depth token.start token.stop out).map (depth, ·)

/-- The text with its comments and what is nested in brackets hidden, byte by byte. The answer is
`none` if an offset is out of range or if what is left is no text. -/
def maskBytes? (text : List Char) : Option (List Char) := do
  let tokens ← tokens? (encode text) 0
  let (_, out) ← tokens.foldlM (maskToken? (encode text)) (0, encode text)
  decode? out

section Brackets

variable {c : Char} {b : UInt8}

theorem beq_toUInt8 {d : Char} (hc : c.utf8Size = 1) (hd : d.utf8Size = 1) :
    (c.toUInt8 == d.toUInt8) = (c == d) := by
  rw [Bool.eq_iff_iff, beq_iff_eq, beq_iff_eq, toUInt8_inj hc hd]

theorem isOpeningByte_of_single (h : c.utf8Size = 1) : isOpeningByte c.toUInt8 = isOpening c := by
  rw [isOpeningByte, isOpening, beq_toUInt8 h rfl, beq_toUInt8 h rfl, beq_toUInt8 h rfl]

theorem isClosingByte_of_single (h : c.utf8Size = 1) : isClosingByte c.toUInt8 = isClosing c := by
  rw [isClosingByte, isClosing, beq_toUInt8 h rfl, beq_toUInt8 h rfl, beq_toUInt8 h rfl]

theorem isBracketByte_of_high (h : 128 ≤ b.toNat) :
    isOpeningByte b = false ∧ isClosingByte b = false := by
  have hne : ∀ d : Char, d.utf8Size = 1 → b ≠ d.toUInt8 := fun d hd ↦ ne_toUInt8_of_le h hd
  simp only [isOpeningByte, isClosingByte, Bool.or_eq_false_iff, beq_eq_false_iff_ne]
  exact ⟨⟨⟨hne _ rfl, hne _ rfl⟩, hne _ rfl⟩, ⟨hne _ rfl, hne _ rfl⟩, hne _ rfl⟩

theorem isBracket_of_not_single (h : c.utf8Size ≠ 1) :
    isOpening c = false ∧ isClosing c = false := by
  have hne : ∀ d : Char, d.utf8Size = 1 → c ≠ d := by
    rintro d hd rfl
    exact h hd
  simp only [isOpening, isClosing, Bool.or_eq_false_iff, beq_eq_false_iff_ne]
  exact ⟨⟨⟨hne _ rfl, hne _ rfl⟩, hne _ rfl⟩, ⟨hne _ rfl, hne _ rfl⟩, hne _ rfl⟩

theorem utf8Size_of_isOpening (h : isOpening c = true) : c.utf8Size = 1 := by
  by_contra hsize
  rw [(isBracket_of_not_single hsize).1] at h
  cases h

end Brackets

theorem hideInside?_append (depth : Nat) (first part rest : List UInt8) :
    hideInside? depth first.length (first.length + part.length) (first ++ (part ++ rest)) =
      some (first ++ ((if depth = 0 then part else part.map spaceByte) ++ rest)) := by
  rw [hideInside?, overwrite?_append]
  split_ifs <;> rfl

theorem hideInside?_encode (depth : Nat) (done part rest : List Char) :
    hideInside? depth (byteLength done) (byteLength done + byteLength part)
        (encode (done ++ (part ++ rest))) =
      some (encode (done ++ ((if depth = 0 then part else blanks part) ++ rest))) := by
  rw [hideInside?, overwrite?_encode (map_spaceByte_encode part)]
  split_ifs <;> rfl

/-- Bytes that are no brackets are hidden one by one inside brackets. -/
theorem foldlM_maskToken?_high {bytes part : List UInt8} (first rest : List UInt8) (depth : Nat)
    (hpart : ∀ k < part.length, ∃ b, bytes[first.length + k]? = some b ∧ 128 ≤ b.toNat) :
    (codeTokens first.length part.length).foldlM (maskToken? bytes)
        (depth, first ++ (part ++ rest)) =
      some (depth, first ++ ((if depth = 0 then part else part.map spaceByte) ++ rest)) := by
  induction part generalizing first with
  | nil => simp [codeTokens]
  | cons p part ih =>
    obtain ⟨b, hb, hhigh⟩ := hpart 0 (Nat.succ_pos _)
    obtain ⟨hopening, hclosing⟩ := isBracketByte_of_high hhigh
    have hhide := hideInside?_append depth first [p] (part ++ rest)
    have hview : (if depth = 0 then p :: part else (p :: part).map spaceByte) =
        (if depth = 0 then [p] else [p].map spaceByte) ++
          if depth = 0 then part else part.map spaceByte := by
      split_ifs <;> rfl
    obtain ⟨shown, hshown⟩ : ∃ shown, shown = if depth = 0 then [p] else [p].map spaceByte :=
      ⟨_, rfl⟩
    have hlength : (first ++ shown).length = first.length + 1 := by
      rw [hshown, List.length_append]
      split_ifs <;> rfl
    rw [← hshown] at hhide hview
    have htoken : maskToken? bytes (depth, first ++ (p :: part ++ rest))
        ⟨.code, first.length, first.length + 1⟩ =
          some (depth, (first ++ shown) ++ (part ++ rest)) := by
      rw [Nat.add_zero] at hb
      simp only [maskToken?, hb, Option.bind_some, hopening, hclosing, Bool.false_eq_true, if_false]
      rw [List.append_assoc, ← Option.map_some (f := fun out ↦ (depth, out)), ← hhide]
      rfl
    have hrest := ih (first ++ shown) fun k hk ↦ by
      rw [hlength, Nat.add_assoc, Nat.add_comm 1]
      exact hpart (k + 1) (Nat.succ_lt_succ hk)
    rw [hlength] at hrest
    rw [List.length_cons, codeTokens, List.foldlM_cons, htoken, hview, List.append_assoc shown,
      ← List.append_assoc first shown]
    exact hrest

/-- A character of code is hidden inside brackets, and brackets are counted. -/
theorem foldlM_maskToken?_code {before done : List Char}
    (hdone : byteLength done = byteLength before) (c : Char) (rest : List Char) (depth : Nat) :
    (codeTokens (byteLength before) c.utf8Size).foldlM (maskToken? (encode (before ++ c :: rest)))
        (depth, encode (done ++ c :: rest)) =
      some (depthAfter depth (c, .code),
        encode (done ++ ((if isMasked depth (c, .code) then hidden c else [c]) ++ rest))) := by
  obtain ⟨level, hlevel⟩ : ∃ level, level = if isClosing c then depth - 1 else depth := ⟨_, rfl⟩
  have hview : (if isMasked depth (c, .code) then hidden c else [c]) =
      if level = 0 then [c] else blanks [c] := by
    have hblanks : blanks [c] = hidden c := by rw [blanks_cons, blanks, byteLength_nil]; simp
    rw [hlevel, hblanks]
    unfold isMasked
    split_ifs <;> simp_all
  rw [hview]
  by_cases h : c.utf8Size = 1
  · have hbyte := byteAt_of_single h before rest
    have hhide := hideInside?_encode level done [c] rest
    rw [byteLength_cons, byteLength_nil, h, hdone] at hhide
    rw [h, codeTokens, codeTokens, List.foldlM_cons]
    have htoken : maskToken? (encode (before ++ c :: rest)) (depth, encode (done ++ c :: rest))
        ⟨.code, byteLength before, byteLength before + 1⟩ =
          (hideInside? level (byteLength before) (byteLength before + 1)
            (encode (done ++ c :: rest))).map (depthAfter depth (c, .code), ·) := by
      simp only [maskToken?, hbyte, Option.bind_some, isOpeningByte_of_single h,
        isClosingByte_of_single h, depthAfter, hlevel]
      cases hopening : isOpening c with
      | true =>
        rw [isClosing_eq_false_of_isOpening hopening]
        rfl
      | false => cases isClosing c <;> rfl
    rw [htoken]
    have hwhole : encode (done ++ ([c] ++ rest)) = encode (done ++ c :: rest) := rfl
    rw [hwhole] at hhide
    rw [hhide]
    rfl
  · obtain ⟨hopening, hclosing⟩ := isBracket_of_not_single h
    have hdepth : depthAfter depth (c, .code) = depth := by
      simp [depthAfter, hopening, hclosing]
    have hbytes := @foldlM_maskToken?_high (encode (before ++ c :: rest))
      (String.utf8EncodeChar c) (encode done) (encode rest) depth fun k hk ↦ by
        rw [length_encode, hdone]
        rw [String.length_utf8EncodeChar] at hk
        exact exists_byteAt_of_not_single h hk before rest
    have hlevel' : level = depth := by
      rw [hlevel, hclosing]
      rfl
    have hencode : encode [c] = String.utf8EncodeChar c := List.append_nil _
    have hshown : encode (if depth = 0 then [c] else blanks [c]) =
        if depth = 0 then String.utf8EncodeChar c else (String.utf8EncodeChar c).map spaceByte := by
      rw [← hencode, map_spaceByte_encode]
      split_ifs <;> rfl
    rw [length_encode, String.length_utf8EncodeChar, hdone, ← hshown] at hbytes
    rw [hdepth, hlevel', encode_append done (c :: rest), encode_append done,
      encode_append _ rest]
    exact hbytes

/-- A comment is hidden, and so is a literal inside brackets; the depth stays. -/
theorem exists_maskToken?_part {kind : Kind} (hkind : kind ≠ .code) (bytes : List UInt8)
    (done piece rest : List Char) (items : List (Char × Kind)) (depth : Nat) :
    ∃ shown : List Char, byteLength shown = byteLength piece ∧
      maskToken? bytes (depth, encode (done ++ (piece ++ rest)))
        ⟨kind, byteLength done, byteLength done + byteLength piece⟩ =
          some (depth, encode (done ++ (shown ++ rest))) ∧
      maskScanned depth (piece.map (·, kind) ++ items) = shown ++ maskScanned depth items := by
  cases kind with
  | code => exact absurd rfl hkind
  | comment =>
    refine ⟨blanks piece, byteLength_blanks piece, ?_,
      maskScanned_append_of_masked (by simp) (fun _ ↦ rfl) piece items⟩
    simp only [maskToken?, overwrite?_encode (map_spaceByte_encode piece), Option.map_some]
  | literal =>
    refine ⟨if depth = 0 then piece else blanks piece, ?_, ?_, ?_⟩
    · split_ifs
      · rfl
      · exact byteLength_blanks piece
    · simp only [maskToken?, hideInside?_encode, Option.map_some]
    · cases depth with
      | zero => exact maskScanned_literal_append piece items
      | succ depth => exact maskScanned_succ_literal_append depth piece items

/-- Token by token, comments and what is nested give way to spaces. -/
theorem foldlM_maskToken? {start : Nat} {text : List Char} {tokens : List Token}
    (h : Tokenizes start text tokens) {before done : List Char}
    (hbefore : byteLength before = start) (hdone : byteLength done = start) (depth : Nat) :
    ∃ depth', tokens.foldlM (maskToken? (encode (before ++ text))) (depth, encode (done ++ text)) =
      some (depth', encode (done ++ maskScanned depth (scan text))) := by
  induction h generalizing before done depth with
  | nil start => exact ⟨depth, rfl⟩
  | @part start kind piece rest tokens hkind hscan htokens ih =>
    subst hbefore
    have hplace := byteLength_append before piece
    obtain ⟨shown, hlength, htoken, hview⟩ := exists_maskToken?_part hkind
      (encode (before ++ (piece ++ rest))) done piece rest (scan rest) depth
    obtain ⟨depth', hrest⟩ := @ih (before ++ piece) (done ++ shown) hplace
      (by rw [byteLength_append, hdone, hlength]) depth
    refine ⟨depth', ?_⟩
    rw [hdone] at htoken
    rw [List.append_assoc before, List.append_assoc done shown rest,
      List.append_assoc done shown] at hrest
    rw [List.foldlM_cons, htoken, hscan, hview]
    exact hrest
  | @code start c rest tokens hscan htokens ih =>
    subst hbefore
    obtain ⟨shown, hshown⟩ : ∃ shown, shown =
        if isMasked depth (c, .code) then hidden c else [c] := ⟨_, rfl⟩
    have hlength : byteLength shown = c.utf8Size := by
      rw [hshown]
      split_ifs
      · rw [hidden, byteLength_replicate_space]
      · rfl
    have htoken := foldlM_maskToken?_code hdone c rest depth
    obtain ⟨depth', hrest⟩ := @ih (before ++ [c]) (done ++ shown)
      (byteLength_concat before c)
      (by rw [byteLength_append, hdone, hlength]) (depthAfter depth (c, .code))
    refine ⟨depth', ?_⟩
    rw [List.append_assoc before, List.append_assoc done, List.append_assoc done] at hrest
    rw [List.foldlM_append, htoken, hscan, maskScanned, ← hshown]
    exact hrest

/-- Hiding what is nested byte by byte uses no offset out of range, and leaves a text: the one with
what is nested hidden. -/
theorem maskBytes?_eq (text : List Char) : maskBytes? text = some (maskNested text) := by
  obtain ⟨tokens, htokens, hread⟩ := exists_tokens [] text
  obtain ⟨depth, hout⟩ := @foldlM_maskToken? _ _ _ hread [] [] rfl rfl 0
  rw [List.nil_append, List.nil_append] at hout
  rw [List.nil_append, byteLength_nil] at htokens
  rw [maskBytes?, htokens]
  simp only [Option.bind_eq_bind, Option.bind_some, hout, decode?_encode]
  rfl

/-! ### The closing bracket -/

/-- The offset of the bracket that closes the first of the brackets that are open, among tokens. -/
def closingIn? (bytes : List UInt8) : Nat → List Token → Option (Option Nat)
  | _, [] => some none
  | depth, token :: tokens =>
    if token.kind = .code then
      bytes[token.start]?.bind fun b ↦
        if isOpeningByte b then closingIn? bytes (depth + 1) tokens
        else if isClosingByte b then
          (difference? depth 1).bind fun depth ↦
            if depth = 0 then some (some token.start) else closingIn? bytes depth tokens
        else closingIn? bytes depth tokens
    else closingIn? bytes depth tokens

/-- The offset of the bracket that closes the one at the given offset, if there is one there. The
answer is `none` if an offset is out of range. -/
def closingByte? (text : List Char) (offset : Nat) : Option (Option Nat) :=
  match (encode text)[offset]? with
  | some b =>
    if isOpeningByte b then
      (tokens? (encode text) offset).bind (closingIn? (encode text) 0)
    else some none
  | none => some none

section Closing

variable {bytes : List UInt8}

/-- Bytes that are no brackets are passed over. -/
theorem closingIn?_high {count : Nat} (start depth : Nat) (tokens : List Token)
    (h : ∀ k < count, ∃ b, bytes[start + k]? = some b ∧ 128 ≤ b.toNat) :
    closingIn? bytes depth (codeTokens start count ++ tokens) = closingIn? bytes depth tokens := by
  induction count generalizing start with
  | zero => rfl
  | succ count ih =>
    obtain ⟨b, hb, hhigh⟩ := h 0 (Nat.succ_pos _)
    obtain ⟨hopening, hclosing⟩ := isBracketByte_of_high hhigh
    rw [Nat.add_zero] at hb
    rw [codeTokens, List.cons_append, closingIn?]
    simp only [hb, Option.bind_some, hopening, hclosing, Bool.false_eq_true, if_false, if_true]
    refine ih (start + 1) fun k hk ↦ ?_
    rw [Nat.add_assoc, Nat.add_comm 1]
    exact h (k + 1) (Nat.succ_lt_succ hk)

/-- Among the tokens of a text the closing bracket is found where the text is closed. -/
theorem closingIn?_eq {start : Nat} {text : List Char} {tokens : List Token}
    (h : Tokenizes start text tokens) {before : List Char} (hbefore : byteLength before = start)
    (depth : Nat) :
    closingIn? (encode (before ++ text)) (depth + 1) tokens =
      some ((closeScanned? depth (scan text)).map fun (inner, _) ↦ start + byteLength inner) := by
  induction h generalizing before depth with
  | nil start => rfl
  | @part start kind piece rest tokens hkind hscan htokens ih =>
    subst hbefore
    have hrest := @ih (before ++ piece) (byteLength_append before piece) depth
    rw [List.append_assoc] at hrest
    rw [closingIn?, if_neg hkind, hrest, hscan, closeScanned?_append_of_ne hkind, Option.map_map]
    congr 2
    funext found
    simp only [Function.comp_apply, byteLength_append, Nat.add_assoc]
  | @code start c rest tokens hscan htokens ih =>
    subst hbefore
    have hplace := byteLength_concat before c
    have hbehind : ∀ depth', ¬(isClosing c = true ∧ depth = 0) →
        depthAfter depth (c, .code) = depth' →
        closingIn? (encode (before ++ c :: rest)) (depth' + 1) tokens =
          some ((closeScanned? depth (scan (c :: rest))).map fun (inner, _) ↦
            byteLength before + byteLength inner) := by
      intro depth' hopen hdepth
      have hrest := ih hplace depth'
      rw [List.append_assoc] at hrest
      rw [hscan, closeScanned?_cons_of_not (fun h ↦ hopen h.2) hdepth, Option.map_map]
      refine hrest.trans (congrArg some (congrArg (Option.map · _) (funext fun found ↦ ?_)))
      simp only [Function.comp_apply, byteLength_cons, Nat.add_assoc]
    by_cases h : c.utf8Size = 1
    · have hbyte := byteAt_of_single h before rest
      rw [h, codeTokens, codeTokens, List.cons_append, List.nil_append, closingIn?, if_pos rfl]
      simp only [hbyte, Option.bind_some, isOpeningByte_of_single h, isClosingByte_of_single h]
      cases hopening : isOpening c with
      | true =>
        have hclosing := isClosing_eq_false_of_isOpening hopening
        exact hbehind (depth + 1) (by simp [hclosing]) (depthAfter_opening hopening depth)
      | false =>
        cases hclosing : isClosing c with
        | true =>
          have hless : difference? (depth + 1) 1 = some depth := if_pos (Nat.le_add_left 1 depth)
          simp only [hless, Option.bind_some, Bool.false_eq_true, if_false, if_true]
          cases depth with
          | zero =>
            have hhere : closeScanned? 0 ((c, .code) :: scan rest) = some ([], _) :=
              if_pos ⟨rfl, hclosing, rfl⟩
            rw [hscan, hhere]
            rfl
          | succ depth =>
            exact hbehind depth (by simp) (depthAfter_closing hclosing (depth + 1))
        | false =>
          exact hbehind depth (by simp [hclosing]) (by simp [depthAfter, hopening, hclosing])
    · obtain ⟨hopening, hclosing⟩ := isBracket_of_not_single h
      rw [closingIn?_high _ _ _ fun k hk ↦ exists_byteAt_of_not_single h hk before rest]
      exact hbehind depth (by simp [hclosing]) (by simp [depthAfter, hopening, hclosing])

end Closing

/-- The bracket that closes the one at a place is found byte by byte, with no offset out of range
and without a depth below zero. -/
theorem closingByte?_append (before text : List Char) :
    closingByte? (before ++ text) (byteLength before) =
      some (closingOffset? (before ++ text) (byteLength before)) := by
  rw [closingOffset?, splitBytes?_append, closingByte?]
  cases text with
  | nil => rw [List.append_nil, byteAt_of_le (Nat.le_refl _)]
  | cons c text =>
    by_cases hopening : isOpening c = true
    · have hsingle := utf8Size_of_isOpening hopening
      have hslash : c ≠ '/' := by
        rintro rfl
        cases hopening
      have hbyte := byteAt_of_single hsingle before text
      have htoken := token?_of_code hsingle (isQuote_eq_false_of_isOpening hopening) hslash
        (encode (before ++ c :: text)) (byteLength before)
      have hbehind : byteLength (before ++ [c]) = byteLength before + 1 := by
        rw [byteLength_concat, hsingle]
      obtain ⟨tokens, htokens, hread⟩ := exists_tokens (before ++ [c]) text
      have hclosing := closingIn?_eq hread rfl 0
      rw [List.append_assoc, hbehind] at htokens hclosing
      simp only [List.singleton_append] at htokens hclosing
      simp only [hbyte, isOpeningByte_of_single hsingle, hopening, if_true]
      rw [tokens?_of_some hbyte htoken (Nat.lt_succ_self _), htokens, Option.map_some,
        Option.bind_some, closingIn?, if_pos rfl]
      simp only [hbyte, Option.bind_some, isOpeningByte_of_single hsingle, hopening, if_true]
      exact hclosing
    · by_cases h : c.utf8Size = 1
      · simp only [byteAt_of_single h before text, isOpeningByte_of_single h, hopening,
          Bool.false_eq_true, if_false]
      · obtain ⟨b, hbyte, hhigh⟩ := exists_byteAt_of_not_single h c.utf8Size_pos before text
        rw [Nat.add_zero] at hbyte
        simp only [hbyte, (isBracketByte_of_high hhigh).1, hopening, Bool.false_eq_true, if_false]

end CalculatorCatalog.Text
