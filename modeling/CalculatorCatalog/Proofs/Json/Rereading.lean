import CalculatorCatalog.Proofs.Json.Floats
import CalculatorCatalog.Proofs.Json.Readable

/-!
# What is read from a written value

`reread` says for every value what is read from its text: strings, literals and whole numbers as
they are, every other number as its own text is read, and of members with one name the first place
and the last value. `read_pretty_eq_reread` proves that reading the whole text comes to this, faults
included, as long as the value does not nest too deep and its whole numbers fit 64 bits (`FitsAt`).

The text of a value can stand anywhere in a text. `ReadsOn` says that reading goes on after it as
it does after a complete value, whatever is open around it, and is proved by induction on the value.
-/

set_option autoImplicit false
set_option relaxedAutoImplicit false

namespace CalculatorCatalog.Json

open CalculatorCatalog.Number

mutual

/-- What is read from the text of a value, if its whole numbers fit 64 bits. -/
def reread : Json → Except Fault Json
  | .float value => read (String.ofList (floatText value))
  | .array items => do return .array (← rereadItems items)
  | .object members => do return .object (← rereadMembers [] members)
  | value => .ok value

/-- `reread` for the items of an array. -/
def rereadItems : List Json → Except Fault (List Json)
  | [] => .ok []
  | value :: items => do return (← reread value) :: (← rereadItems items)

/-- `reread` for the members of an object, behind those that have been read. -/
def rereadMembers (before : List (String × Json)) :
    List (String × Json) → Except Fault (List (String × Json))
  | [] => .ok before
  | (name, value) :: members => do rereadMembers (insert name (← reread value) before) members

end

/-- A value that can be written and read inside so many arrays and objects. -/
inductive FitsAt : Nat → Json → Prop where
  | null (depth : Nat) : FitsAt depth .null
  | bool (depth : Nat) (value : Bool) : FitsAt depth (.bool value)
  | integer (depth : Nat) {value : Int} (hvalue : FitsInteger value) : FitsAt depth (.integer value)
  | float (depth : Nat) (value : Binary64) : FitsAt depth (.float value)
  | string (depth : Nat) (value : String) : FitsAt depth (.string value)
  | array {depth : Nat} {items : List Json} (hdepth : depth < maxDepth)
      (hitems : ∀ item ∈ items, FitsAt (depth + 1) item) : FitsAt depth (.array items)
  | object {depth : Nat} {members : List (String × Json)} (hdepth : depth < maxDepth)
      (hmembers : ∀ member ∈ members, FitsAt (depth + 1) member.2) : FitsAt depth (.object members)

/-! ### Reading on -/

namespace Reading

/-- What is reached when a text is read on. -/
def readOn (reading : Reading) (text : List Char) : Except Fault Reading :=
  (tokens text).foldlM step reading

variable {reading : Reading} {frames : List Frame}

theorem readOn_of_tokens {text rest : List Char} {token : Token}
    (htokens : tokens text = token :: tokens rest) :
    reading.readOn text = reading.step token >>= fun next ↦ next.readOn rest := by
  rw [readOn, htokens, List.foldlM_cons]
  rfl

theorem readOn_of_step {text rest : List Char} {token : Token} {next : Reading}
    (htokens : tokens text = token :: tokens rest) (hstep : reading.step token = .ok next) :
    reading.readOn text = next.readOn rest := by
  rw [readOn_of_tokens htokens, hstep]
  rfl

theorem readOn_lineBreak (reading : Reading) (level : Nat) (text : List Char) :
    reading.readOn (lineBreak level ++ text) = reading.readOn text := by
  rw [readOn, tokens_lineBreak, readOn]

theorem readOn_space (reading : Reading) (text : List Char) :
    reading.readOn (' ' :: text) = reading.readOn text := by
  rw [readOn, tokens_space (by decide), readOn]

/-- What begins a value and does not end an array begins the first item of an array. -/
theorem readOn_atFirstItem {text : List Char} {token : Token} {later : List Token}
    (htokens : tokens text = token :: later) (hother : token ≠ .closeArray) :
    (atFirstItem frames).readOn text = (atValue (.array [] :: frames)).readOn text := by
  have hstep : step (.atFirstItem frames) token = step (.atValue (.array [] :: frames)) token := by
    cases token with
    | closeArray => exact absurd rfl hother
    | _ => rfl
  rw [readOn, readOn, htokens, List.foldlM_cons, List.foldlM_cons, hstep]

end Reading

open Reading

theorem read_eq_readOn (text : String) :
    read text = (atValue []).readOn text.toList >>= finish :=
  rfl

/-! ### Numbers -/

/-- A number is one token that begins a value, whatever is open and whatever comes after it. -/
theorem exists_token_floatText (value : Binary64) :
    ∃ token read, token ≠ .closeArray ∧
      (∀ rest, EndsNumber rest → tokens (floatText value ++ rest) = token :: tokens rest) ∧
      ∀ frames, step (.atValue frames) token =
        Except.map (fun value ↦ complete value frames) read := by
  cases value with
  | finite negative units =>
    obtain ⟨value, htokens⟩ := tokens_floatText_finite negative units
    refine ⟨_, value.map Numeral.toJson, by simp, htokens, fun frames ↦ ?_⟩
    cases value <;> rfl
  | infinite negative =>
    exact ⟨.null, .ok .null, by simp, fun rest _ ↦ tokens_null rest, fun _ ↦ rfl⟩
  | nan => exact ⟨.null, .ok .null, by simp, fun rest _ ↦ tokens_null rest, fun _ ↦ rfl⟩

/-- A number is read in a text as its own text is read. -/
theorem readOn_floatText (value : Binary64) (frames : List Frame) {rest : List Char}
    (hrest : EndsNumber rest) :
    (atValue frames).readOn (floatText value ++ rest) =
      reread (.float value) >>= fun value ↦ (complete value frames).readOn rest := by
  obtain ⟨token, result, -, htokens, hstep⟩ := exists_token_floatText value
  have hread : reread (.float value) = result := by
    have hown := htokens [] (by rintro c ⟨⟩)
    rw [List.append_nil] at hown
    rw [reread, read_eq_readOn, String.toList_ofList, readOn_of_tokens hown, hstep]
    cases result <;> rfl
  rw [readOn_of_tokens (htokens rest hrest), hstep, hread]
  cases result <;> rfl

/-! ### Values -/

/-- Reading goes on after the text of the value inside so many arrays and objects. -/
def ReadsOn (depth : Nat) (value : Json) : Prop :=
  ∀ (level : Nat) (frames : List Frame) (rest : List Char), frames.length = depth →
    EndsNumber rest → (atValue frames).readOn (prettyText level value ++ rest) =
      reread value >>= fun value ↦ (complete value frames).readOn rest

theorem endsNumber_lineBreak (level : Nat) (text : List Char) :
    EndsNumber (lineBreak level ++ text) :=
  endsNumber_cons (by decide) _

/-- No text of a value begins with the end of an array. -/
theorem exists_tokens_prettyText {depth : Nat} {value : Json} (h : FitsAt depth value) (level : Nat)
    {rest : List Char} (hrest : EndsNumber rest) :
    ∃ token later, tokens (prettyText level value ++ rest) = token :: later ∧
      token ≠ .closeArray := by
  cases h with
  | null => exact ⟨_, _, tokens_null rest, by simp⟩
  | bool _ value => exact ⟨_, _, tokens_boolText value rest, by simp⟩
  | integer _ hvalue => exact ⟨_, _, tokens_integerText hvalue hrest, by simp⟩
  | float _ value =>
    obtain ⟨token, _, hother, htokens, -⟩ := exists_token_floatText value
    exact ⟨token, _, htokens rest hrest, hother⟩
  | string _ value => exact ⟨_, _, tokens_quote value rest, by simp⟩
  | @array _ items => cases items <;> exact ⟨_, _, tokens_openArray _, by simp⟩
  | @object _ members => cases members <;> exact ⟨_, _, tokens_openObject _, by simp⟩

theorem exists_tokens_prettyItems {depth : Nat} {value : Json} (h : FitsAt depth value)
    (items : List Json) (level outer : Nat) (rest : List Char) :
    ∃ token later,
      tokens (prettyItems level (value :: items) ++ (lineBreak outer ++ rest)) = token :: later ∧
        token ≠ .closeArray := by
  cases items with
  | nil =>
    rw [prettyItems, List.append_assoc, tokens_lineBreak]
    exact exists_tokens_prettyText h level (endsNumber_lineBreak _ _)
  | cons next items =>
    have htext : prettyItems level (value :: next :: items) =
        lineBreak level ++ prettyText level value ++ ',' :: prettyItems level (next :: items) :=
      rfl
    rw [htext, List.append_assoc, List.append_assoc, tokens_lineBreak]
    exact exists_tokens_prettyText h level (endsNumber_cons (by decide) _)

/-- Items are read one after the other, and then the array is complete. -/
theorem readOn_prettyItems {frames : List Frame} {value : Json} {items : List Json}
    (h : ∀ item ∈ value :: items, ReadsOn (frames.length + 1) item) (level outer : Nat)
    (before : List Json) (rest : List Char) :
    (atValue (.array before :: frames)).readOn
        (prettyItems level (value :: items) ++ (lineBreak outer ++ ']' :: rest)) =
      rereadItems (value :: items) >>= fun items ↦
        (complete (.array (before ++ items)) frames).readOn rest := by
  induction items generalizing value before with
  | nil =>
    have hvalue := h value List.mem_cons_self
    rw [prettyItems, List.append_assoc, readOn_lineBreak,
      hvalue level _ _ (List.length_cons ..) (endsNumber_lineBreak _ _), rereadItems, rereadItems]
    cases reread value with
    | error fault => rfl
    | ok value =>
      change (afterItem (before ++ [value]) frames).readOn (lineBreak outer ++ ']' :: rest) = _
      rw [readOn_lineBreak]
      exact readOn_of_step (tokens_closeArray rest) rfl
  | cons next items ih =>
    have hvalue := h value List.mem_cons_self
    have hitems := ih (fun item hitem ↦ h item (List.mem_cons_of_mem value hitem))
    have htext : prettyItems level (value :: next :: items) =
        lineBreak level ++ prettyText level value ++ ',' :: prettyItems level (next :: items) :=
      rfl
    rw [htext, List.append_assoc, List.append_assoc, readOn_lineBreak, List.cons_append,
      hvalue level _ _ (List.length_cons ..) (endsNumber_cons (by decide) _), rereadItems]
    cases reread value with
    | error fault => rfl
    | ok value =>
      change (afterItem (before ++ [value]) frames).readOn (',' :: _) = _
      rw [readOn_of_step (tokens_comma _) rfl, hitems (before ++ [value])]
      cases rereadItems (next :: items) with
      | error fault => rfl
      | ok items =>
        change (complete (.array (before ++ [value] ++ items)) frames).readOn rest = _
        rw [List.append_assoc]
        rfl

/-- Where a reading stands if the name of a member can come next. -/
def AtMember (reading : Reading) (before : List (String × Json)) (frames : List Frame) : Prop :=
  ∀ name rest, reading.readOn (quote name ++ rest) = (atColon before name frames).readOn rest

theorem atMember_atFirstMember (frames : List Frame) : AtMember (atFirstMember frames) [] frames :=
  fun name rest ↦ readOn_of_step (tokens_quote name rest) rfl

theorem atMember_atName (before : List (String × Json)) (frames : List Frame) :
    AtMember (atName before frames) before frames :=
  fun name rest ↦ readOn_of_step (tokens_quote name rest) rfl

/-- A member is read and inserted, whatever ends it. -/
theorem readOn_member {frames : List Frame} {value : Json} {before : List (String × Json)}
    {reading : Reading} (hreading : AtMember reading before frames)
    (hvalue : ReadsOn (frames.length + 1) value) (name : String) (level : Nat) {rest : List Char}
    (hrest : EndsNumber rest) :
    reading.readOn (lineBreak level ++ (quote name ++ ':' :: ' ' ::
        (prettyText level value ++ rest))) =
      reread value >>= fun value ↦
        (afterMember (insert name value before) frames).readOn rest := by
  rw [readOn_lineBreak, hreading, readOn_of_step (tokens_colon _) rfl, readOn_space,
    hvalue level _ _ (List.length_cons ..) hrest]
  rfl

/-- Members are read one after the other, and then the object is complete. -/
theorem readOn_prettyMembers {frames : List Frame} {name : String} {value : Json}
    {members before : List (String × Json)} {reading : Reading}
    (hreading : AtMember reading before frames)
    (h : ∀ member ∈ (name, value) :: members, ReadsOn (frames.length + 1) member.2)
    (level outer : Nat) (rest : List Char) :
    reading.readOn
        (prettyMembers level ((name, value) :: members) ++ (lineBreak outer ++ '\x7d' :: rest)) =
      rereadMembers before ((name, value) :: members) >>= fun members ↦
        (complete (.object members) frames).readOn rest := by
  induction members generalizing name value before reading with
  | nil =>
    have htext : prettyMembers level [(name, value)] =
        lineBreak level ++ quote name ++ ':' :: ' ' :: prettyText level value := rfl
    rw [htext, List.append_assoc, List.append_assoc, List.cons_append, List.cons_append,
      readOn_member hreading (h _ List.mem_cons_self) name level (endsNumber_lineBreak _ _),
      rereadMembers]
    cases reread value with
    | error fault => rfl
    | ok value =>
      change (afterMember (insert name value before) frames).readOn (lineBreak outer ++ _) = _
      rw [readOn_lineBreak]
      exact readOn_of_step (tokens_closeObject rest) rfl
  | cons next members ih =>
    have htext : prettyMembers level ((name, value) :: next :: members) =
        lineBreak level ++ quote name ++ ':' :: ' ' :: prettyText level value
          ++ ',' :: prettyMembers level (next :: members) := rfl
    rw [htext, List.append_assoc, List.append_assoc, List.append_assoc, List.cons_append,
      List.cons_append, List.cons_append,
      readOn_member hreading (h _ List.mem_cons_self) name level (endsNumber_cons (by decide) _),
      rereadMembers]
    cases reread value with
    | error fault => rfl
    | ok value =>
      change (afterMember (insert name value before) frames).readOn (',' :: _) = _
      rw [readOn_of_step (tokens_comma _) rfl]
      exact ih (atMember_atName _ frames) fun member hmember ↦
        h member (List.mem_cons_of_mem _ hmember)

/-- Reading goes on after a value that fits, wherever it can stand. -/
theorem readsOn_of_fitsAt {depth : Nat} {value : Json} (h : FitsAt depth value) :
    ReadsOn depth value := by
  induction h with
  | null =>
    intro level frames rest hframes hrest
    exact readOn_of_step (tokens_null rest) rfl
  | bool depth value =>
    intro level frames rest hframes hrest
    exact readOn_of_step (tokens_boolText value rest) rfl
  | integer depth hvalue =>
    intro level frames rest hframes hrest
    exact readOn_of_step (tokens_integerText hvalue hrest) rfl
  | float depth value =>
    intro level frames rest hframes hrest
    exact readOn_floatText value frames hrest
  | string depth value =>
    intro level frames rest hframes hrest
    exact readOn_of_step (tokens_quote value rest) rfl
  | @array depth items hdepth hitems ih =>
    rintro level frames rest rfl hrest
    have hopen : (atValue frames).step .openArray = .ok (.atFirstItem frames) :=
      if_neg (Nat.not_le.mpr hdepth)
    cases items with
    | nil =>
      have htext : prettyText level (.array []) ++ rest = '[' :: ']' :: rest := rfl
      rw [htext, readOn_of_step (tokens_openArray _) hopen]
      exact readOn_of_step (tokens_closeArray rest) rfl
    | cons value items =>
      have htext : prettyText level (.array (value :: items)) ++ rest =
          '[' :: (prettyItems (level + 1) (value :: items) ++
            (lineBreak level ++ ']' :: rest)) := by
        rw [prettyText]
        simp
      obtain ⟨token, later, htokens, hother⟩ := exists_tokens_prettyItems
        (hitems value List.mem_cons_self) items (level + 1) level (']' :: rest)
      rw [htext, readOn_of_step (tokens_openArray _) hopen, readOn_atFirstItem htokens hother,
        readOn_prettyItems ih, reread]
      cases rereadItems (value :: items) <;> rfl
  | @object depth members hdepth hmembers ih =>
    rintro level frames rest rfl hrest
    have hopen : (atValue frames).step .openObject = .ok (.atFirstMember frames) :=
      if_neg (Nat.not_le.mpr hdepth)
    cases members with
    | nil =>
      have htext : prettyText level (.object []) ++ rest = '\x7b' :: '\x7d' :: rest := rfl
      rw [htext, readOn_of_step (tokens_openObject _) hopen]
      exact readOn_of_step (tokens_closeObject rest) rfl
    | cons first members =>
      have htext : prettyText level (.object (first :: members)) ++ rest =
          '\x7b' :: (prettyMembers (level + 1) (first :: members) ++
            (lineBreak level ++ '\x7d' :: rest)) := by
        rw [prettyText]
        simp
      rw [htext, readOn_of_step (tokens_openObject _) hopen,
        readOn_prettyMembers (atMember_atFirstMember frames) ih, reread]
      cases rereadMembers [] (first :: members) <;> rfl

/-- Reading the text that is written for a value that fits comes to `reread`. -/
theorem read_pretty_eq_reread {value : Json} (h : FitsAt 0 value) :
    read (value.pretty ++ "\n") = reread value := by
  have hread := readsOn_of_fitsAt h 0 [] ['\n'] rfl (endsNumber_cons (by decide) [])
  have htext : (value.pretty ++ "\n").toList = prettyText 0 value ++ ['\n'] := by
    rw [String.toList_append, pretty, String.toList_ofList]
    rfl
  rw [read_eq_readOn, htext, hread]
  cases reread value <;> rfl

end CalculatorCatalog.Json
