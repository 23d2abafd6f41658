import CalculatorCatalog.Json.Reader
import CalculatorCatalog.Proofs.Json.Members

/-!
# What can be read

A value can be read if its arrays and objects do not nest too deep and no object in it has two
members of one name. `ReadableAt` says this of a value inside so many arrays and objects, and
`readableAt_of_read` says that nothing else is ever read from a text: whatever is still open is
readable at its depth, and this is kept by each token (`Reading.readable_step`), because a member is
only ever added by `Json.insert` and nothing is opened beyond the limit. In particular, the names in
what is read are distinct (`distinct_of_read`).
-/

set_option autoImplicit false
set_option relaxedAutoImplicit false

namespace CalculatorCatalog.Json

/-! ### Distinct names -/

theorem distinctItems_iff {items : List Json} :
    DistinctItems items ↔ ∀ item ∈ items, Distinct item := by
  induction items with
  | nil => simp [DistinctItems]
  | cons first items ih => rw [DistinctItems, ih, List.forall_mem_cons]

theorem distinctMembers_iff {members : List (String × Json)} :
    DistinctMembers members ↔ ∀ member ∈ members, Distinct member.2 := by
  induction members with
  | nil => simp [DistinctMembers]
  | cons first members ih =>
    obtain ⟨name, value⟩ := first
    rw [DistinctMembers, ih, List.forall_mem_cons]

theorem distinct_object_iff {members : List (String × Json)} :
    Distinct (.object members) ↔
      (members.map (·.1)).Nodup ∧ ∀ member ∈ members, Distinct member.2 := by
  rw [Distinct, distinctMembers_iff]

/-! ### Readable values -/

/-- A value that can be read inside so many arrays and objects. -/
inductive ReadableAt : Nat → Json → Prop where
  | null (depth : Nat) : ReadableAt depth .null
  | bool (depth : Nat) (value : Bool) : ReadableAt depth (.bool value)
  | integer (depth : Nat) (value : Int) : ReadableAt depth (.integer value)
  | float (depth : Nat) (value : Number.Binary64) : ReadableAt depth (.float value)
  | string (depth : Nat) (value : String) : ReadableAt depth (.string value)
  | array {depth : Nat} {items : List Json} (hdepth : depth < maxDepth)
      (hitems : ∀ item ∈ items, ReadableAt (depth + 1) item) : ReadableAt depth (.array items)
  | object {depth : Nat} {members : List (String × Json)} (hdepth : depth < maxDepth)
      (hnames : (members.map (·.1)).Nodup)
      (hmembers : ∀ member ∈ members, ReadableAt (depth + 1) member.2) :
      ReadableAt depth (.object members)

namespace ReadableAt

variable {depth : Nat}

theorem array_iff {items : List Json} :
    ReadableAt depth (.array items) ↔
      depth < maxDepth ∧ ∀ item ∈ items, ReadableAt (depth + 1) item := by
  constructor
  · rintro ⟨⟩
    exact ⟨‹_›, ‹_›⟩
  · exact fun ⟨hdepth, hitems⟩ ↦ .array hdepth hitems

theorem object_iff {members : List (String × Json)} :
    ReadableAt depth (.object members) ↔
      depth < maxDepth ∧ (members.map (·.1)).Nodup ∧
        ∀ member ∈ members, ReadableAt (depth + 1) member.2 := by
  constructor
  · rintro ⟨⟩
    exact ⟨‹_›, ‹_›, ‹_›⟩
  · exact fun ⟨hdepth, hnames, hmembers⟩ ↦ .object hdepth hnames hmembers

theorem array_append {items : List Json} (h : ReadableAt depth (.array items)) {value : Json}
    (hvalue : ReadableAt (depth + 1) value) : ReadableAt depth (.array (items ++ [value])) := by
  obtain ⟨hdepth, hitems⟩ := array_iff.mp h
  refine .array hdepth fun item hitem ↦ ?_
  obtain hitem | hitem := List.mem_append.mp hitem
  · exact hitems item hitem
  · rwa [List.mem_singleton.mp hitem]

theorem object_insert {members : List (String × Json)} (h : ReadableAt depth (.object members))
    (name : String) {value : Json} (hvalue : ReadableAt (depth + 1) value) :
    ReadableAt depth (.object (insert name value members)) := by
  obtain ⟨hdepth, hnames, hmembers⟩ := object_iff.mp h
  refine .object hdepth (nodup_insert hnames name value) fun member hmember ↦ ?_
  obtain rfl | hmember := eq_or_mem_of_mem_insert hmember
  · exact hvalue
  · exact hmembers member hmember

/-- No object in a readable value has two members of one name. -/
theorem distinct {value : Json} (h : ReadableAt depth value) : value.Distinct := by
  induction h with
  | array hdepth hitems ih => exact distinctItems_iff.mpr ih
  | object hdepth hnames hmembers ih => exact distinct_object_iff.mpr ⟨hnames, ih⟩
  | _ => trivial

end ReadableAt

/-! ### What is open -/

/-- An open array or object that is readable so far at the given depth. -/
def Frame.ReadableAt (depth : Nat) : Frame → Prop
  | .array items => (Json.array items).ReadableAt depth
  | .object members _ => (Json.object members).ReadableAt depth

/-- Open arrays and objects that are readable so far, each at the depth at which it stands. -/
def ReadableFrames : List Frame → Prop
  | [] => True
  | frame :: frames => frame.ReadableAt frames.length ∧ ReadableFrames frames

namespace Reading

/-- Everything that has been read so far is readable. -/
def Readable : Reading → Prop
  | .atValue frames => ReadableFrames frames
  | .atFirstItem frames => (Json.array []).ReadableAt frames.length ∧ ReadableFrames frames
  | .afterItem items frames => (Json.array items).ReadableAt frames.length ∧ ReadableFrames frames
  | .atFirstMember frames => (Json.object []).ReadableAt frames.length ∧ ReadableFrames frames
  | .atName members frames => (Json.object members).ReadableAt frames.length ∧ ReadableFrames frames
  | .atColon members _ frames =>
    (Json.object members).ReadableAt frames.length ∧ ReadableFrames frames
  | .afterMember members frames =>
    (Json.object members).ReadableAt frames.length ∧ ReadableFrames frames
  | .done value => value.ReadableAt 0

theorem readable_complete {value : Json} {frames : List Frame}
    (hvalue : value.ReadableAt frames.length) (hframes : ReadableFrames frames) :
    (complete value frames).Readable := by
  cases frames with
  | nil => exact hvalue
  | cons frame frames =>
    cases frame with
    | array items => exact ⟨hframes.1.array_append hvalue, hframes.2⟩
    | object members name => exact ⟨hframes.1.object_insert name hvalue, hframes.2⟩

theorem readable_enter {frames : List Frame} {opened next : Reading}
    (hopened : frames.length < maxDepth → opened.Readable)
    (h : enter frames opened = .ok next) : next.Readable := by
  unfold enter at h
  split_ifs at h with hdepth
  cases h
  exact hopened (Nat.not_le.mp hdepth)

theorem readable_beginValue {frames : List Frame} (hframes : ReadableFrames frames)
    {token : Token} {next : Reading} (h : beginValue frames token = .ok next) : next.Readable := by
  unfold beginValue at h
  split at h
  · refine readable_enter (fun hdepth ↦ ?_) h
    exact ⟨.array hdepth (by simp), hframes⟩
  · refine readable_enter (fun hdepth ↦ ?_) h
    exact ⟨.object hdepth List.nodup_nil (by simp), hframes⟩
  · cases h
    exact readable_complete (.null _) hframes
  · rename_i value
    cases h
    exact readable_complete (.bool _ value) hframes
  · rename_i value extent
    cases value with
    | error fault => cases h
    | ok text =>
      cases h
      exact readable_complete (.string _ text) hframes
  · rename_i value extent
    cases value with
    | error fault => cases h
    | ok numeral =>
      cases h
      refine readable_complete ?_ hframes
      cases numeral with
      | integer value => exact .integer _ value
      | float value => exact .float _ value
  · cases h
  · cases h

theorem readable_beginMember {members : List (String × Json)} {frames : List Frame}
    (hopen : (Json.object members).ReadableAt frames.length ∧ ReadableFrames frames)
    {token : Token} {next : Reading} (h : beginMember members frames token = .ok next) :
    next.Readable := by
  unfold beginMember at h
  split at h
  · rename_i value extent
    cases value with
    | error fault => cases h
    | ok name =>
      cases h
      exact hopen
  · cases h

/-- Each token keeps what has been read readable. -/
theorem readable_step {reading next : Reading} {token : Token} (hreading : reading.Readable)
    (h : reading.step token = .ok next) : next.Readable := by
  unfold step at h
  split at h
  · exact readable_beginValue hreading h
  · cases h
    exact readable_complete hreading.1 hreading.2
  · rename_i frames token
    have hframes : ReadableFrames (.array [] :: frames) := hreading
    exact readable_beginValue hframes h
  · cases h
    exact readable_complete hreading.1 hreading.2
  · cases h
    exact hreading
  · cases h
    exact readable_complete hreading.1 hreading.2
  · exact readable_beginMember hreading h
  · exact readable_beginMember hreading h
  · cases h
    exact hreading
  · cases h
    exact readable_complete hreading.1 hreading.2
  · cases h
    exact hreading
  · cases h

/-- All tokens of a text keep what has been read readable. -/
theorem readable_foldlM {reading last : Reading} {tokens : List Token}
    (hreading : reading.Readable) (h : tokens.foldlM step reading = .ok last) : last.Readable := by
  induction tokens generalizing reading with
  | nil =>
    obtain rfl := Except.ok.inj h
    exact hreading
  | cons token tokens ih =>
    rw [List.foldlM_cons] at h
    cases hstep : step reading token with
    | error fault =>
      rw [hstep] at h
      cases h
    | ok next =>
      rw [hstep] at h
      exact ih (readable_step hreading hstep) h

end Reading

/-- A value that is read from a text is readable. -/
theorem readableAt_of_read {text : String} {value : Json} (h : read text = .ok value) :
    value.ReadableAt 0 := by
  unfold read ofTokens at h
  cases hlast : (tokens text.toList).foldlM Reading.step (.atValue []) with
  | error fault =>
    rw [hlast] at h
    cases h
  | ok last =>
    have hreadable : last.Readable := Reading.readable_foldlM (by simp [Reading.Readable,
      ReadableFrames]) hlast
    rw [hlast] at h
    change last.finish = .ok value at h
    unfold Reading.finish at h
    split at h
    · exact Except.ok.inj h ▸ hreadable
    · cases h

/-- A value that is read from a text has no object with two members of one name. -/
theorem distinct_of_read {text : String} {value : Json} (h : read text = .ok value) :
    value.Distinct :=
  (readableAt_of_read h).distinct

end CalculatorCatalog.Json
