import CalculatorCatalog.Config.Reader
import CalculatorCatalog.Proofs.Json.Layouts

/-!
# Values that are passed over

A value of the grammar `Json.IsValue` is passed over whole, whatever it holds and wherever it stands
(`Skipping.passesOver_of_isValue`). In a configuration it stands behind a name that is no setting,
and the draft that has been read so far is kept (`foldlM_skipping`).
-/

set_option autoImplicit false
set_option relaxedAutoImplicit false

namespace CalculatorCatalog.Config

open CalculatorCatalog.Json (Token Fault IsValue memberTokens)

section

variable {σ α β : Type} {step : σ → Token → Except Fault σ} {state next : σ}

theorem foldlM_cons_of_step {token : Token} (h : step state token = .ok next) (rest : List Token) :
    (token :: rest).foldlM step state = rest.foldlM step next := by
  rw [List.foldlM_cons, h]
  rfl

theorem foldlM_append_of_foldlM {read : List Token} (h : read.foldlM step state = .ok next)
    (rest : List Token) : (read ++ rest).foldlM step state = rest.foldlM step next := by
  rw [List.foldlM_append, h]
  rfl

theorem exists_intercalate_cons (separator first : List α) (others : List (List α)) :
    ∃ later, separator.intercalate (first :: others) = first ++ later := by
  cases others with
  | nil => exact ⟨[], by rw [List.intercalate_singleton, List.append_nil]⟩
  | cons next others =>
    exact ⟨_, by rw [List.intercalate_cons_cons, List.append_assoc]⟩

/-- Items with commas between them are read one after the other. What has been read of them is
gathered by `add`, and `Remains` is what it takes to read the items that remain. The first item may
be read from another state than the ones behind a comma. -/
theorem foldlM_intercalate (step : σ → Token → Except Fault σ) (tokens : α → List Token)
    (add : β → α → β) (start after : β → σ) (Remains : β → List α → Prop)
    (hcomma : ∀ read, step (after read) .comma = .ok (start read))
    (hitem : ∀ read item items, Remains read (item :: items) →
      (tokens item).foldlM step (start read) = .ok (after (add read item)) ∧
        Remains (add read item) items)
    (read : β) {first : α} (items : List α)
    (hfirst : (tokens first).foldlM step state = .ok (after (add read first)))
    (hitems : Remains (add read first) items) :
    ([Token.comma].intercalate ((first :: items).map tokens)).foldlM step state =
      .ok (after ((first :: items).foldl add read)) := by
  induction items generalizing read first state with
  | nil =>
    rw [List.map_singleton, List.intercalate_singleton, hfirst]
    rfl
  | cons next items ih =>
    obtain ⟨hnext, hrest⟩ := hitem _ _ _ hitems
    rw [List.map_cons, List.map_cons, List.intercalate_cons_cons, List.append_assoc,
      foldlM_append_of_foldlM hfirst, List.singleton_append, foldlM_cons_of_step (hcomma _)]
    exact ih _ hnext hrest

end

namespace Skipping

variable {enclosures : List Enclosure}

/-- A value is passed over, whatever is open around it. -/
def PassesOver (value : List Token) : Prop :=
  ∀ enclosures, value.foldlM step (.atValue enclosures) = .ok (complete enclosures)

/-- No value begins with the end of an array, so a value begins the first item of an array as it
begins any other one. -/
theorem foldlM_step_atFirstItem {value : List Token} (h : IsValue value) (rest : List Token) :
    (value ++ rest).foldlM step (.atFirstItem enclosures) =
      (value ++ rest).foldlM step (.atValue (.array :: enclosures)) := by
  cases h <;> rfl

/-- Items are passed over one after the other, and then the array is complete. -/
theorem foldlM_step_items {item : List Token} {items : List (List Token)}
    (h : ∀ value ∈ item :: items, PassesOver value) :
    ([Token.comma].intercalate (item :: items) ++ [Token.closeArray]).foldlM step
        (.atValue (.array :: enclosures)) = .ok (complete enclosures) := by
  obtain ⟨hitem, hitems⟩ := List.forall_mem_cons.mp h
  have hread := foldlM_intercalate step id (fun _ _ ↦ ())
    (fun _ ↦ .atValue (.array :: enclosures)) (fun _ ↦ .afterItem enclosures)
    (fun _ values ↦ ∀ value ∈ values, PassesOver value) (fun _ ↦ rfl)
    (fun _ _ _ h ↦ (List.forall_mem_cons.mp h).imp_left (· (.array :: enclosures)))
    () items (hitem (.array :: enclosures)) hitems
  rw [List.map_id] at hread
  rw [foldlM_append_of_foldlM hread]
  rfl

/-- Members are passed over one after the other, and then the object is complete. -/
theorem foldlM_step_members {member : Except Fault String × List Token}
    {members : List (Except Fault String × List Token)}
    (h : ∀ item ∈ member :: members, PassesOver item.2) :
    ([Token.comma].intercalate ((member :: members).map memberTokens) ++
        [Token.closeObject]).foldlM step (.atFirstMember enclosures) =
      .ok (complete enclosures) := by
  obtain ⟨hmember, hmembers⟩ := List.forall_mem_cons.mp h
  have hfirst : (memberTokens member).foldlM step (.atFirstMember enclosures) =
      .ok (.afterMember enclosures) := hmember (.object :: enclosures)
  have hread := foldlM_intercalate step memberTokens (fun _ _ ↦ ())
    (fun _ ↦ .atName enclosures) (fun _ ↦ .afterMember enclosures)
    (fun _ items ↦ ∀ item ∈ items, PassesOver item.2) (fun _ ↦ rfl)
    (fun _ _ _ h ↦ (List.forall_mem_cons.mp h).imp_left (· (.object :: enclosures)))
    () members hfirst hmembers
  rw [foldlM_append_of_foldlM hread]
  rfl

/-- A value is passed over whole. -/
theorem passesOver_of_isValue {value : List Token} (h : IsValue value) : PassesOver value := by
  induction h with
  | null => exact fun _ ↦ rfl
  | bool => exact fun _ ↦ rfl
  | string => exact fun _ ↦ rfl
  | number => exact fun _ ↦ rfl
  | @array items hitems ih =>
    intro enclosures
    rw [foldlM_cons_of_step rfl]
    cases items with
    | nil => rfl
    | cons item items =>
      obtain ⟨later, hlater⟩ := exists_intercalate_cons [.comma] item items
      rw [hlater, List.append_assoc, foldlM_step_atFirstItem (hitems item List.mem_cons_self),
        ← List.append_assoc, ← hlater]
      exact foldlM_step_items ih
  | @object members hmembers ih =>
    intro enclosures
    rw [foldlM_cons_of_step rfl]
    cases members with
    | nil => rfl
    | cons member members => exact foldlM_step_members ih

end Skipping

namespace Reading

/-- What is passed over to its end keeps the draft. -/
theorem foldlM_step_skipping {read : List Token} {state : Skipping} (hstate : state ≠ .done)
    (h : read.foldlM Skipping.step state = .ok .done) (draft : Draft) :
    read.foldlM step (.skipping state draft) = .ok (.afterValue draft) := by
  induction read generalizing state with
  | nil => exact absurd (Except.ok.inj h) hstate
  | cons token read ih =>
    rw [List.foldlM_cons] at h
    cases hstep : state.step token with
    | error fault =>
      rw [hstep] at h
      cases h
    | ok next =>
      rw [hstep] at h
      replace h : read.foldlM Skipping.step next = .ok .done := h
      by_cases hnext : next = .done
      · -- Nothing can follow what is complete.
        subst hnext
        cases read with
        | nil => rw [foldlM_cons_of_step (by rw [step, hstep]; rfl)]; rfl
        | cons other read => cases h
      · have hgo : step (.skipping state draft) token = .ok (.skipping next draft) := by
          rw [step, hstep]
          cases next with
          | done => exact absurd rfl hnext
          | _ => rfl
        rw [foldlM_cons_of_step hgo]
        exact ih hnext h

/-- A value behind a name that is no setting is passed over. -/
theorem foldlM_skipping {value : List Token} (h : IsValue value) (draft : Draft) :
    value.foldlM step (.skipping (.atValue []) draft) = .ok (.afterValue draft) :=
  foldlM_step_skipping (by simp) (Skipping.passesOver_of_isValue h []) draft

end Reading

end CalculatorCatalog.Config
