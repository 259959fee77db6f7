import Mathlib.Logic.Basic

/-!
Steps that can fail: when a sequence of them succeeds, and what a fold of them keeps.
-/

namespace GraphQL

/-! ## Sequences -/

section

variable {ε δ α β γ : Type} {first : Except ε α}

theorem bind_eq_ok_iff {next : α → Except ε β} {result : β} :
    first >>= next = .ok result ↔ ∃ value, first = .ok value ∧ next value = .ok result := by
  cases first <;> simp [bind, Except.bind]

theorem bind_eq_ok {next : α → Except ε β} {result : β} (isOk : first >>= next = .ok result) :
    ∃ value, first = .ok value ∧ next value = .ok result :=
  bind_eq_ok_iff.mp isOk

theorem both_eq_ok {second : Except ε β} {combine : α → β → γ} {result : γ} :
    (do
      let left ← first
      let right ← second
      return combine left right) = .ok result ↔
      ∃ left right, first = .ok left ∧ second = .ok right ∧ combine left right = result := by
  cases first <;> cases second <;> simp [bind, Except.bind, pure, Except.pure]

theorem mapError_eq_ok {change : ε → δ} {value : α} :
    first.mapError change = .ok value ↔ first = .ok value := by
  cases first <;> constructor <;> intro equal <;> cases equal <;> rfl

theorem map_eq_ok {change : α → β} {result : β} :
    first.map change = .ok result ↔ ∃ value, first = .ok value ∧ change value = result := by
  cases first <;> simp [Except.map]

/-! ### Failures -/

theorem bind_eq_error {next : α → Except ε β} {error : ε} (failed : first >>= next = .error error) :
    first = .error error ∨ ∃ value, first = .ok value ∧ next value = .error error := by
  cases first with
  | error earlier => exact .inl (congrArg _ (Except.error.inj failed))
  | ok value => exact .inr ⟨value, rfl, failed⟩

theorem mapError_eq_error {change : ε → δ} {error : δ}
    (failed : first.mapError change = .error error) :
    ∃ earlier, first = .error earlier ∧ change earlier = error := by
  cases first with
  | error earlier => exact ⟨earlier, rfl, Except.error.inj failed⟩
  | ok value => cases failed

theorem map_eq_error {change : α → β} {error : ε} (failed : first.map change = .error error) :
    first = .error error := by
  cases first with
  | error earlier => exact congrArg _ (Except.error.inj failed)
  | ok value => cases failed

/-- The error of a step that fails. -/
def failure? : Except ε α → Option ε
  | .error error => some error
  | .ok _ => none

theorem failure?_eq_some {error : ε} : failure? first = some error ↔ first = .error error := by
  cases first <;> simp [failure?]

theorem failure?_eq_none : failure? first = none ↔ ∃ value, first = .ok value := by
  cases first <;> simp [failure?]

theorem failure?_mapError {change : ε → δ} :
    failure? (first.mapError change) = (failure? first).map change := by
  cases first <;> rfl

theorem failure?_map {change : α → β} : failure? (first.map change) = failure? first := by
  cases first <;> rfl

/-- Of two parts that do not depend on each other the first to fail decides. -/
theorem failure?_both {second : Except ε β} {combine : α → β → γ} :
    failure? (do
        let left ← first
        let right ← second
        return combine left right) = (failure? first).or (failure? second) := by
  cases first <;> cases second <;> rfl

theorem failure?_bind_congr {next next' : α → Except ε β}
    (alike : ∀ value, failure? (next value) = failure? (next' value)) :
    failure? (first >>= next) = failure? (first >>= next') := by
  cases first with
  | error error => rfl
  | ok value => exact alike value

/-! What is read does not matter here, only that it is. -/

theorem exists_ok_bind {next : α → Except ε β} :
    (∃ value, first >>= next = .ok value) ↔
      ∃ value, first = .ok value ∧ ∃ later, next value = .ok later := by
  simp only [bind_eq_ok_iff]
  exact exists_comm.trans (exists_congr fun _ => exists_and_left)

/-- Two parts that do not depend on each other succeed together if both do. -/
theorem exists_ok_both {second : Except ε β} {combine : α → β → γ} :
    (∃ value, (do
        let left ← first
        let right ← second
        return combine left right) = .ok value) ↔
      (∃ value, first = .ok value) ∧ ∃ value, second = .ok value := by
  cases first <;> cases second <;> simp [bind, Except.bind, pure, Except.pure]

theorem exists_ok_mapError {change : ε → δ} :
    (∃ value, first.mapError change = .ok value) ↔ ∃ value, first = .ok value :=
  exists_congr fun _ => mapError_eq_ok

theorem exists_ok_map {change : α → β} :
    (∃ value, first.map change = .ok value) ↔ ∃ value, first = .ok value := by
  cases first <;> simp [Except.map]

end

/-! ## Folds -/

section

variable {α β ε : Type} {step : β → α → Except ε β} {items : List α} {before after : β}

/-- Where every step keeps what holds and what earlier steps did for their items, all items are done
at the end. -/
theorem foldlM_done (holds : β → Prop) (related : β → β → Prop) (done : β → α → Prop)
    (refl : ∀ state, related state state)
    (trans : ∀ {first second third}, related first second → related second third →
      related first third)
    (kept : ∀ before after item, related before after → done before item → done after item)
    (each : ∀ item ∈ items, ∀ before after, holds before → step before item = .ok after →
      holds after ∧ related before after ∧ done after item)
    (start : holds before) (folded : items.foldlM step before = .ok after) :
    holds after ∧ related before after ∧ ∀ item ∈ items, done after item := by
  induction items generalizing before with
  | nil =>
      cases folded
      exact ⟨start, refl _, fun item member => by cases member⟩
  | cons head tail induction =>
      rw [List.foldlM_cons] at folded
      rcases bind_eq_ok folded with ⟨between, first, rest⟩
      have here := each head List.mem_cons_self before between start first
      have later := induction (fun item member => each item (List.mem_cons_of_mem head member))
        here.1 rest
      refine ⟨later.1, trans here.2.1 later.2.1, fun item member => ?_⟩
      rcases List.mem_cons.mp member with equal | member
      · exact equal ▸ kept _ _ _ later.2.1 here.2.2
      · exact later.2.2 item member

/-- What each step keeps, the whole fold keeps. -/
theorem foldlM_related (related : β → β → Prop) (refl : ∀ state, related state state)
    (trans : ∀ {first second third}, related first second → related second third →
      related first third)
    (each : ∀ item ∈ items, ∀ before after, step before item = .ok after → related before after)
    (folded : items.foldlM step before = .ok after) : related before after :=
  (foldlM_done (fun _ => True) related (fun _ _ => True) refl trans
    (fun _ _ _ _ _ => trivial)
    (fun item listed before after _ taken => ⟨trivial, each item listed before after taken, trivial⟩)
    trivial folded).2.1

/-- A fold succeeds if every step does wherever the earlier ones lead. -/
theorem foldlM_ok (holds : β → Prop)
    (each : ∀ item ∈ items, ∀ before, holds before →
      ∃ after, step before item = .ok after ∧ holds after)
    (start : holds before) : ∃ after, items.foldlM step before = .ok after ∧ holds after := by
  induction items generalizing before with
  | nil => exact ⟨before, rfl, start⟩
  | cons head tail induction =>
      rcases each head List.mem_cons_self before start with ⟨between, first, held⟩
      rw [List.foldlM_cons, first]
      exact induction (fun item member => each item (List.mem_cons_of_mem head member)) held

end

end GraphQL
