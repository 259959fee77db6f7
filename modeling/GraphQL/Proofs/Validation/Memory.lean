import GraphQL.Proofs.Validation.Comparisons

/-!
What is remembered of comparisons. A comparison that is remembered after a run without findings has
been made with all that it leads to.
-/

namespace GraphQL

namespace Rules

variable {subject : Subject} {seen before after : Compared} {comparison : Comparison}

/-! ## Coverage -/

instance (seen : Compared) : (comparison : Comparison) → Decidable (seen.Covers comparison)
  | .fields _ _ _ => inferInstanceAs (Decidable False)
  | .setAndFragment exclusive set name =>
      inferInstanceAs (Decidable (seen.coversSet exclusive set name = true))
  | .fragments exclusive left right =>
      inferInstanceAs (Decidable (left = right ∨ seen.coversFragments exclusive left right = true))

theorem covers_add
    (remembered : ∀ exclusive left right, comparison ≠ .fields exclusive left right) :
    (seen.add comparison).Covers comparison := by
  cases comparison with
  | fields exclusive left right => exact absurd rfl (remembered _ _ _)
  | setAndFragment exclusive set name =>
      simp [Compared.Covers, Compared.add, Compared.coversSet, Compared.addSet]
  | fragments exclusive left right =>
      right
      cases exclusive <;> simp [Compared.add, Compared.coversFragments, Compared.addFragments]

/-- Everything that was covered stays covered. -/
def Compared.Extends (before after : Compared) : Prop :=
  ∀ comparison, before.Covers comparison → after.Covers comparison

theorem Compared.Extends.refl (seen : Compared) : seen.Extends seen := fun _ => id

theorem Compared.Extends.trans {first second third : Compared} (earlier : first.Extends second)
    (later : second.Extends third) : first.Extends third :=
  fun comparison => later comparison ∘ earlier comparison

theorem coversFragments_iff {exclusive : Bool} {left right : String} :
    seen.coversFragments exclusive left right = true ↔
      ∃ before, seen.fragments.lookup (Compared.pairKey left right) = some before ∧
        (exclusive = true ∨ before = false) := by
  rw [Compared.coversFragments]
  cases seen.fragments.lookup (Compared.pairKey left right) with
  | none => simp
  | some before => cases before <;> cases exclusive <;> simp

/-- A comparison that was not covered hides nothing that was. -/
theorem extends_add (fresh : ¬seen.Covers comparison) : seen.Extends (seen.add comparison) := by
  intro other covered
  cases comparison with
  | fields exclusive left right => exact covered
  | setAndFragment exclusive set name =>
      cases other with
      | fields _ _ _ => exact covered
      | setAndFragment otherExclusive otherSet otherName =>
          rw [Compared.Covers, Compared.coversSet, List.contains_iff_mem] at covered ⊢
          exact List.mem_cons_of_mem _ covered
      | fragments _ _ _ => exact covered
  | fragments exclusive left right =>
      cases other with
      | fields _ _ _ => exact covered
      | setAndFragment _ _ _ => exact covered
      | fragments otherExclusive otherLeft otherRight =>
          refine covered.imp_right fun covered => ?_
          rw [coversFragments_iff] at covered ⊢
          rcases covered with ⟨stored, found, covers⟩
          rw [Compared.add, Compared.addFragments]
          by_cases same : Compared.pairKey otherLeft otherRight = Compared.pairKey left right
          · -- The same pair was stored as exclusive, or the new comparison would be covered.
            refine ⟨exclusive, by rw [same, List.lookup_cons_self], ?_⟩
            have notCovered : ¬(exclusive = true ∨ stored = false) := fun covers =>
              fresh (.inr (coversFragments_iff.mpr ⟨stored, same ▸ found, covers⟩))
            exact .inr (by simpa using fun isTrue => notCovered (.inl isTrue))
          · refine ⟨stored, ?_, covers⟩
            rw [List.lookup_cons, beq_eq_false_iff_ne.mpr same]
            exact found

theorem compareAll_extends {step : Comparison → Compared → Option (List Conflict × Compared)}
    (each : ∀ comparison before found after, step comparison before = some (found, after) →
      before.Extends after)
    {comparisons : List Comparison} {found : List Conflict}
    (made : compareAll step comparisons before = some (found, after)) : before.Extends after := by
  induction comparisons generalizing before found with
  | nil =>
      cases made
      exact .refl _
  | cons head tail induction =>
      rcases compareAll_cons made with ⟨here, between, later, isHere, isLater, _⟩
      exact (each _ _ _ _ isHere).trans (induction isLater)

theorem compare_extends {fuel : Nat} {found : List Conflict}
    (made : compare subject fuel comparison before = some (found, after)) :
    before.Extends after := by
  induction fuel generalizing comparison before after found with
  | zero => cases made
  | succ fuel induction =>
      rcases compare_cases made with ⟨_, _, rfl⟩ | ⟨_, _, rfl⟩ | ⟨_, fresh, inner, isInner, _⟩
      · exact .refl _
      · exact .refl _
      · exact (extends_add fresh).trans
          (compareAll_extends (fun _ _ _ _ => induction) isInner)

/-! ## Runs without findings -/

/-- Nothing is left to find by a comparison: it is covered, or it compares two fields that do not
clash and everything that it leads to is settled. -/
inductive Settled (subject : Subject) (seen : Compared) : Comparison → Prop
  | fields {exclusive : Bool} {left right : SelectedField}
      (agree : ¬Clash subject (.fields exclusive left right))
      (inside : ∀ next ∈ followUps subject (.fields exclusive left right),
        Settled subject seen next) :
      Settled subject seen (.fields exclusive left right)
  | covered {comparison : Comparison} (covers : seen.Covers comparison) :
      Settled subject seen comparison

theorem Settled.mono (settled : Settled subject before comparison)
    (extends_ : before.Extends after) : Settled subject after comparison := by
  induction settled with
  | fields agree inside induction => exact .fields agree induction
  | covered covers => exact .covered (extends_ _ covers)

/-- Everything that a comparison leads to is settled. -/
def Done (subject : Subject) (seen : Compared) (comparison : Comparison) : Prop :=
  ∀ next ∈ followUps subject comparison, Settled subject seen next

/-- A remembered comparison of a field set with a fragment is done. -/
def SetDone (subject : Subject) (seen : Compared) (entry : Position × String × Bool) : Prop :=
  ∃ set, subject.HasSet set ∧ set.owner = entry.1 ∧
    Done subject seen (.setAndFragment entry.2.2 set entry.2.1)

/-- A remembered comparison of two fragments is done, in one of their orders. -/
def FragmentsDone (subject : Subject) (seen : Compared) (entry : (String × String) × Bool) : Prop :=
  ∃ left right, Compared.pairKey left right = entry.1 ∧
    Done subject seen (.fragments entry.2 left right)

/-- Nothing is forgotten and whatever is new is done. -/
structure Grows (subject : Subject) (before after : Compared) : Prop where
  covers : before.Extends after
  sets : ∀ entry ∈ after.sets, entry ∈ before.sets ∨ SetDone subject after entry
  fragments : ∀ entry ∈ after.fragments, entry ∈ before.fragments ∨
    FragmentsDone subject after entry

private theorem Done.mono (done : Done subject before comparison)
    (extends_ : before.Extends after) :
    Done subject after comparison :=
  fun next member => (done next member).mono extends_

theorem Grows.refl (seen : Compared) : Grows subject seen seen :=
  ⟨.refl seen, fun _ => .inl, fun _ => .inl⟩

theorem Grows.trans {first second third : Compared} (earlier : Grows subject first second)
    (later : Grows subject second third) : Grows subject first third where
  covers := earlier.covers.trans later.covers
  sets entry member := by
    rcases later.sets entry member with inSecond | done
    · rcases earlier.sets entry inSecond with inFirst | ⟨set, isSet, sameOwner, done⟩
      · exact .inl inFirst
      · exact .inr ⟨set, isSet, sameOwner, done.mono later.covers⟩
    · exact .inr done
  fragments entry member := by
    rcases later.fragments entry member with inSecond | done
    · rcases earlier.fragments entry inSecond with inFirst | ⟨left, right, sameKey, done⟩
      · exact .inl inFirst
      · exact .inr ⟨left, right, sameKey, done.mono later.covers⟩
    · exact .inr done

private theorem Grows.add (valid : comparison.Valid subject) (fresh : ¬seen.Covers comparison)
    (grows : Grows subject (seen.add comparison) after) (done : Done subject after comparison) :
    Grows subject seen after where
  covers := (extends_add fresh).trans grows.covers
  sets entry member := by
    rcases grows.sets entry member with inAdded | isDone
    · cases comparison with
      | fields _ _ _ => exact .inl inAdded
      | fragments _ _ _ => exact .inl inAdded
      | setAndFragment exclusive set name =>
          rcases List.mem_cons.mp inAdded with equal | inSeen
          · rw [equal]
            exact .inr ⟨set, valid, rfl, done⟩
          · exact .inl inSeen
    · exact .inr isDone
  fragments entry member := by
    rcases grows.fragments entry member with inAdded | isDone
    · cases comparison with
      | fields _ _ _ => exact .inl inAdded
      | setAndFragment _ _ _ => exact .inl inAdded
      | fragments exclusive left right =>
          rcases List.mem_cons.mp inAdded with equal | inSeen
          · rw [equal]
            exact .inr ⟨left, right, rfl, done⟩
          · exact .inl inSeen
    · exact .inr isDone

theorem quiet_compareAll {step : Comparison → Compared → Option (List Conflict × Compared)}
    {comparisons : List Comparison}
    (each : ∀ comparison ∈ comparisons, ∀ before after,
      step comparison before = some ([], after) →
        Grows subject before after ∧ Settled subject after comparison)
    (made : compareAll step comparisons before = some ([], after)) :
    Grows subject before after ∧ ∀ comparison ∈ comparisons, Settled subject after comparison := by
  induction comparisons generalizing before with
  | nil =>
      cases made
      exact ⟨.refl _, fun comparison member => by cases member⟩
  | cons head tail induction =>
      rcases compareAll_cons made with ⟨here, between, later, isHere, isLater, isNil⟩
      rcases List.append_eq_nil_iff.mp isNil.symm with ⟨rfl, rfl⟩
      have first := each head List.mem_cons_self before between isHere
      have rest := induction
        (fun next member => each next (List.mem_cons_of_mem head member)) isLater
      refine ⟨first.1.trans rest.1, fun comparison member => ?_⟩
      rcases List.mem_cons.mp member with equal | member
      · rw [equal]
        exact first.2.mono rest.1.covers
      · exact rest.2 comparison member

/-- After a run without findings the comparison is settled and all that it has remembered is
done. -/
theorem quiet_compare {fuel : Nat} (valid : comparison.Valid subject)
    (made : compare subject fuel comparison before = some ([], after)) :
    Grows subject before after ∧ Settled subject after comparison := by
  induction fuel generalizing comparison before after with
  | zero => cases made
  | succ fuel induction =>
      rcases compare_cases made with
        ⟨_, some, _⟩ | ⟨covered, _, rfl⟩ | ⟨agree, fresh, inner, isInner, sameFound⟩
      · exact absurd rfl some
      · exact ⟨.refl _, .covered covered⟩
      · rw [sameFound.mp rfl] at isInner
        have inside := quiet_compareAll (fun next member before after made =>
          induction (valid_followUps valid member) made) isInner
        refine ⟨.add valid fresh inside.1 inside.2, ?_⟩
        cases comparison with
        | fields exclusive left right => exact .fields agree inside.2
        | setAndFragment exclusive set name =>
            exact .covered (inside.1.covers _ (covers_add fun _ _ _ equal => by cases equal))
        | fragments exclusive left right =>
            exact .covered (inside.1.covers _ (covers_add fun _ _ _ equal => by cases equal))

end Rules

end GraphQL
