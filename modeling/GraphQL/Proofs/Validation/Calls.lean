import GraphQL.Proofs.Validation.Descent

/-!
How comparisons call one another. Each call has less before it than the comparison that makes it,
so the comparisons of a selection set come to an end on every document: with fragments that spread
themselves or one another, that are defined twice or not at all.
-/

namespace GraphQL

namespace Rules

variable {subject : Subject} {seen before after : Compared} {comparison : Comparison}

/-! ## The calls of a comparison -/

/-- The comparisons that one makes, in their order, and what is remembered before the first. -/
def Comparison.opening (subject : Subject) (seen : Compared) :
    Comparison → List Comparison × Compared
  | .fields exclusive left right =>
      let exclusive := exclusive || onDifferentObjects left right
      if (ownConflict? subject.registry exclusive left right).isSome ∨
          (left.field.selections.isEmpty || right.field.selections.isEmpty) then
        ([], seen)
      else
        (ofSets exclusive (left.fieldSet subject.registry) (right.fieldSet subject.registry), seen)
  | .setAndFragment exclusive set name => setComparisons subject seen exclusive set name
  | .fragments exclusive left right => fragmentComparisons subject seen exclusive left right

/-- What a comparison finds if those that it makes have found so much. -/
private def Comparison.closing (subject : Subject) (found : List Conflict) :
    Comparison → List Conflict
  | .fields exclusive left right =>
      let exclusive := exclusive || onDifferentObjects left right
      match ownConflict? subject.registry exclusive left right with
      | some reason => [.between left right reason]
      | none => (Conflict.under? left right found).toList
  | _ => found

/-- A comparison makes its own ones after one another, and does nothing else. -/
private theorem compare_succ (subject : Subject) (fuel : Nat) (comparison : Comparison)
    (seen : Compared) :
    compare subject (fuel + 1) comparison seen =
      (compareAll (compare subject fuel) (comparison.opening subject seen).1
        (comparison.opening subject seen).2).map
          fun result => (comparison.closing subject result.1, result.2) := by
  cases comparison with
  | fields exclusive left right =>
      rw [compare, Comparison.opening]
      simp only [Comparison.closing]
      cases ownConflict? subject.registry (exclusive || onDifferentObjects left right) left right
        with
      | some reason => simp [compareAll]
      | none =>
          by_cases leaf : left.field.selections.isEmpty || right.field.selections.isEmpty
          · simp [leaf, compareAll, Conflict.under?]
          · simp only [leaf, Option.isSome_none, Bool.false_eq_true, or_self, if_false]
            exact (Option.map_eq_bind ..).symm
  | setAndFragment exclusive set name => exact Option.map_id'.symm
  | fragments exclusive left right => exact Option.map_id'.symm

/-- A call is made of one of some comparisons, with what the ones before it leave remembered. -/
def Begins (subject : Subject) (comparisons : List Comparison) (seen : Compared)
    (call : Comparison × Compared) : Prop :=
  ∃ earlier later fuel found, comparisons = earlier ++ call.1 :: later ∧
    compareAll (compare subject fuel) earlier seen = some (found, call.2)

/-- The calls that a comparison makes. -/
def Calls (subject : Subject) (made next : Comparison × Compared) : Prop :=
  Begins subject (made.1.opening subject made.2).1 (made.1.opening subject made.2).2 next

private theorem Begins.mem {comparisons : List Comparison} {call : Comparison × Compared}
    (begins : Begins subject comparisons seen call) :
    call.1 ∈ comparisons ∧ seen.Extends call.2 := by
  rcases begins with ⟨earlier, later, fuel, found, rfl, made⟩
  exact ⟨List.mem_append_right _ List.mem_cons_self,
    compareAll_extends (fun _ _ _ _ => compare_extends) made⟩

private theorem mem_opening {next : Comparison}
    (member : next ∈ (comparison.opening subject seen).1) :
    next ∈ followUps subject comparison ∧ ¬seen.Covers comparison ∧
      (comparison.opening subject seen).2 = seen.add comparison := by
  cases comparison with
  | fields exclusive left right =>
      rw [Comparison.opening] at member ⊢
      split at member
      · cases member
      · rename_i compared
        rw [not_or] at compared
        rw [followUps, if_neg compared.2]
        exact ⟨member, id, by split <;> rfl⟩
  | setAndFragment exclusive set name =>
      rw [Comparison.opening, setComparisons_eq] at member ⊢
      split at member
      · cases member
      · rename_i fresh
        rw [if_neg fresh]
        exact ⟨member, fresh, rfl⟩
  | fragments exclusive left right =>
      rw [Comparison.opening, fragmentComparisons_eq] at member ⊢
      split at member
      · cases member
      · rename_i fresh
        rw [if_neg fresh]
        exact ⟨member, fresh, rfl⟩

private theorem Calls.written {made next : Comparison × Compared} (written : made.1.Written subject)
    (calls : Calls subject made next) : next.1.Written subject :=
  over_followUps (populates_written subject) written (mem_opening calls.mem.1).1

private theorem Calls.weight_lt {made next : Comparison × Compared}
    (written : made.1.Written subject) (calls : Calls subject made next) :
    Prod.Lex (· < ·) (· < ·) (weight subject next) (weight subject made) := by
  have parts := mem_opening calls.mem.1
  exact weight_followUp written parts.2.1 parts.1 (parts.2.2 ▸ calls.mem.2)

private theorem written_ofSet {owner : Position} {selections : List Selection}
    (stands : subject.document.SelectsAt owner selections) (parent : Option NamedType) :
    ∀ comparison ∈ Comparison.ofSet (.ofSelections subject.registry parent owner selections),
      comparison.Written subject :=
  fun _ => over_ofSet (populates_written subject) ⟨owner, parent, selections, stands, rfl⟩

/-- All that is called from comparisons of what is written compares what is written. -/
private theorem written_of_called {comparisons : List Comparison}
    {begun call : Comparison × Compared}
    (written : ∀ comparison ∈ comparisons, comparison.Written subject)
    (begins : Begins subject comparisons seen begun)
    (called : Relation.ReflTransGen (Calls subject) begun call) : call.1.Written subject := by
  induction called with
  | refl => exact written _ begins.mem.1
  | tail _ calls induction => exact calls.written induction

/-! ## Fuel to spare -/

private theorem compareAll_mono
    {step further : Comparison → Compared → Option (List Conflict × Compared)}
    (grows : ∀ comparison seen result, step comparison seen = some result →
      further comparison seen = some result)
    {comparisons : List Comparison} {result : List Conflict × Compared}
    (made : compareAll step comparisons seen = some result) :
    compareAll further comparisons seen = some result := by
  induction comparisons generalizing seen result with
  | nil => exact made
  | cons head tail induction =>
      rcases result with ⟨found, after⟩
      rcases compareAll_cons made with ⟨here, between, later, isHere, isLater, rfl⟩
      rw [compareAll, grows _ _ _ isHere]
      simp only [Option.bind_eq_bind, Option.bind_some, induction isLater]
      rfl

private theorem compare_mono {fuel more : Nat} (enough : fuel ≤ more)
    {result : List Conflict × Compared}
    (made : compare subject fuel comparison seen = some result) :
    compare subject more comparison seen = some result := by
  induction fuel generalizing more comparison seen result with
  | zero => cases made
  | succ fuel induction =>
      rcases Nat.exists_eq_succ_of_ne_zero (Nat.ne_zero_of_lt enough) with ⟨more, rfl⟩
      rw [Nat.succ_eq_add_one, compare_succ, Option.map_eq_some_iff]
      rw [compare_succ, Option.map_eq_some_iff] at made
      rcases made with ⟨inner, isInner, isResult⟩
      refine ⟨inner, compareAll_mono (fun _ _ _ => ?_) isInner, isResult⟩
      exact induction (Nat.le_of_succ_le_succ enough)

private theorem compareAll_comparisonDepth {comparisons : List Comparison}
    (written : ∀ comparison ∈ comparisons, comparison.Written subject) (seen : Compared) :
    ∃ found after, ∀ fuel ≥ comparisonDepth subject.document,
      compareAll (compare subject fuel) comparisons seen = some (found, after) := by
  rcases compareAll_total (fun _ _ _ _ => compare_extends)
    fun comparison member after _ => compare_comparisonDepth (written comparison member) after with
    ⟨⟨found, after⟩, made⟩
  exact ⟨found, after, fun fuel enough => compareAll_mono (fun _ _ _ => compare_mono enough) made⟩

end Rules

/-- Comparing the fields of a selection set ends, whatever type it is visited on and whatever was
compared before: what is left to remember, and then the selections that are compared, gets less with
every call, and the result is not cut short by the fuel. -/
theorem Subject.comparisons_end (subject : Subject) {owner : Position} {selections : List Selection}
    (stands : subject.document.SelectsAt owner selections) (parent : Option NamedType)
    (seen : Rules.Compared) :
    (∀ begun made next,
      Rules.Begins subject
        (Rules.Comparison.ofSet (.ofSelections subject.registry parent owner selections)) seen
        begun →
      Relation.ReflTransGen (Rules.Calls subject) begun made → Rules.Calls subject made next →
      Prod.Lex (· < ·) (· < ·) (Rules.weight subject next) (Rules.weight subject made)) ∧
    ∃ found after,
      (∀ fuel ≥ Rules.comparisonDepth subject.document,
        Rules.compareAll (Rules.compare subject fuel)
          (Rules.Comparison.ofSet (.ofSelections subject.registry parent owner selections)) seen =
            some (found, after)) ∧
      ∀ visit : ScopedVisit, visit.visit = .enterSelections owner selections →
        visit.scope.parent = parent →
        Rules.overlappingFieldsCanBeMerged.visit subject seen visit =
          (after, found.map Rules.Conflict.finding) := by
  have written := Rules.written_ofSet stands parent
  constructor
  · intro begun made next begins called calls
    exact calls.weight_lt (Rules.written_of_called written begins called)
  · rcases Rules.compareAll_comparisonDepth written seen with ⟨found, after, result⟩
    refine ⟨found, after, result, fun visit isVisit isParent => ?_⟩
    simp only [Rules.overlappingFieldsCanBeMerged, isVisit, isParent,
      result _ (Nat.le_refl _), Option.getD_some]

namespace Rings

/-! Fragments that spread themselves, one another, and one that is not there. One is defined
twice. -/

def selections : List Selection :=
  [.spread ⟨⟨1, 3⟩, "Left", []⟩, .spread ⟨⟨1, 11⟩, "Right", []⟩, .spread ⟨⟨1, 20⟩, "Lost", []⟩]

def document : Document where
  definitions :=
    [.operation ⟨⟨1, 1⟩, .query, none, [], [], selections⟩,
      .fragment ⟨⟨2, 1⟩, "Left", "Query", [],
        [.field ⟨⟨2, 26⟩, some "a", "b", [], [], [.spread ⟨⟨2, 33⟩, "Right", []⟩]⟩]⟩,
      .fragment ⟨⟨3, 1⟩, "Right", "Query", [],
        [.field ⟨⟨3, 27⟩, none, "a", [], [], [.spread ⟨⟨3, 31⟩, "Left", []⟩]⟩,
          .spread ⟨⟨3, 42⟩, "Right", []⟩]⟩,
      .fragment ⟨⟨4, 1⟩, "Right", "Query", [], [.spread ⟨⟨4, 27⟩, "Left", []⟩]⟩]

def subject (registry : Registry) : Subject := ⟨registry, document⟩

private theorem selectsAt : document.SelectsAt ⟨1, 1⟩ selections :=
  .operation (Document.mem_operations.mpr List.mem_cons_self)

end Rings

/-- The comparisons of a selection set that spreads fragments in rings have a result. -/
theorem Subject.comparisons_end_of_rings :
    Rings.document.SelectsAt ⟨1, 1⟩ Rings.selections ∧
      ∀ registry, ∃ found after,
        ∀ fuel ≥ Rules.comparisonDepth Rings.document,
          Rules.compareAll (Rules.compare (Rings.subject registry) fuel)
            (Rules.Comparison.ofSet (.ofSelections registry none ⟨1, 1⟩ Rings.selections)) {} =
              some (found, after) := by
  refine ⟨Rings.selectsAt, fun registry => ?_⟩
  rcases (Subject.comparisons_end (Rings.subject registry) Rings.selectsAt none {}).2 with
    ⟨found, after, result, _⟩
  exact ⟨found, after, result⟩

end GraphQL
