import GraphQL.Proofs.Validation.Memory
import Mathlib.Algebra.Order.BigOperators.Group.List
import Mathlib.Data.Finset.Prod
import Mathlib.Data.Fintype.Card
import Mathlib.Logic.Relation
import Mathlib.Tactic.Ring

/-!
How deep comparisons lead to one another. Each is one of finitely many that are remembered and not
made again, or goes from two fields to what is selected under them. So every run comes to an end
within its bound, whatever the fragments spread, whatever types the selections are on, and whatever
was compared before.
-/

namespace GraphQL

namespace Subject

/-- A field that is written in the document, on whatever type. -/
def WritesField (subject : Subject) (selected : SelectedField) : Prop :=
  ∃ owner selections, subject.document.SelectsAt owner selections ∧
    .field selected.field ∈ selections

/-- A field set of one of the document's selection sets, on whatever type. -/
def WritesSet (subject : Subject) (set : FieldSet) : Prop :=
  ∃ owner parent selections, subject.document.SelectsAt owner selections ∧
    .ofSelections subject.registry parent owner selections = set

variable {subject : Subject} {selected : SelectedField}

private theorem writesField_of_holds {owner : Position} {parent : Option NamedType}
    {selections : List Selection} (stands : subject.document.SelectsAt owner selections)
    (held : subject.registry.Holds parent selections selected) : subject.WritesField selected := by
  induction held generalizing owner with
  | field member => exact ⟨_, _, stands, member⟩
  | inline member _ induction => exact induction (.inline stands member)

private theorem WritesField.selectsAt (writes : subject.WritesField selected) :
    subject.document.SelectsAt selected.field.position selected.field.selections := by
  rcases writes with ⟨owner, selections, stands, member⟩
  exact .field stands member

private theorem WritesSet.owner_mem {set : FieldSet} (writes : subject.WritesSet set) :
    set.owner ∈ subject.document.positions := by
  rcases writes with ⟨owner, parent, selections, stands, rfl⟩
  rw [FieldSet.owner_ofSelections]
  exact stands.positions.1

end Subject

namespace Rules

variable {subject : Subject} {seen before after : Compared} {comparison : Comparison}

/-! ## Comparisons of what is written -/

theorem populates_written (subject : Subject) :
    Populates subject subject.WritesField subject.WritesSet where
  made := by
    rintro _ ⟨owner, parent, selections, _, same⟩
    exact ⟨owner, parent, selections, same⟩
  inside := by
    rintro _ name selected ⟨owner, parent, selections, stands, rfl⟩ member
    exact Subject.writesField_of_holds stands (FieldSet.mem_named_ofSelections.mp member).1
  under writes := ⟨_, _, _, writes.selectsAt, rfl⟩
  fragment found := ⟨_, _, _, .fragment (Document.fragment?_mem found).1, rfl⟩

/-- Comparisons of what is written in the document. -/
def Comparison.Written (subject : Subject) : Comparison → Prop :=
  Comparison.Over subject.WritesField subject.WritesSet

theorem Comparison.Valid.written (valid : comparison.Valid subject) :
    comparison.Written subject := by
  have written {selected : SelectedField} (has : subject.HasField selected) :
      subject.WritesField selected := by
    rcases has with ⟨owner, parent, selections, node, has, member, rfl⟩
    exact ⟨owner, selections, has.selectsAt, member⟩
  cases comparison with
  | fields exclusive left right => exact ⟨written valid.1, written valid.2.1, valid.2.2⟩
  | setAndFragment exclusive set name =>
      rcases valid with ⟨owner, parent, selections, has, same⟩
      exact ⟨owner, parent, selections, has.selectsAt, same⟩
  | fragments exclusive left right => trivial

/-! ## What is left to remember -/

def fragmentNames (subject : Subject) : Finset String :=
  (subject.document.fragments.map Fragment.name).toFinset

/-- The comparisons of field sets with fragments that may still be remembered. -/
def openSets (subject : Subject) (seen : Compared) :
    Finset (Position × String × Bool) :=
  (subject.document.positions.toFinset ×ˢ fragmentNames subject ×ˢ Finset.univ).filter
    fun entry => ¬seen.Covers (.setAndFragment entry.2.2 { owner := entry.1 } entry.2.1)

/-- The comparisons of fragments that may still be remembered. -/
def openFragments (subject : Subject) (seen : Compared) :
    Finset (String × String × Bool) :=
  (fragmentNames subject ×ˢ fragmentNames subject ×ˢ Finset.univ).filter
    fun entry => ¬seen.Covers (.fragments entry.2.2 entry.1 entry.2.1)

def remaining (subject : Subject) (seen : Compared) : Nat :=
  (openSets subject seen).card + (openFragments subject seen).card

private theorem mem_fragmentNames {name : String} {fragment : Fragment}
    (found : subject.document.fragment? name = some fragment) : name ∈ fragmentNames subject := by
  have parts := Document.fragment?_mem found
  rw [fragmentNames, List.mem_toFinset]
  exact List.mem_map.mpr ⟨fragment, parts.1, parts.2⟩

private theorem openSets_subset (extends_ : before.Extends after) :
    openSets subject after ⊆ openSets subject before :=
  Finset.monotone_filter_right _ fun _ _ => mt (extends_ _)

private theorem openFragments_subset (extends_ : before.Extends after) :
    openFragments subject after ⊆ openFragments subject before :=
  Finset.monotone_filter_right _ fun _ _ => mt (extends_ _)

private theorem remaining_le (extends_ : before.Extends after) :
    remaining subject after ≤ remaining subject before :=
  Nat.add_le_add (Finset.card_le_card (openSets_subset extends_))
    (Finset.card_le_card (openFragments_subset extends_))

/-- Remembering a comparison that leads to others leaves fewer to remember. -/
private theorem remaining_add (written : comparison.Written subject)
    (fresh : ¬seen.Covers comparison)
    (remembered : ∀ exclusive left right, comparison ≠ .fields exclusive left right)
    (leads : followUps subject comparison ≠ []) :
    remaining subject (seen.add comparison) < remaining subject seen := by
  have extends_ := extends_add fresh
  have covered : (seen.add comparison).Covers comparison := covers_add remembered
  rcases List.exists_mem_of_ne_nil _ leads with ⟨next, member⟩
  cases comparison with
  | fields exclusive left right => exact absurd rfl (remembered _ _ _)
  | setAndFragment exclusive set name =>
      rcases found_of_setFollowUp member with ⟨fragment, found⟩
      apply Nat.add_lt_add_of_lt_of_le _ (Finset.card_le_card (openFragments_subset extends_))
      apply Finset.card_lt_card
      refine (Finset.ssubset_iff_of_subset (openSets_subset extends_)).mpr
        ⟨(set.owner, name, exclusive), ?_, ?_⟩
      · refine Finset.mem_filter.mpr ⟨?_, fresh⟩
        exact Finset.mem_product.mpr ⟨List.mem_toFinset.mpr (Subject.WritesSet.owner_mem written),
          Finset.mem_product.mpr ⟨mem_fragmentNames found, Finset.mem_univ _⟩⟩
      · exact fun member => (Finset.mem_filter.mp member).2 covered
  | fragments exclusive left right =>
      rcases found_of_fragmentFollowUp member with ⟨_, _, foundLeft, foundRight⟩
      apply Nat.add_lt_add_of_le_of_lt (Finset.card_le_card (openSets_subset extends_))
      apply Finset.card_lt_card
      refine (Finset.ssubset_iff_of_subset (openFragments_subset extends_)).mpr
        ⟨(left, right, exclusive), ?_, ?_⟩
      · refine Finset.mem_filter.mpr ⟨?_, fresh⟩
        exact Finset.mem_product.mpr ⟨mem_fragmentNames foundLeft,
          Finset.mem_product.mpr ⟨mem_fragmentNames foundRight, Finset.mem_univ _⟩⟩
      · exact fun member => (Finset.mem_filter.mp member).2 covered

private theorem card_fragmentNames_le (subject : Subject) :
    (fragmentNames subject).card ≤ subject.document.positions.length := by
  calc (fragmentNames subject).card
      ≤ (subject.document.fragments.map Fragment.name).length := List.toFinset_card_le _
    _ ≤ subject.document.definitions.length := by
      rw [List.length_map]
      exact List.length_filterMap_le _ _
    _ ≤ subject.document.positions.length := by
      rw [Document.positions, List.length_flatMap]
      refine (List.length_map _).symm.trans_le
        (List.length_le_sum_of_one_le _ fun count member => ?_)
      rcases List.mem_map.mp member with ⟨definition, _, rfl⟩
      cases definition <;> exact Nat.le_add_left 1 _

private theorem remaining_le_nodes (subject : Subject) (seen : Compared) :
    remaining subject seen ≤
      4 * subject.document.positions.length * subject.document.positions.length := by
  have names := card_fragmentNames_le subject
  have positions := List.toFinset_card_le subject.document.positions
  have sets : (openSets subject seen).card ≤
      subject.document.positions.length * (subject.document.positions.length * 2) := by
    refine (Finset.card_filter_le _ _).trans ?_
    rw [Finset.card_product, Finset.card_product, Finset.card_univ, Fintype.card_bool]
    exact Nat.mul_le_mul positions (Nat.mul_le_mul_right 2 names)
  have fragments : (openFragments subject seen).card ≤
      subject.document.positions.length * (subject.document.positions.length * 2) := by
    refine (Finset.card_filter_le _ _).trans ?_
    rw [Finset.card_product, Finset.card_product, Finset.card_univ, Fintype.card_bool]
    exact Nat.mul_le_mul names (Nat.mul_le_mul_right 2 names)
  rw [remaining]
  calc _ ≤ _ := Nat.add_le_add sets fragments
    _ = _ := by ring

/-- How deep a comparison leads to others before one is remembered. -/
def rank : Comparison → Nat
  | .fields _ left _ => countSelections left.field.selections
  | _ => 0

private theorem rank_le (written : comparison.Written subject) :
    rank comparison ≤ subject.document.positions.length := by
  cases comparison with
  | fields exclusive left right => exact Nat.le_of_lt written.1.selectsAt.count_lt
  | setAndFragment exclusive set name => exact Nat.zero_le _
  | fragments exclusive left right => exact Nat.zero_le _

private theorem rank_followUp {exclusive : Bool} {left right : SelectedField}
    (member : comparison ∈ followUps subject (.fields exclusive left right)) :
    rank comparison < countSelections left.field.selections := by
  rw [followUps] at member
  split at member
  · cases member
  · rename_i notLeaf
    have some : 0 < countSelections left.field.selections := by
      cases under : left.field.selections with
      | nil => simp [under] at notLeaf
      | cons head tail =>
          rw [countSelections]
          cases head <;> simp [Selection.count, Field.count_eq, InlineFragment.count_eq]
    rcases (mem_ofSets ⟨_, _, _, rfl⟩ ⟨_, _, _, rfl⟩).mp member with
      ⟨_, _, isFirst, _, _, rfl⟩ | ⟨_, _, rfl⟩ | ⟨_, _, rfl⟩ | ⟨_, _, _, _, rfl⟩
    · exact Subject.countSelections_fieldSet isFirst
    · exact some
    · exact some
    · exact some

/-- What a comparison has before it, at what is remembered when it is made: first what is left to
remember, then the selections that it is about. -/
def weight (subject : Subject) (call : Comparison × Compared) : Nat × Nat :=
  (remaining subject call.2, rank call.1)

/-- Whatever a comparison leads to has less before it, also when more has been remembered since. -/
theorem weight_followUp {made : Comparison} (written : made.Written subject)
    (fresh : ¬seen.Covers made) (member : comparison ∈ followUps subject made)
    (extends_ : (seen.add made).Extends after) :
    Prod.Lex (· < ·) (· < ·) (weight subject (comparison, after))
      (weight subject (made, seen)) := by
  have fewer : remaining subject after ≤ remaining subject (seen.add made) := remaining_le extends_
  by_cases remembered : ∀ exclusive left right, made ≠ .fields exclusive left right
  · exact .left _ _ (fewer.trans_lt
      (remaining_add written fresh remembered (List.ne_nil_of_mem member)))
  · simp only [not_forall, not_not] at remembered
    rcases remembered with ⟨exclusive, left, right, rfl⟩
    rw [Compared.add] at fewer
    have lower := rank_followUp member
    rcases Nat.lt_or_eq_of_le fewer with less | same
    · exact .left _ _ less
    · rw [weight, weight, same]
      exact .right _ lower

theorem compareAll_total {step : Comparison → Compared → Option (List Conflict × Compared)}
    {comparisons : List Comparison}
    (keeps : ∀ comparison before found after, step comparison before = some (found, after) →
      before.Extends after)
    (each : ∀ comparison ∈ comparisons, ∀ after, seen.Extends after →
      ∃ result, step comparison after = some result) :
    ∃ result, compareAll step comparisons seen = some result := by
  induction comparisons generalizing seen with
  | nil => exact ⟨_, rfl⟩
  | cons head tail induction =>
      rcases each head List.mem_cons_self seen (.refl seen) with ⟨⟨here, between⟩, isHere⟩
      have extended := keeps _ _ _ _ isHere
      rcases induction (fun next member after later =>
        each next (List.mem_cons_of_mem head member) after (extended.trans later)) with
        ⟨⟨later, last⟩, isLater⟩
      rw [compareAll, isHere]
      simp only [Option.bind_eq_bind, Option.bind_some, isLater]
      exact ⟨_, rfl⟩

private theorem compare_total {fuel : Nat} (written : comparison.Written subject)
    (enough : remaining subject seen * (subject.document.positions.length + 1) + rank comparison <
      fuel) :
    ∃ result, compare subject fuel comparison seen = some result := by
  induction fuel generalizing comparison seen with
  | zero => omega
  | succ fuel induction =>
      refine compare_isSome fun fresh => ?_
      by_cases leads : followUps subject comparison = []
      · rw [leads]
        exact ⟨_, rfl⟩
      · refine compareAll_total (fun _ _ _ _ => compare_extends)
          fun next member after extends_ => ?_
        have writtenNext := over_followUps (populates_written subject) written member
        apply induction writtenNext
        have low := rank_le writtenNext
        -- One comparison less to remember is worth more than any rank.
        rcases Prod.lex_def.mp (weight_followUp written fresh member extends_) with
          less | ⟨same, lower⟩
        · have less := Nat.mul_le_mul_right (subject.document.positions.length + 1)
            (Nat.succ_le_of_lt less)
          simp only [weight, Nat.succ_mul] at less
          omega
        · simp only [weight] at same lower
          rw [same]
          omega

private theorem comparisonDepth_eq (document : Document) :
    comparisonDepth document =
      (4 * document.positions.length * document.positions.length + 1) *
        (document.positions.length + 1) + 1 :=
  congrArg (fun nodes => (4 * nodes * nodes + 1) * (nodes + 1) + 1) document.length_positions.symm

/-- The fuel of the rule is enough for every comparison. -/
theorem compare_comparisonDepth (written : comparison.Written subject) (seen : Compared) :
    ∃ result, compare subject (comparisonDepth subject.document) comparison seen = some result := by
  apply compare_total written
  have few := Nat.mul_le_mul_right (subject.document.positions.length + 1)
    (remaining_le_nodes subject seen)
  have low := rank_le written
  rw [comparisonDepth_eq, Nat.succ_mul]
  omega

end Rules

end GraphQL
