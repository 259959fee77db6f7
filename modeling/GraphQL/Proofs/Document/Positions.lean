import GraphQL.Document.Basic
import Mathlib.Data.List.Flatten

/-!
The positions of a document's definitions and selections, in document order, one for each node.
-/

namespace GraphQL

mutual

/-- The positions of a selection and of everything selected in it. -/
def Selection.positions : Selection → List Position
  | .field node => node.positions
  | .spread node => [node.position]
  | .inline node => node.positions
termination_by structural selection => selection

private def Field.positions : Field → List Position
  | ⟨position, _, _, _, _, selections⟩ => position :: positionsOf selections
termination_by structural field => field

private def InlineFragment.positions : InlineFragment → List Position
  | ⟨position, _, _, selections⟩ => position :: positionsOf selections
termination_by structural fragment => fragment

def positionsOf : List Selection → List Position
  | [] => []
  | selection :: selections => selection.positions ++ positionsOf selections
termination_by structural selections => selections

end

def Definition.positions : Definition → List Position
  | .operation node => node.position :: positionsOf node.selections
  | .fragment node => node.position :: positionsOf node.selections

def Document.positions (document : Document) : List Position :=
  document.definitions.flatMap Definition.positions

mutual

private theorem Selection.length_positions : (selection : Selection) →
    selection.positions.length = selection.count
  | .field ⟨_, _, _, _, _, selections⟩ => by
      simp only [Selection.positions, Field.positions, Selection.count, Field.count,
        List.length_cons]
      rw [length_positionsOf selections, Nat.add_comm]
  | .spread _ => rfl
  | .inline ⟨_, _, _, selections⟩ => by
      simp only [Selection.positions, InlineFragment.positions, Selection.count,
        InlineFragment.count, List.length_cons]
      rw [length_positionsOf selections, Nat.add_comm]

private theorem length_positionsOf : (selections : List Selection) →
    (positionsOf selections).length = countSelections selections
  | [] => rfl
  | selection :: selections => by
      rw [positionsOf, List.length_append, Selection.length_positions selection,
        length_positionsOf selections, countSelections]

end

theorem Document.length_positions (document : Document) :
    document.positions.length = (document.definitions.map fun
      | .operation operation => 1 + countSelections operation.selections
      | .fragment fragment => 1 + countSelections fragment.selections).foldl (· + ·) 0 := by
  rw [positions, List.length_flatMap, List.sum_eq_foldl]
  congr 1
  apply List.map_congr_left
  intro definition _
  cases definition with
  | operation operation =>
      exact (congrArg (· + 1) (length_positionsOf operation.selections)).trans (Nat.add_comm _ _)
  | fragment fragment =>
      exact (congrArg (· + 1) (length_positionsOf fragment.selections)).trans (Nat.add_comm _ _)

theorem count_le_countSelections {selection : Selection} {selections : List Selection}
    (member : selection ∈ selections) : selection.count ≤ countSelections selections := by
  induction selections with
  | nil => cases member
  | cons head tail induction =>
      rw [countSelections]
      rcases List.mem_cons.mp member with equal | later
      · rw [equal]
        exact Nat.le_add_right _ _
      · exact Nat.le_trans (induction later) (Nat.le_add_left _ _)

theorem Field.count_eq (field : Field) : field.count = 1 + countSelections field.selections := by
  cases field
  rfl

theorem InlineFragment.count_eq (fragment : InlineFragment) :
    fragment.count = 1 + countSelections fragment.selections := by
  cases fragment
  rfl

private theorem positions_subset_positionsOf {selection : Selection} {selections : List Selection}
    (member : selection ∈ selections) : selection.positions ⊆ positionsOf selections := by
  induction selections with
  | nil => cases member
  | cons head tail induction =>
      rw [positionsOf]
      rcases List.mem_cons.mp member with equal | later
      · rw [equal]
        exact List.subset_append_left _ _
      · exact List.Subset.trans (induction later) (List.subset_append_right _ _)

namespace Document

theorem mem_operations {document : Document} {operation : Operation} :
    operation ∈ document.operations ↔ .operation operation ∈ document.definitions := by
  rw [operations, List.mem_filterMap]
  constructor
  · rintro ⟨definition, member, same⟩
    cases definition with
    | operation node => exact Option.some.inj same ▸ member
    | fragment node => cases same
  · exact fun member => ⟨_, member, rfl⟩

theorem mem_fragments {document : Document} {fragment : Fragment} :
    fragment ∈ document.fragments ↔ .fragment fragment ∈ document.definitions := by
  rw [fragments, List.mem_filterMap]
  constructor
  · rintro ⟨definition, member, same⟩
    cases definition with
    | operation node => cases same
    | fragment node => exact Option.some.inj same ▸ member
  · exact fun member => ⟨_, member, rfl⟩

/-- The selection sets of a document, those of its definitions and those nested in them, each with
the position of the node that it belongs to. -/
inductive SelectsAt (document : Document) : Position → List Selection → Prop
  | operation {operation : Operation} (member : operation ∈ document.operations) :
      SelectsAt document operation.position operation.selections
  | fragment {fragment : Fragment} (member : fragment ∈ document.fragments) :
      SelectsAt document fragment.position fragment.selections
  | field {owner : Position} {selections : List Selection} {field : Field}
      (around : SelectsAt document owner selections) (member : .field field ∈ selections) :
      SelectsAt document field.position field.selections
  | inline {owner : Position} {selections : List Selection} {fragment : InlineFragment}
      (around : SelectsAt document owner selections) (member : .inline fragment ∈ selections) :
      SelectsAt document fragment.position fragment.selections

variable {document : Document} {owner : Position} {selections : List Selection}

theorem SelectsAt.positions (selects : document.SelectsAt owner selections) :
    owner ∈ document.positions ∧ positionsOf selections ⊆ document.positions := by
  have ofDefinition {definition : Definition} (member : definition ∈ document.definitions) :
      definition.positions ⊆ document.positions :=
    fun _ inside => List.mem_flatMap.mpr ⟨definition, member, inside⟩
  induction selects with
  | operation member => exact List.cons_subset.mp (ofDefinition (mem_operations.mp member))
  | fragment member => exact List.cons_subset.mp (ofDefinition (mem_fragments.mp member))
  | @field _ _ node _ member induction =>
      have inside := List.Subset.trans (positions_subset_positionsOf member) induction.2
      cases node
      exact List.cons_subset.mp inside
  | @inline _ _ node _ member induction =>
      have inside := List.Subset.trans (positions_subset_positionsOf member) induction.2
      cases node
      exact List.cons_subset.mp inside

private theorem length_positions_le {definition : Definition}
    (member : definition ∈ document.definitions) :
    definition.positions.length ≤ document.positions.length := by
  have inside := (List.singleton_sublist.mpr member).flatMap Definition.positions
  rw [List.flatMap_singleton] at inside
  exact inside.length_le

/-- A selection set has fewer selections than the document has nodes: none is the node that the set
belongs to. -/
theorem SelectsAt.count_lt (selects : document.SelectsAt owner selections) :
    countSelections selections < document.positions.length := by
  induction selects with
  | operation member =>
      have whole := length_positions_le (mem_operations.mp member)
      rw [Definition.positions, List.length_cons, length_positionsOf] at whole
      exact whole
  | fragment member =>
      have whole := length_positions_le (mem_fragments.mp member)
      rw [Definition.positions, List.length_cons, length_positionsOf] at whole
      exact whole
  | @field _ _ field _ member induction =>
      have inside := count_le_countSelections member
      rw [Selection.count, field.count_eq] at inside
      omega
  | @inline _ _ fragment _ member induction =>
      have inside := count_le_countSelections member
      rw [Selection.count, fragment.count_eq] at inside
      omega

end Document

end GraphQL
