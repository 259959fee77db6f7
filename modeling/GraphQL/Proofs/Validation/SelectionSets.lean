import GraphQL.Proofs.Document.Nesting
import GraphQL.Proofs.Document.Positions
import GraphQL.Proofs.Validation.FieldSets
import Mathlib.Data.List.Flatten
import Mathlib.Data.List.Nodup

/-!
All selection sets of a document one after another. Where positions are distinct each belongs to one
position, and none has more selections than the document has nodes.
-/

namespace GraphQL

/-- A selection set with its position and its type. -/
abbrev OwnedSelections := Position × Option NamedType × List Selection

mutual

/-- The selection sets of a selection and of everything selected in it. -/
private def Selection.sets (registry : Registry) (parent : Option NamedType) :
    Selection → List OwnedSelections
  | .field node => node.sets registry parent
  | .spread _ => []
  | .inline node => node.sets registry parent
termination_by structural selection => selection

private def Field.sets (registry : Registry) (parent : Option NamedType) :
    Field → List OwnedSelections
  | ⟨position, label, name, written, applied, under⟩ =>
      let inner := (SelectedField.on registry parent
        ⟨position, label, name, written, applied, under⟩).inner registry
      (position, inner, under) :: setsOf registry inner under
termination_by structural field => field

private def InlineFragment.sets (registry : Registry) (parent : Option NamedType) :
    InlineFragment → List OwnedSelections
  | ⟨position, condition, applied, under⟩ =>
      let inner := InlineFragment.inner registry parent ⟨position, condition, applied, under⟩
      (position, inner, under) :: setsOf registry inner under
termination_by structural fragment => fragment

private def setsOf (registry : Registry) (parent : Option NamedType) :
    List Selection → List OwnedSelections
  | [] => []
  | selection :: selections => selection.sets registry parent ++ setsOf registry parent selections
termination_by structural selections => selections

end

mutual

private theorem Selection.owners_sublist (registry : Registry) (parent : Option NamedType) :
    (selection : Selection) →
      ((selection.sets registry parent).map Prod.fst).Sublist selection.positions
  | .field ⟨_, _, _, _, _, under⟩ => (setsOf_owners_sublist registry _ under).cons_cons _
  | .spread _ => List.nil_sublist _
  | .inline ⟨_, _, _, under⟩ => (setsOf_owners_sublist registry _ under).cons_cons _

private theorem setsOf_owners_sublist (registry : Registry) (parent : Option NamedType) :
    (selections : List Selection) →
      ((setsOf registry parent selections).map Prod.fst).Sublist (positionsOf selections)
  | [] => List.Sublist.slnil
  | selection :: selections => by
      rw [setsOf, List.map_append, positionsOf]
      exact (Selection.owners_sublist registry parent selection).append
        (setsOf_owners_sublist registry parent selections)

end

private theorem sets_subset_setsOf {registry : Registry} {parent : Option NamedType}
    {selection : Selection} {selections : List Selection} (member : selection ∈ selections) :
    selection.sets registry parent ⊆ setsOf registry parent selections := by
  induction selections with
  | nil => cases member
  | cons head tail induction =>
      rw [setsOf]
      rcases List.mem_cons.mp member with equal | later
      · rw [equal]
        exact List.subset_append_left _ _
      · exact List.Subset.trans (induction later) (List.subset_append_right _ _)

/-- The selection sets of a definition. -/
private def Definition.sets (registry : Registry) : Definition → List OwnedSelections
  | .operation node =>
      (node.position, registry.root? node.kind, node.selections) ::
        setsOf registry (registry.root? node.kind) node.selections
  | .fragment node =>
      (node.position, registry.lookup? node.condition, node.selections) ::
        setsOf registry (registry.lookup? node.condition) node.selections

private theorem Definition.owners_sublist (registry : Registry) (definition : Definition) :
    ((definition.sets registry).map Prod.fst).Sublist definition.positions := by
  cases definition with
  | operation node => exact (setsOf_owners_sublist registry _ node.selections).cons_cons _
  | fragment node => exact (setsOf_owners_sublist registry _ node.selections).cons_cons _

namespace Subject

private def sets (subject : Subject) : List OwnedSelections :=
  subject.document.definitions.flatMap (Definition.sets subject.registry)

variable {subject : Subject} {owner : Position} {parent : Option NamedType}
  {selections : List Selection}

private theorem owners_sublist (subject : Subject) :
    (subject.sets.map Prod.fst).Sublist subject.document.positions := by
  rw [sets, List.map_flatMap, Document.positions]
  exact List.Sublist.flatMap_right _ fun definition _ =>
    Definition.owners_sublist subject.registry definition

private theorem sets_subset {definition : Definition}
    (member : definition ∈ subject.document.definitions) :
    definition.sets subject.registry ⊆ subject.sets :=
  fun _ inside => List.mem_flatMap.mpr ⟨definition, member, inside⟩

private theorem HasSelections.mem_sets (has : subject.HasSelections owner parent selections) :
    (owner, parent, selections) ∈ subject.sets ∧
      setsOf subject.registry parent selections ⊆ subject.sets := by
  induction has with
  | operation member =>
      have inside := sets_subset (Document.mem_operations.mp member)
      exact List.cons_subset.mp inside
  | fragment member =>
      have inside := sets_subset (Document.mem_fragments.mp member)
      exact List.cons_subset.mp inside
  | @field _ _ _ field _ member induction =>
      have inside := List.Subset.trans (sets_subset_setsOf member) induction.2
      cases field
      exact List.cons_subset.mp inside
  | @inline _ _ _ fragment _ member induction =>
      have inside := List.Subset.trans (sets_subset_setsOf member) induction.2
      cases fragment
      exact List.cons_subset.mp inside

/-- A position has one selection set. -/
private theorem HasSelections.unique (distinct : subject.document.positions.Nodup)
    {otherParent : Option NamedType} {others : List Selection}
    (has : subject.HasSelections owner parent selections)
    (hasOther : subject.HasSelections owner otherParent others) :
    parent = otherParent ∧ selections = others := by
  have same := List.inj_on_of_nodup_map (distinct.sublist subject.owners_sublist)
    has.mem_sets.1 hasOther.mem_sets.1 rfl
  exact ⟨congrArg (·.2.1) same, congrArg (·.2.2) same⟩

/-- Whatever its type, a selection set stands at its position. -/
theorem HasSelections.selectsAt (has : subject.HasSelections owner parent selections) :
    subject.document.SelectsAt owner selections := by
  induction has with
  | operation member => exact .operation member
  | fragment member => exact .fragment member
  | field _ member induction => exact .field induction member
  | inline _ member induction => exact .inline induction member

/-! ## Field sets and fields of a document -/

/-- A field set of one of the document's selection sets. -/
def HasSet (subject : Subject) (set : FieldSet) : Prop :=
  ∃ owner parent selections, subject.HasSelections owner parent selections ∧
    .ofSelections subject.registry parent owner selections = set

/-- A field that stands in one of the document's selection sets. -/
def HasField (subject : Subject) (selected : SelectedField) : Prop :=
  ∃ owner parent selections node, subject.HasSelections owner parent selections ∧
    .field node ∈ selections ∧ .on subject.registry parent node = selected

variable {set : FieldSet} {selected : SelectedField} {name : String}

theorem HasSet.unique (distinct : subject.document.positions.Nodup) {other : FieldSet}
    (has : subject.HasSet set) (hasOther : subject.HasSet other)
    (sameOwner : set.owner = other.owner) : set = other := by
  rcases has with ⟨owner, parent, selections, has, rfl⟩
  rcases hasOther with ⟨otherOwner, otherParent, others, hasOther, rfl⟩
  rw [FieldSet.owner_ofSelections, FieldSet.owner_ofSelections] at sameOwner
  subst sameOwner
  rcases has.unique distinct hasOther with ⟨rfl, rfl⟩
  rfl

theorem hasSet_ofFragment {fragment : Fragment}
    (found : subject.document.fragment? name = some fragment) :
    subject.HasSet (.ofFragment subject.registry fragment) :=
  ⟨_, _, _, .fragment (Document.fragment?_mem found).1, rfl⟩

theorem HasSet.made (has : subject.HasSet set) : set.Made subject.registry := by
  rcases has with ⟨owner, parent, selections, _, same⟩
  exact ⟨owner, parent, selections, same⟩

private theorem hasField_of_holds (has : subject.HasSelections owner parent selections)
    (held : subject.registry.Holds parent selections selected) : subject.HasField selected := by
  induction held generalizing owner with
  | field member => exact ⟨_, _, _, _, has, member, rfl⟩
  | inline member _ induction => exact induction (.inline has member)

theorem HasSet.hasField (has : subject.HasSet set) (member : selected ∈ set.named name) :
    subject.HasField selected ∧ selected.responseName = name := by
  rcases has with ⟨owner, parent, selections, has, rfl⟩
  have parts := FieldSet.mem_named_ofSelections.mp member
  exact ⟨hasField_of_holds has parts.1, parts.2⟩

theorem HasField.hasSelections (has : subject.HasField selected) :
    subject.HasSelections selected.field.position (selected.inner subject.registry)
      selected.field.selections := by
  rcases has with ⟨owner, parent, selections, node, has, member, rfl⟩
  exact .field has member

theorem HasField.fieldSet (has : subject.HasField selected) :
    subject.HasSet (selected.fieldSet subject.registry) :=
  ⟨_, _, _, has.hasSelections, rfl⟩

theorem HasSet.hasField_of_leadsTo {steps : Nat} (has : subject.HasSet set)
    (leads : FieldSet.LeadsTo subject set steps selected) : subject.HasField selected := by
  induction leads with
  | here member => exact (has.hasField member).1
  | spread member found inside induction => exact induction (hasSet_ofFragment found)

theorem HasSelections.hasField (has : subject.HasSelections owner parent selections)
    (selects : subject.Selects parent selections selected) : subject.HasField selected := by
  rcases FieldSet.leadsTo_of_selects selects owner with ⟨steps, leads⟩
  exact HasSet.hasField_of_leadsTo ⟨owner, parent, selections, has, rfl⟩ leads

/-- No field of the document has two arguments of one name. -/
def DistinctArguments (subject : Subject) : Prop :=
  ∀ selected, subject.HasField selected → (Named.names selected.field.arguments).Nodup

private theorem countSelections_holds
    (held : subject.registry.Holds parent selections selected) :
    countSelections selected.field.selections < countSelections selections := by
  induction held with
  | @field _ _ node member =>
      have inside := count_le_countSelections member
      rw [Selection.count, node.count_eq] at inside
      change countSelections node.selections < _
      omega
  | @inline _ _ fragment _ member _ induction =>
      have inside := count_le_countSelections member
      rw [Selection.count, fragment.count_eq] at inside
      omega

theorem countSelections_fieldSet {outer : SelectedField}
    (member : selected ∈ (outer.fieldSet subject.registry).named name) :
    countSelections selected.field.selections < countSelections outer.field.selections :=
  countSelections_holds (FieldSet.mem_named_ofSelections.mp member).1

end Subject

end GraphQL
