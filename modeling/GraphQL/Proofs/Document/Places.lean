import GraphQL.Proofs.Document.Positions
import Mathlib.Data.List.Nodup

/-!
Where the nodes of a document stand. If no two nodes have the same position, a position tells what
node is there, and for a field the operation, the fragment or the field that it stands under. So
different nodes have no field under them in common.
-/

namespace GraphQL

/-! ## Places -/

/-- What a node is in its document. A field stands under the node at some position, directly or
within inline fragments. -/
inductive Place where
  | operation
  | fragment (name : String)
  | field (owner : Position)

mutual

/-- The fields in a selection under a node, at any depth, with their positions and places. -/
private def Selection.places (owner : Position) : Selection → List (Position × Place)
  | .field node => node.places owner
  | .spread _ => []
  | .inline node => node.places owner
termination_by structural selection => selection

private def Field.places (owner : Position) : Field → List (Position × Place)
  | ⟨position, _, _, _, _, selections⟩ => (position, .field owner) :: placesOf position selections
termination_by structural field => field

private def InlineFragment.places (owner : Position) : InlineFragment → List (Position × Place)
  | ⟨_, _, _, selections⟩ => placesOf owner selections
termination_by structural fragment => fragment

private def placesOf (owner : Position) : List Selection → List (Position × Place)
  | [] => []
  | selection :: selections => selection.places owner ++ placesOf owner selections
termination_by structural selections => selections

end

private def Definition.places : Definition → List (Position × Place)
  | .operation node => (node.position, .operation) :: placesOf node.position node.selections
  | .fragment node => (node.position, .fragment node.name) :: placesOf node.position node.selections

/-- The definitions of a document and all fields in them, with their positions and places. -/
def Document.places (document : Document) : List (Position × Place) :=
  document.definitions.flatMap Definition.places

mutual

/-- The fields that stand in a selection directly or within inline fragments. -/
def Selection.ownFields : Selection → List Field
  | .field node => [node]
  | .spread _ => []
  | .inline node => node.ownFields
termination_by structural selection => selection

private def InlineFragment.ownFields : InlineFragment → List Field
  | ⟨_, _, _, selections⟩ => ownFieldsOf selections
termination_by structural fragment => fragment

def ownFieldsOf : List Selection → List Field
  | [] => []
  | selection :: selections => selection.ownFields ++ ownFieldsOf selections
termination_by structural selections => selections

end

private theorem ownFieldsOf_append (left right : List Selection) :
    ownFieldsOf (left ++ right) = ownFieldsOf left ++ ownFieldsOf right := by
  induction left with
  | nil => rfl
  | cons head tail induction =>
      rw [List.cons_append, ownFieldsOf, ownFieldsOf, induction, List.append_assoc]

theorem ownFieldsOf_flatten (sets : List (List Selection)) :
    ownFieldsOf sets.flatten = sets.flatMap ownFieldsOf := by
  induction sets with
  | nil => rfl
  | cons head tail induction =>
      rw [List.flatten_cons, ownFieldsOf_append, induction, List.flatMap_cons]

/-! ## Places and positions -/

mutual

private theorem Selection.places_sublist (owner : Position) : (selection : Selection) →
    ((selection.places owner).map Prod.fst).Sublist selection.positions
  | .field ⟨_, _, _, _, _, selections⟩ => (placesOf_sublist _ selections).cons_cons _
  | .spread _ => List.nil_sublist _
  | .inline ⟨_, _, _, selections⟩ => (placesOf_sublist owner selections).cons _

private theorem placesOf_sublist (owner : Position) : (selections : List Selection) →
    ((placesOf owner selections).map Prod.fst).Sublist (positionsOf selections)
  | [] => List.nil_sublist _
  | selection :: selections => by
      rw [placesOf, positionsOf, List.map_append]
      exact (selection.places_sublist owner).append (placesOf_sublist owner selections)

end

mutual

/-- The fields that stand under a node by themselves have it as their place. -/
private theorem Selection.ownFields_sublist (owner : Position) : (selection : Selection) →
    (selection.ownFields.map fun field => (field.position, Place.field owner)).Sublist
      (selection.places owner)
  | .field ⟨_, _, _, _, _, _⟩ => (List.nil_sublist _).cons_cons _
  | .spread _ => List.nil_sublist _
  | .inline ⟨_, _, _, selections⟩ => ownFieldsOf_sublist owner selections

private theorem ownFieldsOf_sublist (owner : Position) : (selections : List Selection) →
    ((ownFieldsOf selections).map fun field => (field.position, Place.field owner)).Sublist
      (placesOf owner selections)
  | [] => List.nil_sublist _
  | selection :: selections => by
      rw [placesOf, ownFieldsOf, List.map_append]
      exact (selection.ownFields_sublist owner).append (ownFieldsOf_sublist owner selections)

end

private theorem Field.places_eq (owner : Position) (field : Field) :
    field.places owner =
      (field.position, .field owner) :: placesOf field.position field.selections := by
  cases field
  rfl

mutual

private theorem Selection.places_ownField (owner : Position) {field : Field} :
    (selection : Selection) →
      field ∈ selection.ownFields → (field.places owner).Sublist (selection.places owner)
  | .field node, member => by
      rw [List.mem_singleton.mp member]
      exact List.Sublist.refl _
  | .inline ⟨_, _, _, selections⟩, member => places_ownFieldOf owner selections member

private theorem places_ownFieldOf (owner : Position) {field : Field} :
    (selections : List Selection) →
    field ∈ ownFieldsOf selections → (field.places owner).Sublist (placesOf owner selections)
  | selection :: selections, member => by
      rw [placesOf]
      rcases List.mem_append.mp member with here | later
      · exact (selection.places_ownField owner here).trans (List.sublist_append_left _ _)
      · exact (places_ownFieldOf owner selections later).trans (List.sublist_append_right _ _)

end

namespace Document

variable {document : Document} {position : Position} {selections : List Selection} {place : Place}

private theorem places_sublist (document : Document) :
    (document.places.map Prod.fst).Sublist document.positions := by
  rw [places, positions, List.map_flatMap]
  refine List.Sublist.flatMap_right _ fun definition _ => ?_
  cases definition with
  | operation node => exact (placesOf_sublist _ node.selections).cons_cons _
  | fragment node => exact (placesOf_sublist _ node.selections).cons_cons _

/-- There is one node at a position. -/
theorem place_unique (distinct : document.positions.Nodup) {other : Place}
    (stands : (position, place) ∈ document.places) (also : (position, other) ∈ document.places) :
    place = other := by
  have nodup := distinct.sublist document.places_sublist
  exact congrArg Prod.snd (List.inj_on_of_nodup_map nodup stands also rfl)

/-! ## Nodes with selections -/

/-- The node at a position is of some kind and has selections under it. -/
def Hosts (document : Document) (position : Position) (selections : List Selection)
    (place : Place) : Prop :=
  ((position, place) :: placesOf position selections).Sublist document.places

theorem Hosts.stands (hosts : document.Hosts position selections place) :
    (position, place) ∈ document.places :=
  hosts.subset List.mem_cons_self

private theorem hosts_definition {definition : Definition}
    (member : definition ∈ document.definitions) :
    definition.places.Sublist document.places := by
  rcases List.append_of_mem member with ⟨before, after, split⟩
  rw [places, split, List.flatMap_append, List.flatMap_cons]
  exact (List.sublist_append_left _ _).trans (List.sublist_append_right _ _)

theorem hosts_operation {operation : Operation} (member : operation ∈ document.operations) :
    document.Hosts operation.position operation.selections .operation :=
  hosts_definition (mem_operations.mp member)

theorem hosts_fragment {fragment : Fragment} (member : fragment ∈ document.fragments) :
    document.Hosts fragment.position fragment.selections (.fragment fragment.name) :=
  hosts_definition (mem_fragments.mp member)

/-- A field that stands under a node is a node too. -/
theorem Hosts.field (hosts : document.Hosts position selections place) {field : Field}
    (member : field ∈ ownFieldsOf selections) :
    document.Hosts field.position field.selections (.field position) := by
  have inside := places_ownFieldOf position selections member
  rw [Field.places_eq] at inside
  exact inside.trans ((List.sublist_cons_self _ _).trans hosts)

/-- Different nodes, with the selections under them. -/
structure Apart (document : Document) (owners : List (Position × List Selection)) : Prop where
  distinct : (owners.map Prod.fst).Nodup
  hosts : ∀ owner ∈ owners, ∃ place, document.Hosts owner.1 owner.2 place

private theorem Hosts.nodup_ownFields (hosts : document.Hosts position selections place)
    (distinct : document.positions.Nodup) :
    ((ownFieldsOf selections).map Field.position).Nodup := by
  have inside := (ownFieldsOf_sublist position selections).trans
    ((List.sublist_cons_self _ _).trans hosts)
  have nodup := (distinct.sublist document.places_sublist).sublist (inside.map Prod.fst)
  rwa [List.map_map] at nodup

private theorem Hosts.ownField_mem (hosts : document.Hosts position selections place)
    {field : Field} (member : field ∈ ownFieldsOf selections) :
    (field.position, .field position) ∈ document.places :=
  (hosts.field member).stands

/-- The fields under different nodes are different nodes. -/
theorem Apart.nodup_ownFields {owners : List (Position × List Selection)}
    (apart : document.Apart owners) (distinct : document.positions.Nodup) :
    ((owners.flatMap fun owner => ownFieldsOf owner.2).map Field.position).Nodup := by
  rw [List.map_flatMap, List.nodup_flatMap]
  constructor
  · intro owner member
    rcases apart.hosts owner member with ⟨place, hosts⟩
    exact hosts.nodup_ownFields distinct
  · have nodes : owners.Pairwise fun left right => left.1 ≠ right.1 :=
      List.pairwise_map.mp apart.distinct
    refine nodes.imp_of_mem fun {left right} isLeft isRight different => ?_
    rcases apart.hosts left isLeft with ⟨_, hostsLeft⟩
    rcases apart.hosts right isRight with ⟨_, hostsRight⟩
    intro shared inLeft inRight
    rcases List.mem_map.mp inLeft with ⟨first, isFirst, rfl⟩
    rcases List.mem_map.mp inRight with ⟨second, isSecond, samePosition⟩
    have stands := hostsRight.ownField_mem isSecond
    rw [samePosition] at stands
    injection place_unique distinct (hostsLeft.ownField_mem isFirst) stands with samePlace
    exact different samePlace

end Document

end GraphQL
