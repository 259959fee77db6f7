import GraphQL.Document.Basic
import GraphQL.Schema.Registry

/-!
The fields that a selection set selects itself, by response name, and the fragments that it spreads.
-/

namespace GraphQL

structure SelectedField where
  parent : Option NamedType
  field : Field
  definition : Option FieldDefinition

/-- What a selection set selects. Inline fragments count as the selections in them; spreads are
named, each once. -/
structure FieldSet where
  /-- The position of the node whose selection set it is. -/
  owner : Position
  fields : List (String × List SelectedField) := []
  spreads : List String := []

namespace FieldSet

def named (set : FieldSet) (name : String) : List SelectedField :=
  (Named.value? set.fields name).getD []

def addField (set : FieldSet) (selected : SelectedField) : FieldSet :=
  let name := selected.field.responseName
  { set with fields := Named.put set.fields (name, set.named name ++ [selected]) }

def addSpread (set : FieldSet) (name : String) : FieldSet :=
  if set.spreads.contains name then set else { set with spreads := set.spreads ++ [name] }

mutual

def addSelection (registry : Registry) (parent : Option NamedType) (set : FieldSet) :
    Selection → FieldSet
  | .field node =>
      set.addField ⟨parent, node, parent.bind fun type => registry.field? type node.name⟩
  | .spread node => set.addSpread node.name
  | .inline node => set.addInline registry parent node
termination_by structural selection => selection

def addInline (registry : Registry) (parent : Option NamedType) (set : FieldSet) :
    InlineFragment → FieldSet
  | ⟨_, condition, _, under⟩ =>
      let parent := match condition with
        | some name => registry.lookup? name
        | none => parent
      set.addSelections registry parent under
termination_by structural fragment => fragment

def addSelections (registry : Registry) (parent : Option NamedType) (set : FieldSet) :
    List Selection → FieldSet
  | [] => set
  | selection :: selections =>
      (set.addSelection registry parent selection).addSelections registry parent selections
termination_by structural selections => selections

end

def ofSelections (registry : Registry) (parent : Option NamedType) (owner : Position)
    (selections : List Selection) : FieldSet :=
  ({ owner := owner } : FieldSet).addSelections registry parent selections

def ofFragment (registry : Registry) (fragment : Fragment) : FieldSet :=
  ofSelections registry (registry.lookup? fragment.condition) fragment.position
    fragment.selections

end FieldSet

namespace SelectedField

def type? (selected : SelectedField) : Option TypeRef :=
  selected.definition.map FieldDefinition.type

def fieldSet (registry : Registry) (selected : SelectedField) : FieldSet :=
  .ofSelections registry (selected.type?.bind registry.resolve?) selected.field.position
    selected.field.selections

end SelectedField

end GraphQL
