import GraphQL.Schema.Meta
import GraphQL.Validation.Rule

/-!
A subscription selects one field at its root, and no field of introspection.
-/

namespace GraphQL

namespace Rules

abbrev RootFields := List (String × List Position)

def addRootField (fields : RootFields) (name : String) (position : Position) : RootFields :=
  Named.put fields (name, (Named.value? fields name).getD [] ++ [position])

structure RootCollection where
  visited : List String := []
  fields : RootFields := []

mutual

/-- The root fields of a selection whatever its conditions and directives. `follow` collects from
the fragment of a spread. -/
def collectRoot (follow : String → RootCollection → RootCollection) :
    Selection → RootCollection → RootCollection
  | .field node, collection =>
      { collection with
        fields := addRootField collection.fields node.responseName node.position }
  | .spread node, collection =>
      if collection.visited.contains node.name then collection
      else follow node.name { collection with visited := collection.visited ++ [node.name] }
  | .inline node, collection => collectRootInline follow node collection
termination_by structural selection => selection

def collectRootInline (follow : String → RootCollection → RootCollection) :
    InlineFragment → RootCollection → RootCollection
  | ⟨_, _, _, under⟩, collection => collectRoots follow under collection
termination_by structural fragment => fragment

def collectRoots (follow : String → RootCollection → RootCollection) :
    List Selection → RootCollection → RootCollection
  | [], collection => collection
  | selection :: selections, collection =>
      collectRoots follow selections (collectRoot follow selection collection)
termination_by structural selections => selections

end

/-- Collect from a fragment. Each nested call follows a fragment for the first time. -/
def followRoot (document : Document) : (depth : Nat) → String → RootCollection → RootCollection
  | 0, _, collection => collection
  | depth + 1, name, collection =>
      match document.fragment? name with
      | some fragment => collectRoots (followRoot document depth) fragment.selections collection
      | none => collection

def rootFields (document : Document) (operation : Operation) : RootFields :=
  (collectRoots (followRoot document (document.fragments.length + 1)) operation.selections
    {}).fields

def singleFieldSubscriptions : Rule :=
  .stateless "SINGLE_FIELD_SUBSCRIPTIONS" [.operation] fun subject visit =>
    match visit.visit with
    | .enterOperation operation =>
        if operation.kind ≠ .subscription then []
        else
          let fields := rootFields subject.document operation
          let name := match operation.name with
            | some name => s!"Subscription \"{name}\""
            | none => "Anonymous Subscription"
          (if 1 < fields.length then
            [⟨s!"{name} must select only one top level field.", (fields.drop 1).flatMap Prod.snd⟩]
          else []) ++
            (fields.filter fun field => Meta.isMetaName field.1).map fun field =>
              ⟨s!"{name} must not select an introspection top level field.", field.2⟩
    | _ => []

end Rules

end GraphQL
