import GraphQL.Validation.Rules.Variables

/-!
Rules about fragments: their conditions are composite types, they can apply where they are spread,
they are used, and they do not spread themselves.
-/

namespace GraphQL

namespace Rules

def isKnownLeaf (registry : Registry) (name : String) : Bool :=
  (registry.lookup? name).any fun type => !type.isComposite

def fragmentsOnCompositeTypes : Rule :=
  .stateless "FRAGMENTS_ON_COMPOSITE_TYPES" [.inline, .fragment] fun subject visit =>
    match visit.visit with
    | .enterInline fragment =>
        match fragment.condition with
        | some name =>
            if isKnownLeaf subject.registry name then
              [⟨s!"Fragment cannot condition on non composite type \"{name}\".",
                [fragment.position]⟩]
            else []
        | none => []
    | .enterFragment fragment =>
        if isKnownLeaf subject.registry fragment.condition then
          [⟨s!"Fragment \"{fragment.name}\" cannot condition on non composite type \"{fragment.condition}\".",
            [fragment.position]⟩]
        else []
    | _ => []

def disjointTypes? (registry : Registry) (fragmentType parent : Option NamedType) :
    Option (NamedType × NamedType) :=
  match fragmentType.filter NamedType.isComposite, parent.filter NamedType.isComposite with
  | some fragmentType, some parent =>
      if registry.overlap fragmentType parent then none else some (fragmentType, parent)
  | _, _ => none

def possibleFragmentSpreads : Rule :=
  .stateless "POSSIBLE_FRAGMENT_SPREADS" [.inline, .spread] fun subject visit =>
    match visit.visit with
    | .enterInline fragment =>
        match disjointTypes? subject.registry (visit.scope.namedType? subject.registry)
            visit.scope.parent with
        | some (fragmentType, parent) =>
            [⟨s!"Fragment cannot be spread here as objects of type \"{parent.name}\" can never be of type \"{fragmentType.name}\".",
              [fragment.position]⟩]
        | none => []
    | .spread spread =>
        let fragmentType := (subject.document.fragment? spread.name).bind fun fragment =>
          subject.registry.lookup? fragment.condition
        match disjointTypes? subject.registry fragmentType visit.scope.parent with
        | some (fragmentType, parent) =>
            [⟨s!"Fragment \"{spread.name}\" cannot be spread here as objects of type \"{parent.name}\" can never be of type \"{fragmentType.name}\".",
              [spread.position]⟩]
        | none => []
    | _ => []

def noUnusedFragments : Rule where
  code := "NO_UNUSED_FRAGMENTS"
  interests := [.document, .operation, .fragment, .spread]
  State := Usages Unit
  initial := {}
  visit subject usages visit :=
    match visit.visit with
    | .leaveDocument =>
        let used := usages.operations.flatMap fun (_, recorded) =>
          usages.reachable recorded.spreads
        (usages, (subject.document.fragments.filter fun fragment =>
            !used.contains fragment.name).map fun fragment =>
          ⟨s!"Fragment \"{fragment.name}\" is never used.", [fragment.position]⟩)
    | _ => (track (fun _ _ => none) usages visit, [])

/-! ## Cycles -/

def cycleFinding (cycle : List FragmentSpread) (closing : FragmentSpread) : Finding :=
  let via := cycle.map fun spread => s!"\"{spread.name}\""
  let path := ", ".intercalate via
  { message :=
      if via.isEmpty then s!"Cannot spread fragment \"{closing.name}\" within itself."
      else s!"Cannot spread fragment \"{closing.name}\" within itself via {path}."
    locations := (cycle ++ [closing]).map FragmentSpread.position }

/-- Look for cycles through a fragment that was not looked at before. `path` holds the spreads that
lead to it and `entered` the length of the path at which each open fragment was entered. Every call
but the last looks at a new fragment, so there are no more nested calls than fragments. -/
def detectCycles (document : Document) : (depth : Nat) → (path : List FragmentSpread) →
    (entered : List (String × Nat)) → (visited : List String) → Fragment →
    List String × List Finding
  | 0, _, _, visited, _ => (visited, [])
  | depth + 1, path, entered, visited, fragment =>
      if visited.contains fragment.name then (visited, [])
      else
        let entered := (fragment.name, path.length) :: entered
        (GraphQL.spreadsOf fragment.selections).foldl
          (fun (visited, findings) spread =>
            match Named.value? entered spread.name with
            | some index => (visited, findings ++ [cycleFinding (path.drop index) spread])
            | none =>
                match document.fragment? spread.name with
                | none => (visited, findings)
                | some target =>
                    let (visited, found) :=
                      detectCycles document depth (path ++ [spread]) entered visited target
                    (visited, findings ++ found))
          (visited ++ [fragment.name], [])

def noFragmentCycles : Rule where
  code := "NO_FRAGMENT_CYCLES"
  interests := [.fragment]
  State := List String
  initial := []
  visit subject visited visit :=
    match visit.visit with
    | .enterFragment fragment =>
        detectCycles subject.document (subject.document.fragments.length + 1) [] [] visited fragment
    | _ => (visited, [])

end Rules

end GraphQL
