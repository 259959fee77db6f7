import GraphQL.Document.Basic

/-!
What is used where: things recorded per operation and per fragment, together with the fragments
that each of them spreads, so that the usages of an operation can be followed through spreads once
the document has been walked.
-/

namespace GraphQL

structure Recorded (α : Type) where
  usages : List α := []
  spreads : List String := []

inductive CurrentDefinition where
  | none
  | operation (index : Nat)
  | fragment (name : String)

structure Usages (α : Type) where
  operations : List (Operation × Recorded α) := []
  /-- Fragments of one name share an entry. -/
  fragments : List (String × Recorded α) := []
  current : CurrentDefinition := .none

namespace Usages

variable {α : Type}

def enterOperation (usages : Usages α) (operation : Operation) : Usages α :=
  { usages with
    operations := usages.operations ++ [(operation, {})]
    current := .operation usages.operations.length }

def enterFragment (usages : Usages α) (name : String) : Usages α :=
  { usages with
    fragments :=
      if Named.contains usages.fragments name then usages.fragments
      else usages.fragments ++ [(name, {})]
    current := .fragment name }

def leave (usages : Usages α) : Usages α := { usages with current := .none }

def modifyCurrent (usages : Usages α) (change : Recorded α → Recorded α) : Usages α :=
  match usages.current with
  | .none => usages
  | .operation index =>
      { usages with
        operations := usages.operations.modify index fun (operation, recorded) =>
          (operation, change recorded) }
  | .fragment name =>
      { usages with
        fragments := usages.fragments.map fun (key, recorded) =>
          (key, if key = name then change recorded else recorded) }

def record (usages : Usages α) (usage : α) : Usages α :=
  usages.modifyCurrent fun recorded => { recorded with usages := recorded.usages ++ [usage] }

def recordSpread (usages : Usages α) (name : String) : Usages α :=
  usages.modifyCurrent fun recorded => { recorded with spreads := recorded.spreads ++ [name] }

def spreadsOf (usages : Usages α) (name : String) : List String :=
  ((Named.value? usages.fragments name).map Recorded.spreads).getD []

/-- Follow spreads depth first. The stack holds the names still to look at. -/
def follow (usages : Usages α) : (fuel : Nat) → (visited stack : List String) → List String
  | 0, visited, _ => visited
  | _, visited, [] => visited
  | fuel + 1, visited, name :: stack =>
      if visited.contains name then follow usages fuel visited stack
      else follow usages fuel (visited ++ [name]) (usages.spreadsOf name ++ stack)

/-- The number of names that following spreads can come across: each fragment is entered once. -/
def followBound (usages : Usages α) (spreads : List String) : Nat :=
  spreads.length + (usages.fragments.map fun entry => entry.2.spreads.length).foldl (· + ·) 0

def reachable (usages : Usages α) (spreads : List String) : List String :=
  usages.follow (usages.followBound spreads + 1) [] spreads

def ofOperation (usages : Usages α) (recorded : Recorded α) : List α :=
  recorded.usages ++ (usages.reachable recorded.spreads).flatMap fun name =>
    ((Named.value? usages.fragments name).map Recorded.usages).getD []

end Usages

end GraphQL
