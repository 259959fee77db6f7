import GraphQL.Document.Printer
import GraphQL.Validation.FieldSets
import GraphQL.Validation.Rule

/-!
Fields with one response name can be merged: on the same object they are the same field with the
same arguments, and on different objects they still return values of one shape.

Selection sets are compared with the fragments they spread, and fragments with one another, each
pair once: what was compared is remembered over the whole document.
-/

namespace GraphQL

namespace Rules

/-! ## Conflicts -/

inductive ConflictReason where
  | differentFields (left right : String)
  | differentArguments
  | differentTypes (left right : TypeRef)
  /-- The fields under them conflict, by response name. -/
  | subfields (conflicts : List (String × ConflictReason))

mutual

def ConflictReason.text : ConflictReason → String
  | .differentFields left right => s!"\"{left}\" and \"{right}\" are different fields"
  | .differentArguments => "they have differing arguments"
  | .differentTypes left right =>
      s!"they return conflicting types \"{left.text}\" and \"{right.text}\""
  | .subfields conflicts => " and ".intercalate (subfieldTexts conflicts)

private def subfieldTexts : List (String × ConflictReason) → List String
  | [] => []
  | (name, reason) :: conflicts =>
      let because := reason.text
      s!"subfields \"{name}\" conflict because {because}" :: subfieldTexts conflicts

end

structure Conflict where
  name : String
  reason : ConflictReason
  left : List Field
  right : List Field

def Conflict.finding (conflict : Conflict) : Finding where
  message :=
    let because := conflict.reason.text
    s!"Fields \"{conflict.name}\" conflict because {because}. Use different aliases on the fields to fetch both if this was intentional."
  locations := (conflict.left ++ conflict.right).map Field.position

def Conflict.between (left right : SelectedField) (reason : ConflictReason) : Conflict :=
  ⟨left.field.responseName, reason, [left.field], [right.field]⟩

def Conflict.under? (left right : SelectedField) (conflicts : List Conflict) : Option Conflict :=
  if conflicts.isEmpty then none
  else
    some
      { name := left.field.responseName
        reason := .subfields (conflicts.map fun conflict => (conflict.name, conflict.reason))
        left := left.field :: conflicts.flatMap Conflict.left
        right := right.field :: conflicts.flatMap Conflict.right }

/-! ## Two fields -/

def sameArguments (left right : ArgumentList) : Bool :=
  left.length == right.length &&
    left.all fun argument =>
      (Named.value? right argument.1).any fun value => value.text == argument.2.text

/-- Whether two types give values of different shapes: their lists and non-null marks differ, or one
of them is a leaf and the other has another name. -/
def typesConflict (registry : Registry) : TypeRef → TypeRef → Bool
  | .list left, .list right => typesConflict registry left right
  | .list _, _ => true
  | _, .list _ => true
  | .nonNull left, .nonNull right => typesConflict registry left right
  | .nonNull _, _ => true
  | _, .nonNull _ => true
  | left, right =>
      (registry.isLeaf left || registry.isLeaf right) && left.typeName != right.typeName

def onDifferentObjects (left right : SelectedField) : Bool :=
  match left.parent, right.parent with
  | some left, some right => left.name != right.name && left.isObject && right.isObject
  | _, _ => false

def ownConflict? (registry : Registry) (exclusive : Bool) (left right : SelectedField) :
    Option ConflictReason :=
  if !exclusive && left.field.name != right.field.name then
    some (.differentFields left.field.name right.field.name)
  else if !exclusive && !sameArguments left.field.arguments right.field.arguments then
    some .differentArguments
  else
    match left.type?, right.type? with
    | some leftType, some rightType =>
        if typesConflict registry leftType rightType then some (.differentTypes leftType rightType)
        else none
    | _, _ => none

/-! ## Comparisons -/

/-- Something to compare. It is exclusive if the two sides never apply to the same object. -/
inductive Comparison where
  | fields (exclusive : Bool) (left right : SelectedField)
  /-- A field set and the fields of a fragment. -/
  | setAndFragment (exclusive : Bool) (set : FieldSet) (fragment : String)
  | fragments (exclusive : Bool) (left right : String)

namespace Comparison

def within (set : FieldSet) : List Comparison :=
  let rec pairs : List SelectedField → List Comparison
    | [] => []
    | first :: others => others.map (.fields false first) ++ pairs others
  set.fields.flatMap fun entry => pairs entry.2

def between (exclusive : Bool) (left right : FieldSet) : List Comparison :=
  left.fields.flatMap fun entry =>
    entry.2.flatMap fun first => (right.named entry.1).map (.fields exclusive first)

def ofSet (set : FieldSet) : List Comparison :=
  let rec fragmentPairs : List String → List Comparison
    | [] => []
    | first :: others =>
        .setAndFragment false set first ::
          (others.map (.fragments false first) ++ fragmentPairs others)
  within set ++ fragmentPairs set.spreads

def ofSets (exclusive : Bool) (left right : FieldSet) : List Comparison :=
  between exclusive left right ++ right.spreads.map (.setAndFragment exclusive left) ++
    left.spreads.map (.setAndFragment exclusive right) ++
    left.spreads.flatMap fun first => right.spreads.map (.fragments exclusive first)

end Comparison

/-- What was compared before: pairs of fragments, and field sets with fragments, together with
whether they were exclusive. -/
structure Compared where
  fragments : List ((String × String) × Bool) := []
  sets : List (Position × String × Bool) := []

namespace Compared

def pairKey (left right : String) : String × String :=
  if left < right then (left, right) else (right, left)

/-- Whether an earlier comparison of two fragments covers a new one. One that was not exclusive
covers everything, one that was covers only the exclusive. -/
def coversFragments (compared : Compared) (exclusive : Bool) (left right : String) : Bool :=
  match compared.fragments.lookup (pairKey left right) with
  | none => false
  | some before => exclusive || !before

def addFragments (compared : Compared) (exclusive : Bool) (left right : String) : Compared :=
  { compared with fragments := (pairKey left right, exclusive) :: compared.fragments }

def coversSet (compared : Compared) (exclusive : Bool) (set : FieldSet) (fragment : String) :
    Bool :=
  compared.sets.contains (set.owner, fragment, exclusive)

def addSet (compared : Compared) (exclusive : Bool) (set : FieldSet) (fragment : String) :
    Compared :=
  { compared with sets := (set.owner, fragment, exclusive) :: compared.sets }

end Compared

def compareAll
    (compare : Comparison → Compared → Option (List Conflict × Compared)) :
    List Comparison → Compared → Option (List Conflict × Compared)
  | [], compared => some ([], compared)
  | comparison :: comparisons, compared => do
      let (found, compared) ← compare comparison compared
      let (more, compared) ← compareAll compare comparisons compared
      return (found ++ more, compared)

def fragmentComparisons (subject : Subject) (compared : Compared) (exclusive : Bool)
    (left right : String) : List Comparison × Compared :=
  if left = right ∨ compared.coversFragments exclusive left right then ([], compared)
  else
    let compared := compared.addFragments exclusive left right
    match subject.document.fragment? left, subject.document.fragment? right with
    | some leftFragment, some rightFragment =>
        let leftSet := FieldSet.ofFragment subject.registry leftFragment
        let rightSet := FieldSet.ofFragment subject.registry rightFragment
        (Comparison.between exclusive leftSet rightSet ++
          rightSet.spreads.map (.fragments exclusive left) ++
          leftSet.spreads.map (.fragments exclusive · right), compared)
    | _, _ => ([], compared)

def setComparisons (subject : Subject) (compared : Compared) (exclusive : Bool) (set : FieldSet)
    (name : String) : List Comparison × Compared :=
  if compared.coversSet exclusive set name then ([], compared)
  else
    let compared := compared.addSet exclusive set name
    match subject.document.fragment? name with
    | none => ([], compared)
    | some fragment =>
        if set.owner = fragment.position then ([], compared)
        else
          let fragmentSet := FieldSet.ofFragment subject.registry fragment
          (Comparison.between exclusive set fragmentSet ++
            fragmentSet.spreads.map (.setAndFragment exclusive set), compared)

/-- Make a comparison and all that it leads to. There is no result if these nest deeper than the
fuel allows. -/
def compare (subject : Subject) : (fuel : Nat) → Comparison → Compared →
    Option (List Conflict × Compared)
  | 0, _, _ => none
  | fuel + 1, .fields exclusive left right, compared =>
      let exclusive := exclusive || onDifferentObjects left right
      match ownConflict? subject.registry exclusive left right with
      | some reason => some ([.between left right reason], compared)
      | none =>
          if left.field.selections.isEmpty || right.field.selections.isEmpty then
            some ([], compared)
          else do
            let (conflicts, compared) ←
              compareAll (compare subject fuel)
                (Comparison.ofSets exclusive (left.fieldSet subject.registry)
                  (right.fieldSet subject.registry))
                compared
            return ((Conflict.under? left right conflicts).toList, compared)
  | fuel + 1, .setAndFragment exclusive set name, compared =>
      let (comparisons, compared) := setComparisons subject compared exclusive set name
      compareAll (compare subject fuel) comparisons compared
  | fuel + 1, .fragments exclusive left right, compared =>
      let (comparisons, compared) := fragmentComparisons subject compared exclusive left right
      compareAll (compare subject fuel) comparisons compared

/-- A bound on how deep comparisons nest. With `n` the number of nodes of the document, there are at
most `4 * n * n` comparisons to remember, and between two of them each step goes from a field to the
fields under it. -/
def comparisonDepth (document : Document) : Nat :=
  let nodes := (document.definitions.map fun
    | .operation operation => 1 + countSelections operation.selections
    | .fragment fragment => 1 + countSelections fragment.selections).foldl (· + ·) 0
  (4 * nodes * nodes + 1) * (nodes + 1) + 1

def overlappingFieldsCanBeMerged : Rule where
  code := "OVERLAPPING_FIELDS_CAN_BE_MERGED"
  interests := [.selections]
  State := Compared
  initial := {}
  visit subject compared visit :=
    match visit.visit with
    | .enterSelections owner selections =>
        let set := FieldSet.ofSelections subject.registry visit.scope.parent owner selections
        let result := compareAll (compare subject (comparisonDepth subject.document))
          (Comparison.ofSet set) compared
        let (conflicts, compared) := result.getD ([], compared)
        (compared, conflicts.map Conflict.finding)
    | _ => (compared, [])

end Rules

end GraphQL
