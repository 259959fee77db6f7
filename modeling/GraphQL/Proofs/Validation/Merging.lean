import GraphQL.Document.Printer
import GraphQL.Validation.FieldSets
import GraphQL.Validation.Rule
import Mathlib.Tactic.ByContra

/-!
When the fields of a selection set can be merged, said of the selections themselves: what they
select is followed through inline fragments and spreads wherever it leads, with nothing grouped and
nothing remembered.
-/

namespace GraphQL

/-! ## What selections select -/

/-- A field as it stands in selections on a type. -/
def SelectedField.on (registry : Registry) (parent : Option NamedType) (field : Field) :
    SelectedField :=
  ⟨parent, field, parent.bind fun type => registry.field? type field.name⟩

/-- The type that the selections under a field are on. -/
def SelectedField.inner (registry : Registry) (selected : SelectedField) : Option NamedType :=
  selected.type?.bind registry.resolve?

def SelectedField.responseName (selected : SelectedField) : String := selected.field.responseName

/-- The type inside an inline fragment: that of its condition, or the type around it. -/
def InlineFragment.inner (registry : Registry) (parent : Option NamedType)
    (fragment : InlineFragment) : Option NamedType :=
  match fragment.condition with
  | some name => registry.lookup? name
  | none => parent

namespace Subject

/-- The fields that selections on a type lead to: those written there, those in inline fragments,
and those in the fragments that are spread, through any chain of spreads. -/
inductive Selects (subject : Subject) : Option NamedType → List Selection → SelectedField → Prop
  | field {parent : Option NamedType} {selections : List Selection} {field : Field}
      (member : .field field ∈ selections) :
      Selects subject parent selections (.on subject.registry parent field)
  | inline {parent : Option NamedType} {selections : List Selection} {fragment : InlineFragment}
      {selected : SelectedField} (member : .inline fragment ∈ selections)
      (inside : Selects subject (fragment.inner subject.registry parent) fragment.selections
        selected) :
      Selects subject parent selections selected
  | spread {parent : Option NamedType} {selections : List Selection} {spread : FragmentSpread}
      {fragment : Fragment} {selected : SelectedField} (member : .spread spread ∈ selections)
      (found : subject.document.fragment? spread.name = some fragment)
      (inside : Selects subject (subject.registry.lookup? fragment.condition) fragment.selections
        selected) :
      Selects subject parent selections selected

/-- The merged selections under two fields. -/
def SelectsUnder (subject : Subject) (left right selected : SelectedField) : Prop :=
  subject.Selects (left.inner subject.registry) left.field.selections selected ∨
    subject.Selects (right.inner subject.registry) right.field.selections selected

/-- The selection sets of a document: those of its operations and fragments and those nested in
them, each with the position of the node it belongs to and the type it is on. -/
inductive HasSelections (subject : Subject) :
    Position → Option NamedType → List Selection → Prop
  | operation {operation : Operation} (member : operation ∈ subject.document.operations) :
      HasSelections subject operation.position (subject.registry.root? operation.kind)
        operation.selections
  | fragment {fragment : Fragment} (member : fragment ∈ subject.document.fragments) :
      HasSelections subject fragment.position (subject.registry.lookup? fragment.condition)
        fragment.selections
  | field {owner : Position} {parent : Option NamedType} {selections : List Selection}
      {field : Field} (around : HasSelections subject owner parent selections)
      (member : .field field ∈ selections) :
      HasSelections subject field.position
        ((SelectedField.on subject.registry parent field).inner subject.registry) field.selections
  | inline {owner : Position} {parent : Option NamedType} {selections : List Selection}
      {fragment : InlineFragment} (around : HasSelections subject owner parent selections)
      (member : .inline fragment ∈ selections) :
      HasSelections subject fragment.position (fragment.inner subject.registry parent)
        fragment.selections

end Subject

/-! ## Two fields -/

/-- A type without lists and non-null marks. -/
def TypeRef.IsBare : TypeRef → Prop
  | .list _ => False
  | .nonNull _ => False
  | _ => True

/-- The same lists and non-null marks, around one leaf type or around types with fields. -/
inductive Registry.SameShape (registry : Registry) : TypeRef → TypeRef → Prop
  | list {left right : TypeRef} (items : SameShape registry left right) :
      SameShape registry (.list left) (.list right)
  | nonNull {left right : TypeRef} (inner : SameShape registry left right) :
      SameShape registry (.nonNull left) (.nonNull right)
  | named {left right : TypeRef} (isLeft : left.IsBare) (isRight : right.IsBare)
      (leaves : registry.isLeaf left = true ∨ registry.isLeaf right = true →
        left.typeName = right.typeName) :
      SameShape registry left right

/-- The same arguments in any order, with values of the same text. -/
def ArgumentList.SameTexts (left right : ArgumentList) : Prop :=
  (left.map fun argument => (argument.1, argument.2.text)).Perm
    (right.map fun argument => (argument.1, argument.2.text))

/-- Two fields on two object types, which no object is both of. -/
def SelectedField.OnDistinctObjects (left right : SelectedField) : Prop :=
  ∃ leftParent rightParent, left.parent = some leftParent ∧ right.parent = some rightParent ∧
    leftParent.isObject = true ∧ rightParent.isObject = true ∧ leftParent.name ≠ rightParent.name

namespace Subject

/-- Two fields give values of different shapes: their own types differ, or those of two fields
under them that have one response name. A field without definition has no type to differ. -/
inductive ShapesDiffer (subject : Subject) : SelectedField → SelectedField → Prop
  | types {left right : SelectedField} {leftType rightType : TypeRef}
      (isLeft : left.type? = some leftType) (isRight : right.type? = some rightType)
      (differ : ¬subject.registry.SameShape leftType rightType) : ShapesDiffer subject left right
  | inside {left right first second : SelectedField}
      (isFirst : subject.SelectsUnder left right first)
      (isSecond : subject.SelectsUnder left right second) (apart : first ≠ second)
      (sameName : first.responseName = second.responseName)
      (differ : ShapesDiffer subject first second) : ShapesDiffer subject left right

/-- Two fields cannot be merged: their shapes differ, or they may apply to one object and are
different fields, have different arguments, or have fields under them that cannot be merged. -/
inductive CannotMerge (subject : Subject) : SelectedField → SelectedField → Prop
  | shapes {left right : SelectedField} (differ : subject.ShapesDiffer left right) :
      CannotMerge subject left right
  | names {left right : SelectedField} (together : ¬left.OnDistinctObjects right)
      (differ : left.field.name ≠ right.field.name) : CannotMerge subject left right
  | arguments {left right : SelectedField} (together : ¬left.OnDistinctObjects right)
      (differ : ¬left.field.arguments.SameTexts right.field.arguments) :
      CannotMerge subject left right
  | inside {left right first second : SelectedField} (together : ¬left.OnDistinctObjects right)
      (isFirst : subject.SelectsUnder left right first)
      (isSecond : subject.SelectsUnder left right second) (apart : first ≠ second)
      (sameName : first.responseName = second.responseName)
      (inside : CannotMerge subject first second) : CannotMerge subject left right

/-- Any two fields of one response name that a selection set leads to can be merged. -/
def FieldsCanMerge (subject : Subject) (parent : Option NamedType) (selections : List Selection) :
    Prop :=
  ∀ left right, subject.Selects parent selections left → subject.Selects parent selections right →
    left ≠ right → left.responseName = right.responseName → ¬subject.CannotMerge left right

/-! ## The recursion of the definition -/

variable {subject : Subject} {left right : SelectedField}

theorem not_shapesDiffer_iff :
    ¬subject.ShapesDiffer left right ↔
      (∀ leftType rightType, left.type? = some leftType → right.type? = some rightType →
        subject.registry.SameShape leftType rightType) ∧
      ∀ first second, subject.SelectsUnder left right first →
        subject.SelectsUnder left right second → first ≠ second →
        first.responseName = second.responseName → ¬subject.ShapesDiffer first second := by
  constructor
  · intro same
    constructor
    · intro leftType rightType isLeft isRight
      by_contra differ
      exact same (.types isLeft isRight differ)
    · intro first second isFirst isSecond apart sameName differ
      exact same (.inside isFirst isSecond apart sameName differ)
  · rintro ⟨types, inside⟩ differ
    cases differ with
    | types isLeft isRight differ => exact differ (types _ _ isLeft isRight)
    | inside isFirst isSecond apart sameName differ =>
        exact inside _ _ isFirst isSecond apart sameName differ

theorem not_cannotMerge_iff :
    ¬subject.CannotMerge left right ↔
      ¬subject.ShapesDiffer left right ∧
      (¬left.OnDistinctObjects right →
        left.field.name = right.field.name ∧
        left.field.arguments.SameTexts right.field.arguments ∧
        ∀ first second, subject.SelectsUnder left right first →
          subject.SelectsUnder left right second → first ≠ second →
          first.responseName = second.responseName → ¬subject.CannotMerge first second) := by
  constructor
  · intro mergeable
    refine ⟨fun differ => mergeable (.shapes differ), fun together => ⟨?_, ?_, ?_⟩⟩
    · by_contra differ
      exact mergeable (.names together differ)
    · by_contra differ
      exact mergeable (.arguments together differ)
    · intro first second isFirst isSecond apart sameName inside
      exact mergeable (.inside together isFirst isSecond apart sameName inside)
  · rintro ⟨shapes, whenTogether⟩ cannot
    cases cannot with
    | shapes differ => exact shapes differ
    | names together differ => exact differ (whenTogether together).1
    | arguments together differ => exact differ (whenTogether together).2.1
    | inside together isFirst isSecond apart sameName inside =>
        exact (whenTogether together).2.2 _ _ isFirst isSecond apart sameName inside

end Subject

end GraphQL
