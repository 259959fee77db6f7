import GraphQL.Document.Basic
import GraphQL.Schema.Registry

/-!
What a rule sees of a document: a sequence of visits to its nodes, each with the types that hold
there.
-/

namespace GraphQL

structure Scope where
  /-- The output type: the root type in an operation, the condition in a fragment, the type of the
  field in a field. -/
  type : Option TypeRef := none
  /-- The composite type whose fields are being selected. -/
  parent : Option NamedType := none
  /-- The definition of the innermost field. -/
  field : Option FieldDefinition := none
  /-- The type expected of an input value. -/
  inputType : Option TypeRef := none
  /-- The argument or input field that a value was written for; list items have none. -/
  input : Option InputValueDefinition := none
  /-- The definition of the directive being visited. -/
  directive : Option DirectiveDefinition := none
  /-- The arguments that the field or directive being visited defines. -/
  arguments : Option (List InputValueDefinition) := none
  /-- The position of the innermost node that has one. -/
  position : Position := ⟨0, 0⟩

def Scope.namedType? (registry : Registry) (scope : Scope) : Option NamedType :=
  scope.type.bind registry.resolve?

/-- A node on its way in, and on its way out where it has parts. Selection sets go by the position
of the node that owns them. -/
inductive Visit where
  | enterDocument
  | leaveDocument
  | enterOperation (operation : Operation)
  | leaveOperation (operation : Operation)
  | enterFragment (fragment : Fragment)
  | leaveFragment (fragment : Fragment)
  | variableDefinition (definition : VariableDefinition)
  | enterSelections (owner : Position) (selections : List Selection)
  | leaveSelections (owner : Position) (selections : List Selection)
  | enterField (field : Field)
  | leaveField (field : Field)
  | spread (spread : FragmentSpread)
  | enterInline (fragment : InlineFragment)
  | leaveInline (fragment : InlineFragment)
  | directive (directive : Directive) (location : DirectiveLocation)
  | arguments (arguments : ArgumentList)
  | argument (name : String) (value : Literal)
  | value (value : Literal)

inductive NodeKind where
  | document
  | operation
  | fragment
  | variableDefinition
  | selections
  | field
  | spread
  | inline
  | directive
  | argument
  | value
deriving DecidableEq, Repr

def Visit.kind : Visit → NodeKind
  | .enterDocument => .document
  | .leaveDocument => .document
  | .enterOperation _ => .operation
  | .leaveOperation _ => .operation
  | .enterFragment _ => .fragment
  | .leaveFragment _ => .fragment
  | .variableDefinition _ => .variableDefinition
  | .enterSelections _ _ => .selections
  | .leaveSelections _ _ => .selections
  | .enterField _ => .field
  | .leaveField _ => .field
  | .spread _ => .spread
  | .enterInline _ => .inline
  | .leaveInline _ => .inline
  | .directive _ _ => .directive
  | .arguments _ => .argument
  | .argument _ _ => .argument
  | .value _ => .value

structure ScopedVisit where
  scope : Scope
  visit : Visit

end GraphQL
