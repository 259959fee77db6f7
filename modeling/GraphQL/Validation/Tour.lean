import GraphQL.Validation.Walk

/-!
The tour of a document that shows its nodes to the rules. It keeps the types that hold at a node on
stacks: what a node changes for the nodes inside it is pushed on the way in and popped on the way
out. The directive and the definitions of arguments do not nest, and are put back on the way out.
-/

namespace GraphQL

/-- What surrounds the node that a tour has come to. -/
structure Surroundings where
  types : List (Option TypeRef) := []
  parents : List (Option NamedType) := []
  fields : List (Option FieldDefinition) := []
  inputTypes : List (Option TypeRef) := []
  inputs : List (Option InputValueDefinition) := []
  positions : List Position := []
  directive : Option DirectiveDefinition := none
  arguments : Option (List InputValueDefinition) := none

namespace Surroundings

def scope (around : Surroundings) : Scope where
  type := around.types.head?.join
  parent := around.parents.head?.join
  field := around.fields.head?.join
  inputType := around.inputTypes.head?.join
  input := around.inputs.head?.join
  directive := around.directive
  arguments := around.arguments
  position := around.positions.head?.getD ⟨0, 0⟩

def pushType (type : Option TypeRef) (around : Surroundings) : Surroundings :=
  { around with types := type :: around.types }

def popType (around : Surroundings) : Surroundings := { around with types := around.types.tail }

def pushParent (parent : Option NamedType) (around : Surroundings) : Surroundings :=
  { around with parents := parent :: around.parents }

def popParent (around : Surroundings) : Surroundings :=
  { around with parents := around.parents.tail }

def pushField (field : Option FieldDefinition) (around : Surroundings) : Surroundings :=
  { around with fields := field :: around.fields }

def popField (around : Surroundings) : Surroundings := { around with fields := around.fields.tail }

def pushInput (type : Option TypeRef) (input : Option InputValueDefinition)
    (around : Surroundings) : Surroundings :=
  { around with inputTypes := type :: around.inputTypes, inputs := input :: around.inputs }

def popInput (around : Surroundings) : Surroundings :=
  { around with inputTypes := around.inputTypes.tail, inputs := around.inputs.tail }

def pushPosition (position : Position) (around : Surroundings) : Surroundings :=
  { around with positions := position :: around.positions }

def popPosition (around : Surroundings) : Surroundings :=
  { around with positions := around.positions.tail }

def setDirective (directive : Option DirectiveDefinition) (around : Surroundings) :
    Surroundings :=
  { around with directive := directive }

def setArguments (arguments : Option (List InputValueDefinition)) (around : Surroundings) :
    Surroundings :=
  { around with arguments := arguments }

end Surroundings

/-- A tour on its way: where it is, and the calls of the rules so far. -/
structure Tour where
  around : Surroundings := {}
  calls : Array ScopedVisit := #[]

namespace Tour

abbrev Stage := StateM Tour Unit

def scope : StateM Tour Scope := return (← get).around.scope

def change (update : Surroundings → Surroundings) : Stage :=
  modify fun tour => { tour with around := update tour.around }

def call (visit : Visit) : Stage :=
  modify fun tour => { tour with calls := tour.calls.push ⟨tour.around.scope, visit⟩ }

variable (registry : Registry)

/-! ## Values and arguments -/

mutual

def value : Literal → Stage
  | .list items => do
      call (.value (.list items))
      let type := (← scope).inputType.map Walk.itemType
      listItems type items
  | .object fields => do
      call (.value (.object fields))
      let definitions := ((← scope).inputType.bind registry.resolve?).bind NamedType.inputFields?
      objectFields definitions fields
  | .variable name => call (.value (.variable name))
  | .int number => call (.value (.int number))
  | .float number => call (.value (.float number))
  | .string text => call (.value (.string text))
  | .boolean flag => call (.value (.boolean flag))
  | .null => call (.value .null)
  | .enum name => call (.value (.enum name))

def listItems (type : Option TypeRef) : List Literal → Stage
  | [] => return
  | item :: items => do
      change (.pushInput type none)
      value item
      change .popInput
      listItems type items

def objectFields (definitions : Option (List InputValueDefinition)) :
    List (String × Literal) → Stage
  | [] => return
  | (name, item) :: fields => do
      let definition := definitions.bind fun known => Named.find? known name
      change (.pushInput (definition.map InputValueDefinition.type) definition)
      value item
      change .popInput
      objectFields definitions fields

end

def argument (definitions : Option (List InputValueDefinition)) (name : String)
    (literal : Literal) : Stage := do
  let definition := definitions.bind fun known => Named.find? known name
  change (.pushInput (definition.map InputValueDefinition.type) definition)
  call (.argument name literal)
  value registry literal
  change .popInput

def arguments (written : ArgumentList) (definitions : Option (List InputValueDefinition)) :
    Stage := do
  let previous := (← scope).arguments
  change (.setArguments definitions)
  call (.arguments written)
  written.forM fun (name, literal) => argument registry definitions name literal
  change (.setArguments previous)

def directive (location : DirectiveLocation) (applied : Directive) : Stage := do
  let definition := registry.directive? applied.name
  let previous := (← scope).directive
  change (.setDirective definition)
  change (.pushPosition applied.position)
  call (.directive applied location)
  arguments registry applied.arguments (definition.map DirectiveDefinition.arguments)
  change .popPosition
  change (.setDirective previous)

def directives (location : DirectiveLocation) (applied : List Directive) : Stage :=
  applied.forM (directive registry location)

/-! ## Selections -/

def selectionSet (owner : Position) (under : List Selection) (inside : Stage) : Stage := do
  let parent := ((← scope).namedType? registry).filter NamedType.isComposite
  change (.pushParent parent)
  call (.enterSelections owner under)
  inside
  call (.leaveSelections owner under)
  change .popParent

mutual

def selection : Selection → Stage
  | .field node => field node
  | .spread node => do
      change (.pushPosition node.position)
      call (.spread node)
      directives registry .fragmentSpread node.directives
      change .popPosition
  | .inline node => inlineFragment node
termination_by structural selection => selection

def field : Field → Stage
  | ⟨position, label, name, written, applied, under⟩ => do
      let node : Field := ⟨position, label, name, written, applied, under⟩
      let definition := (← scope).parent.bind fun parent => registry.field? parent name
      change (.pushField definition)
      change (.pushType (definition.bind fun known => Walk.outputType? registry known.type))
      change (.pushPosition position)
      call (.enterField node)
      arguments registry written (definition.map FieldDefinition.arguments)
      directives registry .field applied
      (if under.isEmpty then return else selectionSet registry position under (selections under))
      call (.leaveField node)
      change .popPosition
      change .popType
      change .popField
termination_by structural field => field

def inlineFragment : InlineFragment → Stage
  | ⟨position, condition, applied, under⟩ => do
      let node : InlineFragment := ⟨position, condition, applied, under⟩
      let outer := (← scope).type
      let inner := match condition with
        | some name => Walk.outputType? registry (.named name)
        | none => outer
      change (.pushType inner)
      change (.pushPosition position)
      call (.enterInline node)
      directives registry .inlineFragment applied
      selectionSet registry position under (selections under)
      call (.leaveInline node)
      change .popPosition
      change .popType
termination_by structural fragment => fragment

def selections : List Selection → Stage
  | [] => return
  | head :: tail => do
      selection head
      selections tail
termination_by structural selections => selections

end

/-! ## Definitions -/

def variableDefinition (definition : VariableDefinition) : Stage := do
  let type := TypeRef.ofExpr definition.type
  change (.pushInput (if registry.isInput type then some type else none) none)
  change (.pushPosition definition.position)
  call (.variableDefinition definition)
  definition.default.forM (value registry)
  change .popPosition
  change .popInput

def operation (operation : Operation) : Stage := do
  change (.pushType ((registry.root? operation.kind).map fun root => .named root.name))
  change (.pushPosition operation.position)
  call (.enterOperation operation)
  operation.variableDefinitions.forM (variableDefinition registry)
  directives registry (Walk.operationLocation operation.kind) operation.directives
  selectionSet registry operation.position operation.selections
    (selections registry operation.selections)
  call (.leaveOperation operation)
  change .popPosition
  change .popType

def fragment (fragment : Fragment) : Stage := do
  change (.pushType (Walk.outputType? registry (.named fragment.condition)))
  change (.pushPosition fragment.position)
  call (.enterFragment fragment)
  directives registry .fragmentDefinition fragment.directives
  selectionSet registry fragment.position fragment.selections
    (selections registry fragment.selections)
  call (.leaveFragment fragment)
  change .popPosition
  change .popType

def definition : Definition → Stage
  | .operation node => operation registry node
  | .fragment node => fragment registry node

def document (document : Document) : Stage := do
  call .enterDocument
  document.definitions.forM (definition registry)
  call .leaveDocument

end Tour

def Document.tour (document : Document) (registry : Registry) : List ScopedVisit :=
  ((Tour.document registry document).run {}).2.calls.toList

end GraphQL
