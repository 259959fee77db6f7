import GraphQL.Validation.Visit

/-!
The walk through a document: every node once, in document order, its way in before everything under
it and its way out after.
-/

namespace GraphQL

namespace Walk

def outputType? (registry : Registry) (type : TypeRef) : Option TypeRef :=
  if registry.isOutput type then some type else none

/-! ## Values and arguments -/

def itemType (type : TypeRef) : TypeRef := type.listItem?.getD type.nullable

def inputScope (scope : Scope) (definition : Option InputValueDefinition) : Scope :=
  { scope with inputType := definition.map InputValueDefinition.type, input := definition }

mutual

def value (registry : Registry) (scope : Scope) : Literal → List ScopedVisit
  | .list items =>
      ⟨scope, .value (.list items)⟩ ::
        values registry { scope with inputType := scope.inputType.map itemType, input := none } items
  | .object fields =>
      ⟨scope, .value (.object fields)⟩ ::
        fieldValues registry scope
          ((scope.inputType.bind registry.resolve?).bind NamedType.inputFields?) fields
  | .variable name => [⟨scope, .value (.variable name)⟩]
  | .int number => [⟨scope, .value (.int number)⟩]
  | .float number => [⟨scope, .value (.float number)⟩]
  | .string text => [⟨scope, .value (.string text)⟩]
  | .boolean flag => [⟨scope, .value (.boolean flag)⟩]
  | .null => [⟨scope, .value .null⟩]
  | .enum name => [⟨scope, .value (.enum name)⟩]

def values (registry : Registry) (scope : Scope) : List Literal → List ScopedVisit
  | [] => []
  | item :: items => value registry scope item ++ values registry scope items

def fieldValues (registry : Registry) (scope : Scope)
    (definitions : Option (List InputValueDefinition)) :
    List (String × Literal) → List ScopedVisit
  | [] => []
  | (name, item) :: fields =>
      value registry (inputScope scope (definitions.bind fun known => Named.find? known name)) item ++
        fieldValues registry scope definitions fields

end

def arguments (registry : Registry) (scope : Scope) (written : ArgumentList)
    (definitions : Option (List InputValueDefinition)) : List ScopedVisit :=
  let inside := { scope with arguments := definitions }
  ⟨inside, .arguments written⟩ ::
    written.flatMap fun (name, literal) =>
      let scope := inputScope inside (definitions.bind fun known => Named.find? known name)
      ⟨scope, .argument name literal⟩ :: value registry scope literal

def directives (registry : Registry) (scope : Scope) (location : DirectiveLocation)
    (applied : List Directive) : List ScopedVisit :=
  applied.flatMap fun directive =>
    let definition := registry.directive? directive.name
    let scope := { scope with directive := definition, position := directive.position }
    ⟨scope, .directive directive location⟩ ::
      arguments registry scope directive.arguments (definition.map DirectiveDefinition.arguments)

/-! ## Selections -/

def selectionScope (registry : Registry) (scope : Scope) : Scope :=
  { scope with parent := (scope.namedType? registry).filter NamedType.isComposite }

def fieldDefinition? (registry : Registry) (scope : Scope) (name : String) :
    Option FieldDefinition :=
  scope.parent.bind fun parent => registry.field? parent name

def fieldScope (registry : Registry) (scope : Scope) (position : Position) (name : String) :
    Scope :=
  let definition := fieldDefinition? registry scope name
  { scope with
    field := definition
    type := definition.bind fun definition => outputType? registry definition.type
    position := position }

/-- The scope inside an inline fragment. Without condition the type stays as it is. -/
def inlineScope (registry : Registry) (scope : Scope) (position : Position)
    (condition : Option String) : Scope :=
  { scope with
    type := match condition with
      | some name => outputType? registry (.named name)
      | none => scope.type
    position := position }

mutual

def selection (registry : Registry) (scope : Scope) : Selection → List ScopedVisit
  | .field node => field registry scope node
  | .spread node =>
      let inside := { scope with position := node.position }
      ⟨inside, .spread node⟩ :: directives registry inside .fragmentSpread node.directives
  | .inline node => inlineFragment registry scope node
termination_by structural selection => selection

def field (registry : Registry) (scope : Scope) : Field → List ScopedVisit
  | ⟨position, label, name, written, applied, under⟩ =>
      let node : Field := ⟨position, label, name, written, applied, under⟩
      let inside := fieldScope registry scope position name
      ⟨inside, .enterField node⟩ ::
        (arguments registry inside written (inside.field.map FieldDefinition.arguments) ++
          directives registry inside .field applied ++
          (if under.isEmpty then []
            else
              ⟨selectionScope registry inside, .enterSelections position under⟩ ::
                (selections registry (selectionScope registry inside) under ++
                  [⟨selectionScope registry inside, .leaveSelections position under⟩])) ++
          [⟨inside, .leaveField node⟩])
termination_by structural field => field

def inlineFragment (registry : Registry) (scope : Scope) : InlineFragment → List ScopedVisit
  | ⟨position, condition, applied, under⟩ =>
      let node : InlineFragment := ⟨position, condition, applied, under⟩
      let inside := inlineScope registry scope position condition
      ⟨inside, .enterInline node⟩ ::
        (directives registry inside .inlineFragment applied ++
          ⟨selectionScope registry inside, .enterSelections position under⟩ ::
            (selections registry (selectionScope registry inside) under ++
              [⟨selectionScope registry inside, .leaveSelections position under⟩]) ++
          [⟨inside, .leaveInline node⟩])
termination_by structural fragment => fragment

def selections (registry : Registry) (scope : Scope) : List Selection → List ScopedVisit
  | [] => []
  | head :: tail => selection registry scope head ++ selections registry scope tail
termination_by structural selections => selections

end

def selectionSet (registry : Registry) (scope : Scope) (owner : Position)
    (under : List Selection) : List ScopedVisit :=
  let inside := selectionScope registry scope
  ⟨inside, .enterSelections owner under⟩ ::
    (selections registry inside under ++ [⟨inside, .leaveSelections owner under⟩])

/-! ## Definitions -/

def variableDefinition (registry : Registry) (scope : Scope) (definition : VariableDefinition) :
    List ScopedVisit :=
  let type := TypeRef.ofExpr definition.type
  let inside :=
    { scope with
      inputType := if registry.isInput type then some type else none
      input := none
      position := definition.position }
  ⟨inside, .variableDefinition definition⟩ ::
    (definition.default.map (value registry inside)).getD []

def operationLocation : OperationKind → DirectiveLocation
  | .query => .query
  | .mutation => .mutation
  | .subscription => .subscription

def operation (registry : Registry) (operation : Operation) : List ScopedVisit :=
  let inside : Scope :=
    { type := (registry.root? operation.kind).map fun root => .named root.name
      position := operation.position }
  ⟨inside, .enterOperation operation⟩ ::
    (operation.variableDefinitions.flatMap (variableDefinition registry inside) ++
      directives registry inside (operationLocation operation.kind) operation.directives ++
      selectionSet registry inside operation.position operation.selections ++
      [⟨inside, .leaveOperation operation⟩])

def fragment (registry : Registry) (fragment : Fragment) : List ScopedVisit :=
  let inside : Scope :=
    { type := outputType? registry (.named fragment.condition), position := fragment.position }
  ⟨inside, .enterFragment fragment⟩ ::
    (directives registry inside .fragmentDefinition fragment.directives ++
      selectionSet registry inside fragment.position fragment.selections ++
      [⟨inside, .leaveFragment fragment⟩])

def definition (registry : Registry) : Definition → List ScopedVisit
  | .operation node => operation registry node
  | .fragment node => fragment registry node

end Walk

def Document.walk (document : Document) (registry : Registry) : List ScopedVisit :=
  ⟨{}, .enterDocument⟩ ::
    (document.definitions.flatMap (Walk.definition registry) ++ [⟨{}, .leaveDocument⟩])

end GraphQL
