import GraphQL.Proofs.Validation.Outline
import GraphQL.Proofs.Validation.Tour
import GraphQL.Schema.Scalars

/-!
The types of a document by its text alone. What holds at a node is read off the nodes around it, and
a tour sees the same at every call.
-/

namespace GraphQL

/-! ## Reading types off a path -/

namespace SyntaxNode

/-- The position of a node, if it has its own. -/
def position? : SyntaxNode → Option Position
  | operation node => some node.position
  | fragment node => some node.position
  | variableDefinition node => some node.position
  | field node => some node.position
  | spread node => some node.position
  | inline node => some node.position
  | directive node _ => some node.position
  | _ => none

end SyntaxNode

namespace Lexical

variable (registry : Registry)

mutual

/-- The output type: the root type of an operation, the condition of a fragment, the type of a
field. Inline fragments without a condition have the type around them. -/
def type : List SyntaxNode → Option TypeRef
  | [] => none
  | .operation node :: _ => (registry.root? node.kind).map fun root => .named root.name
  | .fragment node :: _ => Walk.outputType? registry (.named node.condition)
  | .field node :: outer =>
      ((parent outer).bind fun parent => registry.field? parent node.name).bind fun definition =>
        Walk.outputType? registry definition.type
  | .inline node :: outer =>
      match node.condition with
      | some name => Walk.outputType? registry (.named name)
      | none => type outer
  | _ :: outer => type outer
termination_by structural path => path

/-- The composite type that the innermost selection set selects from. -/
def parent : List SyntaxNode → Option NamedType
  | [] => none
  | .selectionSet _ _ :: outer => ((type outer).bind registry.resolve?).filter NamedType.isComposite
  | _ :: outer => parent outer
termination_by structural path => path

end

/-- The definition of a field of this name where it is selected. -/
def selected (outer : List SyntaxNode) (name : String) : Option FieldDefinition :=
  (parent registry outer).bind fun parent => registry.field? parent name

/-- The definition of the innermost field. -/
def field : List SyntaxNode → Option FieldDefinition
  | [] => none
  | .field node :: outer => selected registry outer node.name
  | _ :: outer => field outer

/-- The definition of the directive that the node is in. -/
def directive : List SyntaxNode → Option DirectiveDefinition
  | [] => none
  | .directive node _ :: _ => registry.directive? node.name
  | _ :: outer => directive outer

/-- The arguments that a field or a directive defines. -/
def defined : List SyntaxNode → Option (List InputValueDefinition)
  | .field node :: outer => (selected registry outer node.name).map FieldDefinition.arguments
  | .directive node _ :: _ =>
      (registry.directive? node.name).map DirectiveDefinition.arguments
  | _ => none

/-- The definitions for the arguments that the node is among. -/
def arguments : List SyntaxNode → Option (List InputValueDefinition)
  | [] => none
  | .arguments _ :: outer => defined registry outer
  | _ :: outer => arguments outer

/-- The definition of an argument or of a field of an object, given what has them. -/
def named (definitions : Option (List InputValueDefinition)) (name : String) :
    Option InputValueDefinition :=
  definitions.bind fun known => Named.find? known name

/-- The type that an input value is expected to have. -/
def inputType : List SyntaxNode → Option TypeRef
  | [] => none
  | .variableDefinition node :: _ =>
      if registry.isInput (.ofExpr node.type) then some (.ofExpr node.type) else none
  | .argument name _ :: outer =>
      (named (arguments registry outer) name).map InputValueDefinition.type
  | .item _ :: outer => (inputType outer).map Walk.itemType
  | .inputField name _ :: outer =>
      (named (((inputType outer).bind registry.resolve?).bind NamedType.inputFields?) name).map
        InputValueDefinition.type
  | _ :: outer => inputType outer

/-- The argument or field of an object that a value is written for. -/
def input : List SyntaxNode → Option InputValueDefinition
  | [] => none
  | .variableDefinition _ :: _ => none
  | .argument name _ :: outer => named (arguments registry outer) name
  | .item _ :: _ => none
  | .inputField name _ :: outer =>
      named (((inputType registry outer).bind registry.resolve?).bind NamedType.inputFields?) name
  | _ :: outer => input outer

/-- The position of the innermost node that has one. -/
def position (path : List SyntaxNode) : Position :=
  (path.findSome? SyntaxNode.position?).getD ⟨0, 0⟩

/-- All that holds at the end of a path. -/
def scope (path : List SyntaxNode) : Scope where
  type := type registry path
  parent := parent registry path
  field := field registry path
  inputType := inputType registry path
  input := input registry path
  directive := directive registry path
  arguments := arguments registry path
  position := position path

/-- The call at a stop: the visit, and what holds there by its path. -/
def call (stop : Stop) : ScopedVisit := ⟨scope registry stop.path, stop.visit⟩

/-! ## The walk by its paths -/

variable {registry}

/-- The calls in a part of a document, given the nodes around it. -/
private def calls (registry : Registry) (outer : List SyntaxNode) (part : Outline) :
    List ScopedVisit :=
  part.stops.map fun stop => ⟨scope registry (stop.path ++ outer), stop.visit⟩

private theorem calls_partStops (root : SyntaxNode) (number : Nat) (outer : List SyntaxNode)
    (parts : List Outline) :
    ((Outline.partStops root number parts).map fun stop =>
        (⟨scope registry (stop.path ++ outer), stop.visit⟩ : ScopedVisit)) =
      parts.flatMap (calls registry (root :: outer)) := by
  induction parts generalizing number with
  | nil => rfl
  | cons part parts induction =>
      rw [Outline.partStops, List.map_append, List.flatMap_cons, induction, List.map_map]
      simp [calls, Stop.under, Function.comp_def]

private theorem calls_node (root : SyntaxNode) (parts : List Outline) (outer : List SyntaxNode) :
    calls registry outer (.node root parts) =
      ⟨scope registry (root :: outer), root.enter⟩ ::
        (parts.flatMap (calls registry (root :: outer)) ++
          root.leave?.toList.map fun visit => ⟨scope registry (root :: outer), visit⟩) := by
  rw [calls, Outline.stops, List.map_cons, List.map_append, calls_partStops, List.map_map]
  rfl

private theorem calls_through {root : SyntaxNode} (through : root.leave? = none)
    (parts : List Outline) (outer : List SyntaxNode) :
    calls registry outer (.node root parts) =
      ⟨scope registry (root :: outer), root.enter⟩ ::
        parts.flatMap (calls registry (root :: outer)) := by
  rw [calls_node, through, Option.toList_none, List.map_nil, List.append_nil]

private theorem calls_around {root : SyntaxNode} {visit : Visit} (leaves : root.leave? = some visit)
    (parts : List Outline) (outer : List SyntaxNode) :
    calls registry outer (.node root parts) =
      ⟨scope registry (root :: outer), root.enter⟩ ::
        (parts.flatMap (calls registry (root :: outer)) ++
          [⟨scope registry (root :: outer), visit⟩]) := by
  rw [calls_node, leaves, Option.toList_some, List.map_singleton]

/-! ### Values and arguments -/

mutual

private theorem walk_value (path : List SyntaxNode) (literal : Literal) :
    Walk.value registry (scope registry path) literal =
      ⟨scope registry path, .value literal⟩ :: literal.parts.flatMap (calls registry path) := by
  cases literal with
  | list items => rw [Walk.value, walk_items path items, Literal.parts]
  | object fields => rw [Walk.value, Literal.parts, ← walk_fields path fields]
  | _ => rfl
termination_by structural literal

private theorem walk_items (path : List SyntaxNode) (items : List Literal) :
    Walk.values registry { scope registry path with
        inputType := (scope registry path).inputType.map Walk.itemType, input := none } items =
      (itemOutlines items).flatMap (calls registry path) := by
  cases items with
  | nil => rfl
  | cons item items =>
      rw [Walk.values, itemOutlines, List.flatMap_cons, calls_through rfl, walk_items path items]
      exact congrArg (· ++ _) (walk_value (.item item :: path) item)
termination_by structural items

private theorem walk_fields (path : List SyntaxNode) (fields : List (String × Literal)) :
    Walk.fieldValues registry (scope registry path)
        (((scope registry path).inputType.bind registry.resolve?).bind NamedType.inputFields?)
        fields =
      (fieldOutlines fields).flatMap (calls registry path) := by
  cases fields with
  | nil => rfl
  | cons field fields =>
      rcases field with ⟨name, item⟩
      rw [Walk.fieldValues, fieldOutlines, List.flatMap_cons, calls_through rfl,
        walk_fields path fields]
      exact congrArg (· ++ _) (walk_value (.inputField name item :: path) item)
termination_by structural fields

end

private theorem walk_literal (path : List SyntaxNode) (literal : Literal) :
    Walk.value registry (scope registry path) literal = calls registry path literal.outline := by
  rw [Literal.outline, calls_through rfl]
  exact walk_value (.value literal :: path) literal

private theorem walk_arguments (path : List SyntaxNode) (written : ArgumentList) :
    Walk.arguments registry (scope registry path) written (defined registry path) =
      calls registry path (argumentsOutline written) := by
  rw [argumentsOutline, calls_through rfl, List.flatMap_map]
  refine congrArg (_ :: written.flatMap ·) (funext fun argument => ?_)
  rw [calls_through rfl, List.flatMap_singleton, ← walk_literal]
  rfl

private theorem walk_directives (path : List SyntaxNode) (location : DirectiveLocation)
    (applied : List Directive) :
    Walk.directives registry (scope registry path) location applied =
      (applied.map (Directive.outline location)).flatMap (calls registry path) := by
  rw [List.flatMap_map]
  refine congrArg (applied.flatMap ·) (funext fun directive => ?_)
  rw [Directive.outline, calls_through rfl, List.flatMap_singleton, ← walk_arguments]
  rfl

/-! ### Selections -/

private theorem walk_selectionSet (path : List SyntaxNode) (owner : Position)
    (under : List Selection)
    (walked : Walk.selections registry (scope registry (.selectionSet owner under :: path)) under =
      (selectionOutlines under).flatMap (calls registry (.selectionSet owner under :: path))) :
    Walk.selectionSet registry (scope registry path) owner under =
      calls registry path (selectionSetOutline owner under) := by
  rw [selectionSetOutline, calls_around rfl, ← walked]
  rfl

mutual

private theorem walk_selection (path : List SyntaxNode) (node : Selection) :
    Walk.selection registry (scope registry path) node = calls registry path node.outline := by
  cases node with
  | field node => exact walk_field path node
  | spread node =>
      rw [Walk.selection, Selection.outline, calls_through rfl, ← walk_directives]
      rfl
  | inline node => exact walk_inline path node
termination_by structural node

private theorem walk_field (path : List SyntaxNode) (node : Field) :
    Walk.field registry (scope registry path) node = calls registry path node.outline := by
  rcases node with ⟨position, label, name, written, applied, under⟩
  have set := walk_selectionSet (.field ⟨position, label, name, written, applied, under⟩ :: path)
    position under (walk_selections _ under)
  rw [Walk.field, Field.outline, calls_around rfl, List.flatMap_cons, List.flatMap_append,
    ← walk_arguments, ← walk_directives]
  split
  · simp only [List.append_nil, List.flatMap_nil]
    rfl
  · rw [List.flatMap_singleton, ← selectionSetOutline, ← set, ← List.append_assoc]
    rfl
termination_by structural node

private theorem walk_inline (path : List SyntaxNode) (node : InlineFragment) :
    Walk.inlineFragment registry (scope registry path) node =
      calls registry path node.outline := by
  rcases node with ⟨position, condition, applied, under⟩
  have set := walk_selectionSet (.inline ⟨position, condition, applied, under⟩ :: path)
    position under (walk_selections _ under)
  rw [Walk.inlineFragment, InlineFragment.outline, calls_around rfl, List.flatMap_append,
    ← walk_directives, List.flatMap_singleton, ← selectionSetOutline, ← set]
  rfl
termination_by structural node

private theorem walk_selections (path : List SyntaxNode) (under : List Selection) :
    Walk.selections registry (scope registry path) under =
      (selectionOutlines under).flatMap (calls registry path) := by
  cases under with
  | nil => rfl
  | cons head tail =>
      rw [Walk.selections, selectionOutlines, List.flatMap_cons, walk_selection path head,
        walk_selections path tail]
termination_by structural under

end

/-! ### Definitions -/

private theorem walk_variableDefinition (path : List SyntaxNode) (node : VariableDefinition) :
    Walk.variableDefinition registry (scope registry path) node =
      calls registry path node.outline := by
  rcases node with ⟨position, name, type, default⟩
  rw [VariableDefinition.outline, calls_through rfl]
  cases default with
  | none => rfl
  | some literal =>
      simp only [Option.toList_some, List.map_singleton, List.flatMap_singleton, ← walk_literal]
      rfl

private theorem walk_definition (document : Document) (node : Definition) :
    Walk.definition registry node = calls registry [.document document] node.outline := by
  cases node with
  | operation node =>
      have definitions (path : List SyntaxNode) :
          node.variableDefinitions.flatMap
              (Walk.variableDefinition registry (scope registry path)) =
            (node.variableDefinitions.map VariableDefinition.outline).flatMap
              (calls registry path) := by
        simp only [List.flatMap_map, ← walk_variableDefinition]
      rw [Definition.outline, calls_around rfl, List.flatMap_append, List.flatMap_append,
        ← walk_directives, List.flatMap_singleton,
        ← walk_selectionSet _ _ _ (walk_selections _ _), ← definitions, ← List.append_assoc]
      rfl
  | fragment node =>
      rw [Definition.outline, calls_around rfl, List.flatMap_append, ← walk_directives,
        List.flatMap_singleton, ← walk_selectionSet _ _ _ (walk_selections _ _)]
      rfl

end Lexical

private theorem Document.walk_eq_stops (document : Document) (registry : Registry) :
    document.walk registry = document.outline.stops.map (Lexical.call registry) := by
  have isCalls : document.outline.stops.map (Lexical.call registry) =
      Lexical.calls registry [] document.outline := by
    simp only [Lexical.calls, List.append_nil]
    rfl
  rw [isCalls, Document.outline, Lexical.calls_around rfl, List.flatMap_map]
  simp only [← Lexical.walk_definition]
  rfl

/-- The calls of a tour are those at the stops of the outline: every node once, in document order,
each with the types that its path gives it. Every part leaves what is around it as it was. -/
theorem Document.tour_types_lexically (document : Document) (registry : Registry) :
    document.tour registry = document.outline.stops.map (Lexical.call registry) ∧
      (∀ stop ∈ document.outline.stops,
        document.outline.path? stop.address = some stop.path) ∧
      (∀ address path, document.outline.path? address = some path →
        Outline.VisitedOnce document.outline.stops address path) ∧
      (Outline.entries document.outline.stops).Pairwise (· < ·) ∧
      ∀ stage, Tour.Part registry stage →
        ∀ tour : Tour, (stage.run tour).2.around = tour.around := by
  refine ⟨?_, ?_, ?_, document.outline.entries_sorted, fun stage part => part.around_eq⟩
  · rw [tour_eq_walk, walk_eq_stops]
  · exact fun stop member => Outline.path?_of_stop stop.address document.outline member rfl
  · exact fun address path leads => Outline.visitedOnce_of_path address document.outline leads

namespace Invoice

/-! A query for a field with a list for its argument, which is no list, under a fragment without a
condition, and for an unknown field. -/

def page : InputValueDefinition := { name := "page", type := .nonNull (.named "Int") }

def query : NamedType where
  key := .custom 0
  name := "Query"
  shape := .object { fields := [{ name := "total", type := .named "Int", arguments := [page] }] }

def registry : Registry := ⟨Scalar.all ++ [query], query, none, none, [], []⟩

def total : Field := ⟨⟨1, 9⟩, none, "total", [("page", .list [.int 2])], [], []⟩

def missing : Field := ⟨⟨1, 27⟩, none, "missing", [], [], []⟩

def document : Document where
  definitions :=
    [.operation ⟨⟨1, 1⟩, .query, none, [], [],
      [.inline ⟨⟨1, 3⟩, none, [], [.field total]⟩, .field missing]⟩]

/-- The address of the item of the list. -/
def item : List Nat := [0, 0, 0, 0, 0, 0, 0, 0, 0]

end Invoice

/-- An item of a list that no list was asked for is expected to be of the type without wrappers. -/
theorem Document.tour_types_lexically_of_invoice :
    ∃ path, Invoice.document.outline.path? Invoice.item = some path ∧
      Outline.VisitedOnce Invoice.document.outline.stops Invoice.item path ∧
      ((Lexical.scope Invoice.registry path).parent.map NamedType.name,
        (Lexical.scope Invoice.registry path).inputType.map TypeRef.text,
        (Lexical.scope Invoice.registry path).input.isSome) = (some "Query", some "Int", false) ∧
      (Invoice.document.tour Invoice.registry).length = 19 ∧
      ∀ tour : Tour, ((Tour.field Invoice.registry Invoice.total).run tour).2.around =
        tour.around := by
  rcases Document.tour_types_lexically Invoice.document Invoice.registry with
    ⟨isStops, _, once, _, kept⟩
  exact ⟨_, rfl, once Invoice.item _ rfl, rfl, congrArg List.length isStops,
    kept _ (.field Invoice.total)⟩

end GraphQL
