import GraphQL.Document.Literal

/-!
Executable documents: operations and fragments with their selections. In a document that was read
from text no two nodes have the same position, so a position names a node.
-/

namespace GraphQL

abbrev ArgumentList := List (String × Literal)

structure Directive where
  position : Position
  name : String
  arguments : ArgumentList
deriving Inhabited

structure FragmentSpread where
  position : Position
  name : String
  directives : List Directive
deriving Inhabited

mutual

inductive Selection where
  | field (field : Field)
  | spread (spread : FragmentSpread)
  | inline (fragment : InlineFragment)

structure Field where
  position : Position
  label : Option String
  name : String
  arguments : ArgumentList
  directives : List Directive
  selections : List Selection

structure InlineFragment where
  position : Position
  condition : Option String
  directives : List Directive
  selections : List Selection

end

instance : Inhabited Field := ⟨⟨default, none, "", [], [], []⟩⟩

instance : Inhabited InlineFragment := ⟨⟨default, none, [], []⟩⟩

instance : Inhabited Selection := ⟨.field default⟩

def Field.responseName (field : Field) : String := field.label.getD field.name

namespace Selection

def position : Selection → Position
  | .field node => node.position
  | .spread node => node.position
  | .inline node => node.position

def directives : Selection → List Directive
  | .field node => node.directives
  | .spread node => node.directives
  | .inline node => node.directives

end Selection

inductive OperationKind where
  | query
  | mutation
  | subscription
deriving DecidableEq, Repr, Inhabited

def OperationKind.keyword : OperationKind → String
  | .query => "query"
  | .mutation => "mutation"
  | .subscription => "subscription"

structure VariableDefinition where
  position : Position
  name : String
  type : TypeExpr
  default : Option Literal
deriving Inhabited

structure Operation where
  position : Position
  kind : OperationKind
  name : Option String
  variableDefinitions : List VariableDefinition
  directives : List Directive
  selections : List Selection
deriving Inhabited

structure Fragment where
  position : Position
  name : String
  condition : String
  directives : List Directive
  selections : List Selection
deriving Inhabited

instance : Named Fragment := ⟨Fragment.name⟩

inductive Definition where
  | operation (operation : Operation)
  | fragment (fragment : Fragment)
deriving Inhabited

structure Document where
  definitions : List Definition
deriving Inhabited

namespace Document

def operations (document : Document) : List Operation :=
  document.definitions.filterMap fun
    | .operation definition => some definition
    | .fragment _ => none

def fragments (document : Document) : List Fragment :=
  document.definitions.filterMap fun
    | .operation _ => none
    | .fragment definition => some definition

/-- The fragment that a spread means: of several with one name, the last. -/
def fragment? (document : Document) (name : String) : Option Fragment :=
  Named.find? document.fragments.reverse name

end Document

/-! How deep selections nest, and how many there are. -/

mutual

def Selection.count : Selection → Nat
  | .field node => node.count
  | .spread _ => 1
  | .inline node => node.count
termination_by structural selection => selection

def Field.count : Field → Nat
  | ⟨_, _, _, _, _, selections⟩ => 1 + countSelections selections
termination_by structural field => field

def InlineFragment.count : InlineFragment → Nat
  | ⟨_, _, _, selections⟩ => 1 + countSelections selections
termination_by structural fragment => fragment

def countSelections : List Selection → Nat
  | [] => 0
  | selection :: selections => selection.count + countSelections selections
termination_by structural selections => selections

end

def Document.selectionCount (document : Document) : Nat :=
  (document.definitions.map fun
    | .operation operation => countSelections operation.selections
    | .fragment fragment => countSelections fragment.selections).foldl (· + ·) 0

mutual

def Selection.spreads : Selection → List FragmentSpread
  | .field node => node.spreads
  | .spread node => [node]
  | .inline node => node.spreads
termination_by structural selection => selection

def Field.spreads : Field → List FragmentSpread
  | ⟨_, _, _, _, _, selections⟩ => spreadsOf selections
termination_by structural field => field

def InlineFragment.spreads : InlineFragment → List FragmentSpread
  | ⟨_, _, _, selections⟩ => spreadsOf selections
termination_by structural fragment => fragment

def spreadsOf : List Selection → List FragmentSpread
  | [] => []
  | selection :: selections => selection.spreads ++ spreadsOf selections
termination_by structural selections => selections

end

end GraphQL
