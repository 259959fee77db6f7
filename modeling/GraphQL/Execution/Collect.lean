import GraphQL.Coercion.Literal
import GraphQL.Execution.Request

/-!
The fields to execute on an object: those of the selection sets, with fragments expanded that apply
to the object's type, without what `@skip` and `@include` leave out, grouped by response name.
-/

namespace GraphQL

abbrev FieldGroup := String × List Field

namespace Request

def condition? (request : Request) (directives : List Directive) (name : String) : Option Json :=
  (directives.find? fun directive => directive.name == name).bind fun directive =>
    (Named.value? directive.arguments "if").bind fun literal =>
      (literal.valueWith (some request.variableValues)).toOption

def includes (request : Request) (directives : List Directive) : Bool :=
  match request.condition? directives "skip" with
  | some (.bool true) => false
  | _ =>
      match request.condition? directives "include" with
      | some (.bool false) => false
      | _ => true

def conditionHolds (request : Request) (condition objectName : String) : Bool :=
  condition == objectName ||
    (request.registry.lookup? condition).any fun type =>
      type.isAbstract && request.registry.isPossible type objectName

end Request

/-- The groups so far, and the fragments that were spread. Each fragment is expanded once. -/
structure Collection where
  groups : List FieldGroup := []
  visited : List String := []

namespace Collection

def addField (collection : Collection) (field : Field) : Collection :=
  let name := field.responseName
  let fields := (Named.value? collection.groups name).getD []
  { collection with groups := Named.put collection.groups (name, fields ++ [field]) }

mutual

def addSelection (request : Request) (objectName : String)
    (follow : String → Collection → Collection) : Selection → Collection → Collection
  | .field node, collection =>
      if request.includes node.directives then collection.addField node else collection
  | .spread node, collection =>
      if !request.includes node.directives || collection.visited.contains node.name then collection
      else follow node.name { collection with visited := collection.visited ++ [node.name] }
  | .inline node, collection => addInline request objectName follow node collection
termination_by structural selection => selection

def addInline (request : Request) (objectName : String)
    (follow : String → Collection → Collection) : InlineFragment → Collection → Collection
  | ⟨_, condition, directives, under⟩, collection =>
      if request.includes directives && condition.all (request.conditionHolds · objectName) then
        addSelections request objectName follow under collection
      else collection
termination_by structural fragment => fragment

def addSelections (request : Request) (objectName : String)
    (follow : String → Collection → Collection) : List Selection → Collection → Collection
  | [], collection => collection
  | selection :: selections, collection =>
      addSelections request objectName follow selections
        (addSelection request objectName follow selection collection)
termination_by structural selections => selections

end

/-- Take in a fragment if it applies. Every nested call takes in another fragment for the first
time, so there are no more of them than fragments. -/
def addFragment (request : Request) (objectName : String) :
    (nesting : Nat) → String → Collection → Collection
  | 0, _, collection => collection
  | nesting + 1, name, collection =>
      match request.document.fragment? name with
      | some fragment =>
          if request.conditionHolds fragment.condition objectName then
            addSelections request objectName (addFragment request objectName nesting)
              fragment.selections collection
          else collection
      | none => collection

end Collection

def Request.collectFields (request : Request) (objectName : String)
    (sets : List (List Selection)) : List FieldGroup :=
  (sets.foldl
    (fun collection selections =>
      collection.addSelections request objectName
        (Collection.addFragment request objectName (request.document.fragments.length + 1))
        selections)
    ({} : Collection)).groups

end GraphQL
