import GraphQL.Document.Basic
import GraphQL.Response.Error

/-!
Choosing the operation of a document to run, and how its fields are run.
-/

namespace GraphQL

def operationResolutionFailure : String := "OPERATION_RESOLUTION_FAILURE"

inductive OperationError where
  | unknown (name : String)
  | missing
  | ambiguous
deriving DecidableEq

def OperationError.message : OperationError → String
  | .unknown name => s!"Unknown operation named \"{name}\"."
  | .missing => "Must provide an operation."
  | .ambiguous => "Must provide operation name if query contains multiple operations."

def operationFailure (message : String) : ResponseError :=
  { message := message
    kind := .validation operationResolutionFailure
    code := some operationResolutionFailure }

namespace Document

def indexedOperations (document : Document) : List (Nat × Operation) :=
  document.definitions.zipIdx.filterMap fun (definition, index) =>
    match definition with
    | .operation operation => some (index, operation)
    | .fragment _ => none

def selectOperation (document : Document) (name? : Option String) :
    Except OperationError (Nat × Operation) :=
  match name? with
  | some name =>
      match document.indexedOperations.find? fun entry => entry.2.name == some name with
      | some entry => .ok entry
      | none => .error (.unknown name)
  | none =>
      match document.indexedOperations with
      | [] => .error .missing
      | [entry] => .ok entry
      | _ => .error .ambiguous

end Document

inductive ExecutionStrategy where
  /-- All fields of one depth at a time. -/
  | parallel
  /-- One top-level field after another. -/
  | serial
  /-- One execution for each event of a source. -/
  | streaming
deriving DecidableEq, Repr

def ExecutionStrategy.text : ExecutionStrategy → String
  | .parallel => "Parallel"
  | .serial => "Serial"
  | .streaming => "Streaming"

def OperationKind.strategy : OperationKind → ExecutionStrategy
  | .query => .parallel
  | .mutation => .serial
  | .subscription => .streaming

end GraphQL
