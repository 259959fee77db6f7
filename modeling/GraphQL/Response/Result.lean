import GraphQL.Response.Error

/-!
The result of one request, or of one event of a subscription.
-/

namespace GraphQL

structure ExecutionResult where
  /-- Whether execution started. -/
  executed : Bool
  /-- Null when a null spread to the root. -/
  data : Option Json := none
  errors : List ResponseError := []
  extensions : Option (List (String × Json)) := none

namespace ExecutionResult

def ofExecution (data : Option Json) (errors : List ResponseError)
    (extensions : Option (List (String × Json))) : ExecutionResult :=
  { executed := true
    data := data
    errors := errors
    extensions := extensions.filter fun entries => !entries.isEmpty }

def rejected (errors : List ResponseError) : ExecutionResult :=
  { executed := false, errors := errors }

def extend (result : ExecutionResult) (errors : List ResponseError)
    (extensions : List (String × Json)) : ExecutionResult :=
  { result with
    errors := errors ++ result.errors
    extensions :=
      if extensions.isEmpty then result.extensions
      else some (extensions.foldl Named.put (result.extensions.getD [])) }

def isOk (result : ExecutionResult) : Bool := result.errors.isEmpty

def toJson (result : ExecutionResult) : Json :=
  .object
    ((result.data.map fun data => ("data", data)).toList ++
      (if result.errors.isEmpty then []
        else [("errors", Json.array (result.errors.map ResponseError.toJson))]) ++
      (result.extensions.map fun entries => ("extensions", Json.object entries)).toList)

end ExecutionResult

end GraphQL
