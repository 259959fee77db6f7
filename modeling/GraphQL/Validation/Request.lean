import GraphQL.Coercion.Request
import GraphQL.Validation.Rule

/-!
Checking a request: the document by a plan of rules, then the variables of its operation.
-/

namespace GraphQL

structure RequestCheck where
  errors : List ResponseError := []
  variableValues : Variables := []

def RequestCheck.isValid (check : RequestCheck) : Bool := check.errors.isEmpty

/-- Check a request. Variables are coerced only if every rule passed. -/
def Document.checkRequest (document : Document) (registry : Registry) (plan : List Rule)
    (operation : Operation) (provided : List (String × Json)) : RequestCheck :=
  match document.validate registry plan with
  | [] =>
      match operation.coerceVariables registry provided with
      | .ok values => { variableValues := values }
      | .error errors => { errors := errors }
  | violations => { errors := violations.map ValidationError.toResponse }

end GraphQL
