import GraphQL.Response.Error

/-!
Errors of coercion: what is wrong, and where inside the value.
-/

namespace GraphQL

structure CoercionError where
  message : String
  path : Path := []

namespace CoercionError

def under (segment : PathSegment) (error : CoercionError) : CoercionError :=
  { error with path := segment :: error.path }

def text (error : CoercionError) : String :=
  if error.path.isEmpty then error.message
  else
    let place := ".".intercalate (error.path.map PathSegment.text)
    s!"{error.message} (at \"{place}\")"

end CoercionError

end GraphQL
