import GraphQL.Json.Basic
import GraphQL.Document.Literal

/-!
The errors of a response, their JSON form, and reading that form back.
-/

namespace GraphQL

inductive PathSegment where
  | key (name : String)
  | index (position : Nat)
deriving DecidableEq, Repr

namespace PathSegment

def toJson : PathSegment → Json
  | .key name => .string name
  | .index position => .int position

def text : PathSegment → String
  | .key name => name
  | .index position => toString position

end PathSegment

abbrev Path := List PathSegment

/-- What produced an error. The kind is never part of a response. -/
inductive ErrorKind where
  /-- A rule, known by its code, rejected the document. -/
  | validation (code : String)
  /-- A value could not be coerced to its declared type. -/
  | coercion
  /-- A resolver failed, or its value could not be completed. -/
  | resolver
  /-- The request was cancelled or timed out. -/
  | cancellation
  /-- Anything else, such as a panic. -/
  | unhandled
deriving DecidableEq, Repr

def ErrorKind.text : ErrorKind → String
  | .validation code => "Validation " ++ code
  | .coercion => "Coercion"
  | .resolver => "Resolver"
  | .cancellation => "Cancellation"
  | .unhandled => "Unhandled"

structure ResponseError where
  message : String
  kind : ErrorKind
  locations : Option (List Position) := none
  path : Option Path := none
  code : Option String := none
  extensions : List (String × Json) := []

namespace ResponseError

/-! ## Building errors -/

def withCode (error : ResponseError) (code : String) : ResponseError :=
  { error with code := some code }

def withLocations (error : ResponseError) (positions : List Position) : ResponseError :=
  { error with locations := if positions.isEmpty then none else some positions }

def withPath (error : ResponseError) (path : Path) : ResponseError :=
  { error with path := some path }

def withExtension (error : ResponseError) (key : String) (value : Json) : ResponseError :=
  { error with extensions := Named.put error.extensions (key, value) }

def ofMessage (message : String) : ResponseError := ⟨message, .unhandled, none, none, none, []⟩

/-! ## The JSON form -/

def locationJson (position : Position) : Json :=
  .object [("line", .int position.line), ("column", .int position.column)]

def extensionEntries (error : ResponseError) : List (String × Json) :=
  (error.code.map fun code => ("code", Json.string code)).toList ++ error.extensions

def entries (error : ResponseError) : List (String × Json) :=
  ("message", .string error.message) ::
    (error.locations.map fun positions =>
      ("locations", Json.array (positions.map locationJson))).toList ++
    (error.path.map fun path => ("path", Json.array (path.map PathSegment.toJson))).toList ++
    (if error.extensionEntries.isEmpty then []
      else [("extensions", Json.object (Named.ofList error.extensionEntries))])

def toJson (error : ResponseError) : Json := .object error.entries

/-! ## Reading the JSON form -/

/-- A number that counts something: whole, not negative, of at most 64 bits. -/
def count? : Json → Option Nat
  | .number (.int value) => countOf? value
  | _ => none

def location? : Json → Option Position
  | .object fields => do
      let line ← (Named.value? fields "line").bind count?
      let column ← (Named.value? fields "column").bind count?
      return ⟨line, column⟩
  | .array [line, column] => do
      let line ← count? line
      let column ← count? column
      return ⟨line, column⟩
  | _ => none

def pathSegment? : Json → Option PathSegment
  | .string name => some (.key name)
  | json => (count? json).map .index

def optionalList? {α : Type} (item? : Json → Option α) : Option Json → Option (Option (List α))
  | none => some none
  | some .null => some none
  | some (.array items) => (items.mapM item?).map some
  | some _ => none

def extensions? : Option Json → Option (Option String × List (String × Json))
  | none => some (none, [])
  | some (.object fields) =>
      let others := fields.filter fun field => field.1 != "code"
      match Named.value? fields "code" with
      | none => some (none, others)
      | some .null => some (none, others)
      | some (.string code) => some (some code, others)
      | some _ => none
  | some _ => none

def ofParts? (message locations path extensions : Option Json) : Option ResponseError :=
  match message with
  | some (.string message) => do
      let locations ← optionalList? location? locations
      let path ← optionalList? pathSegment? path
      let (code, extensions) ← extensions? extensions
      return ⟨message, .unhandled, locations, path, code, extensions⟩
  | _ => none

/-- The error that a JSON value stands for. A list holds the parts in their order; trailing ones
may be missing. The kind of a read error is unknown. -/
def ofJson? : Json → Option ResponseError
  | .object fields =>
      ofParts? (Named.value? fields "message") (Named.value? fields "locations")
        (Named.value? fields "path") (Named.value? fields "extensions")
  | .array parts =>
      if 4 < parts.length then none else ofParts? parts[0]? parts[1]? parts[2]? parts[3]?
  | _ => none

end ResponseError

end GraphQL
