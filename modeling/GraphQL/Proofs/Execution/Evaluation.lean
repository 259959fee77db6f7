import GraphQL.Proofs.Execution.Completion

/-!
The depth-first evaluator of an operation. The fields of an object are collected and each is
resolved and completed, all the way down, before the next. A null that a position excludes, and so
the failure of a field, takes the place of the nearest position above that may be null, or of all
data. The evaluator goes down as far as fields nest, which is finite in a document without cycles.
-/

namespace GraphQL

/-- What resolvers answer by number, whenever they do. -/
abbrev Answers := Nat → Invocation → Outcome FieldValue

/-- The values, if all are there. -/
def together {α : Type} : List (Option α) → Option (List α)
  | [] => some []
  | none :: _ => none
  | some value :: rest => (together rest).map (value :: ·)

/-- What a position shows when its value is there or is null, which is passed up if it must not
be. -/
def TypeRef.settle (type : TypeRef) : Option Json → Option Json
  | some value => some value
  | none => if type.isNonNull then none else some .null

namespace Request

/-- How a field is resolved at a path. -/
def resolve (request : Request) (answers : Answers) (call : FieldCall) (path : Path) :
    Resolution :=
  if call.isMeta then
    .outcome (.value (.json (request.introspect call.definition.name call.fields)))
  else
    match request.invocation path call with
    | .error error => .invalidArguments error
    | .ok invocation =>
        match call.definition.resolver with
        | some resolver => .outcome (answers resolver invocation)
        | none =>
            .outcome (.value
              (if call.definition.subscriber.isSome then call.parent
                else call.parent.property call.definition.name))

/-- What evaluates the object of a value at a path. -/
abbrev Expansion := NamedType → FieldValue → Path → Option Json

/-- The value of a position of a type, or none if a null has to move up from it. -/
def evaluateValue (request : Request) (call : FieldCall) (expand : Expansion) (type : TypeRef)
    (value : FieldValue) (path : Path) : Option Json :=
  type.settle
    (match judged : request.judge call type value with
    | .failure _ => none
    | .null => none
    | .leaf json => if json.isNull then none else some json
    | .items item values =>
        (together (values.zipIdx.map fun entry =>
          request.evaluateValue call expand item entry.1 (path ++ [.index entry.2]))).map .array
    | .object object => expand object value path)
termination_by sizeOf type
decreasing_by
  have isItems := request.judge_judged call type value
  rw [judged] at isItems
  cases isItems with
  | items _ isList _ => exact TypeRef.sizeOf_listItem_lt isList

theorem evaluateValue_eq (request : Request) (call : FieldCall) (expand : Expansion)
    (type : TypeRef) (value : FieldValue) (path : Path) :
    request.evaluateValue call expand type value path =
      type.settle
        (match request.judge call type value with
        | .failure _ => none
        | .null => none
        | .leaf json => if json.isNull then none else some json
        | .items item values =>
            (together (values.zipIdx.map fun entry =>
              request.evaluateValue call expand item entry.1 (path ++ [.index entry.2]))).map .array
        | .object object => expand object value path) := by
  rw [evaluateValue]
  split
  all_goals
    rename_i judged
    rw [judged]

/-- The value of a field, or none if a null has to move up from it. What introspection answers
stands as it is. -/
def evaluateField (request : Request) (answers : Answers) (expand : Expansion) (call : FieldCall)
    (path : Path) : Option Json :=
  match request.resolve answers call path with
  | .outcome (.value value) =>
      if call.isMeta then some (metaJson value)
      else request.evaluateValue call expand call.definition.type value path
  | _ => call.definition.type.settle none

private theorem slots_nesting_lt {request : Request} (acyclic : request.document.Acyclic)
    {object : NamedType} {sets : List (List Selection)} {slot : Slot}
    (member : slot ∈ request.slots object sets) :
    request.document.nesting (slot.fields.map Field.selections).flatten <
      request.document.nesting sets.flatten := by
  rcases mem_slots member with ⟨_, _, collected, _⟩
  exact collectFields_nesting_lt acyclic collected

/-- The value of an object of some type, or none if a null has to move up from it. -/
def evaluateObject (request : Request) (acyclic : request.document.Acyclic) (answers : Answers)
    (object : NamedType) (sets : List (List Selection)) (parent : FieldValue) (path : Path) :
    Option Json :=
  (together ((request.slots object sets).attach.map fun slot =>
    (if slot.1.isTypeName then some (.string object.name)
      else
        request.evaluateField answers
          (fun inner value path =>
            request.evaluateObject acyclic answers inner (slot.1.fields.map Field.selections) value
              path)
          (slot.1.call object.name parent) (path ++ [.key slot.1.key])).map
      fun value => (slot.1.key, value))).map .object
termination_by request.document.nesting sets.flatten
decreasing_by exact slots_nesting_lt acyclic slot.2

/-- The value of a field with everything under it. -/
def evaluateCall (request : Request) (acyclic : request.document.Acyclic) (answers : Answers)
    (call : FieldCall) (path : Path) : Option Json :=
  request.evaluateField answers
    (fun object value path =>
      request.evaluateObject acyclic answers object call.selectionSets value path)
    call path

theorem evaluateObject_eq (request : Request) (acyclic : request.document.Acyclic)
    (answers : Answers) (object : NamedType) (sets : List (List Selection)) (parent : FieldValue)
    (path : Path) :
    request.evaluateObject acyclic answers object sets parent path =
      (together ((request.slots object sets).map fun slot =>
        (if slot.isTypeName then some (.string object.name)
          else
            request.evaluateCall acyclic answers (slot.call object.name parent)
              (path ++ [.key slot.key])).map fun value => (slot.key, value))).map .object := by
  rw [evaluateObject]
  congr 2
  symm
  rw [← List.attach_map_val]
  rfl

/-- The data of the operation, or none if it is null. -/
def evaluateRoot (request : Request) (acyclic : request.document.Acyclic) (answers : Answers)
    (rootValue : FieldValue) : Option Json :=
  match request.rootType? with
  | none => some (.object [])
  | some object =>
      request.evaluateObject acyclic answers object [request.operation.selections] rootValue []

/-- The data of the operation. -/
def evaluate (request : Request) (acyclic : request.document.Acyclic) (answers : Answers)
    (rootValue : FieldValue) : Json :=
  (request.evaluateRoot acyclic answers rootValue).getD .null

end Request

end GraphQL
