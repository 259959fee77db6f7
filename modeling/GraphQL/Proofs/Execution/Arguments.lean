import GraphQL.Proofs.Document.Objects
import GraphQL.Proofs.Execution.Expansion
import GraphQL.Proofs.Validation.Inputs

/-!
The arguments of the fields that an accepted request reaches. What a document writes was checked for
the type that the field is selected on; where the object at runtime takes the same arguments, they
are coerced, or a variable lacks a value.
-/

namespace GraphQL

/-- The arguments that count for merged fields: those of the first one. -/
def FieldCall.written (call : FieldCall) : ArgumentList :=
  ((call.fields.head?).map Field.arguments).getD []

namespace Request

variable {request : Request} {schema : Schema} {object : NamedType} {selected : SelectedField}
  {own : FieldDefinition} {provided : List (String × Json)}

/-- What the request knows of its variables. -/
structure Provides (request : Request) (provided : List (String × Json)) : Prop where
  isInput : ∀ used ∈ request.operation.variableDefinitions,
    request.registry.isInput (TypeRef.ofExpr used.type) = true
  sources : ∀ used ∈ request.operation.variableDefinitions,
    used.Source request.registry provided (request.variableValues.get? used.name)

private theorem Provides.outcomes (provides : request.Provides provided) :
    ∀ used ∈ request.operation.variableDefinitions,
      used.Outcome request.registry provided (request.variableValues.get? used.name) :=
  fun used isUsed => (provides.sources used isUsed).outcome

theorem provides_of_accepted (member : request.operation ∈ request.document.operations)
    (accepted : request.document.checkRequest request.registry defaultPlan request.operation
      provided = { variableValues := request.variableValues }) : request.Provides provided := by
  rcases Document.checkRequest_accepted accepted with ⟨silent, coerced⟩
  have distinct := Rules.variables_distinct
    (silent_of_defaultPlan silent (by simp [defaultPlan])) member
  have each (used : VariableDefinition) (isUsed : used ∈ request.operation.variableDefinitions) :=
    VariableDefinition.coerce_source (request.operation.coerced_variable distinct coerced isUsed)
  exact ⟨fun used isUsed => (each used isUsed).1, fun used isUsed => (each used isUsed).2⟩

/-- The arguments of a field that fits an object are checked for the object's own definition. -/
private theorem Fits.checked (checked : request.Checked schema)
    (silent : request.document.validate request.registry defaultPlan = [])
    (taken : request.registry.ArgumentsTaken) (proper : request.registry.ProperInputs)
    (provides : request.Provides provided)
    (registered : request.registry.object? object.name = some object)
    (fits : request.Fits object selected) (has : request.subject.HasField selected)
    {around : Definition} (reaches : request.subject.Reaches request.operation around)
    (stands : (request.subject.only around).HasField selected)
    (isOwn : request.registry.field? object selected.field.name = some own) :
    ∀ input ∈ own.arguments,
      input.Checked request.registry request.operation selected.field.arguments := by
  rcases fits.selected_on checked.accepted checked.yields has with
    ⟨parent, definition, known, runsAs, _, isDefinition, isField⟩
  have distinct := (proper.field known isField).1
  rcases stands.vetted checked.yields checked.accepted.passed silent checked.operation
    provides.isInput reaches isDefinition distinct with ⟨isKnown, isVetted⟩
  have isChecked : ∀ input ∈ definition.arguments,
      input.Checked request.registry request.operation selected.field.arguments :=
    fun input isInput => (isVetted input isInput).checked
  rcases runsAs.has_or_inherits checked.yields registered known isField with
    isSame | ⟨_, isName, inherits⟩
  · rw [← Option.some.inj (isOwn.symm.trans isSame)] at isChecked
    exact isChecked
  · have takes := taken.field inherits (isName ▸ isOwn)
    exact fun input isInput => .of_takes (takes input isInput) isKnown isChecked

/-- Everything that is written for a field of the document is visited by the walk. -/
private theorem written_visited (checked : request.Checked schema) {around : Definition}
    (reaches : request.subject.Reaches request.operation around)
    (stands : (request.subject.only around).HasField selected) {definition : FieldDefinition}
    (defined : selected.definition = some definition) :
    ∀ argument ∈ selected.field.arguments, ∃ scope,
      Walk.value request.registry scope argument.2 ⊆
        request.document.walk request.registry := by
  intro argument member
  have listed := reaches.mem checked.operation
  rcases (stands.writes checked.yields checked.accepted.passed listed defined).2 argument member
    with ⟨scope, writes⟩
  exact ⟨scope, (writes.toOffers.mono (Subject.definition_subset_walk listed)).values⟩

/-- The arguments of every field that an accepted request reaches are coerced, unless a variable in
one of them lacks a value where one is required. -/
theorem arguments_coerced (built : schema.build = .ok request.registry)
    (narrow : request.registry.FieldsNarrow) (taken : request.registry.ArgumentsTaken)
    (proper : request.registry.ProperInputs) (addressed : request.document.Addressed)
    (tidy : request.document.Tidy request.registry)
    (operation : request.operation ∈ request.document.operations)
    (accepted : request.document.checkRequest request.registry defaultPlan request.operation
      provided = { variableValues := request.variableValues })
    (rootValue : FieldValue) {outstanding : Outstanding}
    (runs : request.Runs anyAnswer (request.initial rootValue) outstanding) {task : FieldTask}
    (member : task ∈ outstanding.2) :
    (∃ arguments, request.registry.coerceArguments task.written request.variableValues
      task.definition.arguments = .ok arguments) ∨
    ∃ argument ∈ task.written, ∃ definition ∈ task.definition.arguments,
      definition.name = argument.1 ∧
        request.operation.LacksAt request.registry provided definition argument.2 := by
  have silent := (Document.checkRequest_accepted accepted).1
  have checked := checked_of_silent built narrow addressed.distinct silent operation
  have provides := provides_of_accepted operation accepted
  rcases Steps.stands checked (runs.steps (request.initial_valid rootValue)) (.resolve task)
    (Multiset.mem_map_of_mem _ member) with
    ⟨notEmpty, object, merged, registered, _, isMap, merges, defined⟩
  rcases List.exists_cons_of_ne_nil notEmpty with ⟨head, rest, isFields⟩
  rw [isFields, List.map_eq_cons_iff] at isMap
  rcases isMap with ⟨selected, others, rfl, rfl, _⟩
  have isWritten : task.written = selected.field.arguments := by
    rw [FieldCall.written, isFields]
    rfl
  have isFirst : selected ∈ selected :: others := List.mem_cons_self
  rcases merges.reached selected isFirst with ⟨around, reaches, stands⟩
  have has := merges.has selected isFirst
  have fits := merges.fits selected isFirst
  have isOwn := defined selected isFirst
  rcases fits.selected_on checked.accepted checked.yields has with
    ⟨_, _, _, _, _, isDefinition, _⟩
  rw [isWritten]
  refine coerceArguments_or_lacks proper ?_
    (fits.checked checked silent taken proper provides registered has reaches stands isOwn) ?_
    provides.outcomes
  · exact (proper.field (Named.find?_mem (Registry.isObject_of_object? registered).1).1 isOwn).2
  · intro argument isArgument
    rcases written_visited checked reaches stands isDefinition argument isArgument with
      ⟨scope, visited⟩
    exact ⟨scope, fun visit inside => tidy.objects visit (visited inside)⟩

end Request

namespace Yard

/-! A place that is measured, with an argument that the interface does not know. -/

def size : NamedType where
  key := .custom 0
  name := "Size"
  shape := .enum
    [{ name := "SMALL", value := .string "SMALL" }, { name := "ANY", value := .null }]

def limit : InputValueDefinition where
  name := "limit"
  type := .nonNull (.named "Int")
  default := some (.number (.int 5))

def sizes : InputValueDefinition where
  name := "sizes"
  type := .list (.nonNull (.named "Size"))

def place : NamedType where
  key := .custom 1
  name := "Place"
  shape := .interface
    { fields := [{ name := "height", type := .named "Int", arguments := [limit, sizes] }] }

def height : FieldDefinition where
  name := "height"
  type := .nonNull (.named "Int")
  arguments := [limit, sizes, { name := "hint", type := .named "String" }]

def query : NamedType where
  key := .custom 2
  name := "Query"
  shape := .object { interfaces := [.named "Place"], fields := [height] }

def schema : Schema where
  pool := [size, place, query]
  query := query.toInstance
  types := [size.toInstance, place.toInstance]

def registry : Registry where
  types := Scalar.all ++ Meta.all ++ [query, size, place]
  query := query
  mutation := none
  subscription := none
  directives := DirectiveDefinition.builtIn
  possibleTypes := [("Place", ["Query"])]

def selected : Field :=
  ⟨⟨2, 14⟩, none, "height",
    [("limit", .variable "limit"), ("sizes", .list [.variable "size", .enum "SMALL"])], [], []⟩

def operation : Operation :=
  ⟨⟨1, 1⟩, .query, none,
    [⟨⟨1, 7⟩, "limit", .named "Int", none⟩, ⟨⟨1, 20⟩, "size", .nonNull (.named "Size"), none⟩], [],
    [.inline ⟨⟨2, 1⟩, some "Place", [], [.field selected]⟩]⟩

def provided : List (String × Json) := [("size", .string "SMALL")]

def request : Request where
  registry := registry
  document := ⟨[.operation operation]⟩
  operation := operation
  variableValues := [("size", ⟨.string "SMALL", .explicit, .nonNull (.named "Size")⟩)]
  token := ⟨0, none⟩
  depth := 10

def task : FieldTask := ⟨⟨"Query", height, [selected], .null⟩, 1⟩

end Yard

/-- A variable that is left out gives way to a default, another one stands in a list. -/
theorem Request.arguments_coerced_of_yard :
    Yard.schema.build = .ok Yard.request.registry ∧ Yard.request.registry.FieldsNarrow ∧
      Yard.request.registry.ArgumentsTaken ∧ Yard.request.registry.ProperInputs ∧
      Yard.request.document.Addressed ∧ Yard.request.document.Tidy Yard.request.registry ∧
      Yard.request.operation ∈ Yard.request.document.operations ∧
      Yard.request.document.checkRequest Yard.request.registry defaultPlan
          Yard.request.operation Yard.provided =
        { variableValues := Yard.request.variableValues } ∧
      Yard.task ∈ (Yard.request.initial .null).2 ∧
      ((∃ arguments, Yard.request.registry.coerceArguments Yard.task.written
          Yard.request.variableValues Yard.task.definition.arguments = .ok arguments) ∨
        ∃ argument ∈ Yard.task.written, ∃ definition ∈ Yard.task.definition.arguments,
          definition.name = argument.1 ∧ Yard.request.operation.LacksAt Yard.request.registry
            Yard.provided definition argument.2) := by
  have built : Yard.schema.build = .ok Yard.request.registry := by cbv
  have narrow : Yard.request.registry.FieldsNarrow := by decide
  have taken : Yard.request.registry.ArgumentsTaken := by decide
  have proper : Yard.request.registry.ProperInputs := by decide
  have addressed : Yard.request.document.Addressed := .inr (by decide)
  have tidy : Yard.request.document.Tidy Yard.request.registry :=
    .inr (List.all_eq_true.mp rfl)
  have operation : Yard.request.operation ∈ Yard.request.document.operations :=
    List.mem_singleton_self _
  have accepted : Yard.request.document.checkRequest Yard.request.registry defaultPlan
      Yard.request.operation Yard.provided =
        { variableValues := Yard.request.variableValues } := rfl
  have member : Yard.task ∈ (Yard.request.initial .null).2 := List.mem_singleton_self _
  exact ⟨built, narrow, taken, proper, addressed, tidy, operation, accepted, member,
    Request.arguments_coerced built narrow taken proper addressed tidy operation accepted .null
      .refl member⟩

namespace Depot

/-! A request that is accepted, and whose arguments are refused all the same. The number that is
left out stands at a list that excludes null. -/

private def unit : InputValueDefinition where
  name := "unit"
  type := .nonNull (.named "Size")

private def gate : NamedType where
  key := .custom 1
  name := "Gate"
  shape := .object
    { fields := [{ name := "width", type := .named "Int", arguments := [unit] }] }

private def door : NamedType where
  key := .custom 2
  name := "Door"
  shape := .object { fields := [{ name := "width", type := .named "Int" }] }

def place : NamedType where
  key := .custom 3
  name := "Place"
  shape := .interface
    { fields :=
        [{ name := "door", type := .named "Door" }, { name := "height", type := .named "Int" }] }

/-- A place whose door is not a door, and whose height needs a unit. -/
def query : NamedType where
  key := .custom 4
  name := "Query"
  shape := .object
    { interfaces := [.named "Place"]
      fields :=
        [{ name := "door", type := .named "Gate" },
          { name := "height", type := .named "Int", arguments := [unit] },
          { name := "count", type := .named "Int", arguments := [Yard.limit] },
          { name := "skip", type := .named "Int"
            arguments :=
              [{ name := "step", type := .nonNull (.named "Int"), default := some .null }] },
          { name := "find", type := .named "Int"
            arguments := [{ name := "size", type := .nonNull (.named "Size") }] },
          { name := "sum", type := .named "Int"
            arguments := [{ name := "items", type := .nonNull (.list (.named "Int")) }] }] }

def schema : Schema where
  pool := [Yard.size, gate, door, place, query]
  query := query.toInstance
  types := [Yard.size.toInstance, gate.toInstance, door.toInstance, place.toInstance]

def registry : Registry where
  types := Scalar.all ++ Meta.all ++ [query, Yard.size, gate, door, place]
  query := query
  mutation := none
  subscription := none
  directives := DirectiveDefinition.builtIn
  possibleTypes := [("Place", ["Query"])]

def definitions : List VariableDefinition :=
  [⟨⟨1, 7⟩, "limit", .named "Int", some .null⟩, ⟨⟨1, 27⟩, "step", .named "Int", none⟩,
    ⟨⟨1, 39⟩, "size", .nonNull (.named "Size"), some (.enum "ANY")⟩,
    ⟨⟨1, 59⟩, "number", .named "Int", none⟩]

private def measured : InlineFragment :=
  ⟨⟨2, 1⟩, some "Place", [],
    [.field ⟨⟨2, 14⟩, none, "door", [], [], [.field ⟨⟨2, 21⟩, none, "width", [], [], []⟩]⟩,
      .field ⟨⟨2, 29⟩, none, "height", [], [], []⟩]⟩

def operation : Operation :=
  ⟨⟨1, 1⟩, .query, none, definitions, [],
    [.inline measured,
      .field ⟨⟨3, 1⟩, none, "count", [("limit", .variable "limit")], [], []⟩,
      .field ⟨⟨4, 1⟩, none, "skip", [("step", .variable "step")], [], []⟩,
      .field ⟨⟨5, 1⟩, none, "find", [("size", .variable "size")], [], []⟩,
      .field ⟨⟨6, 1⟩, none, "sum", [("items", .variable "number")], [], []⟩]⟩

def request : Request where
  registry := registry
  document := ⟨[.operation operation]⟩
  operation := operation
  variableValues :=
    [("limit", ⟨.null, .variableDefault, .named "Int"⟩), ("step", ⟨.null, .explicit, .named "Int"⟩),
      ("size", ⟨.null, .variableDefault, .nonNull (.named "Size")⟩)]
  token := ⟨0, none⟩
  depth := 10

/-- What is said where the arguments of a task are refused. -/
private def refusal? (task : FieldTask) : Option String :=
  match registry.coerceArguments task.written request.variableValues task.definition.arguments with
  | .ok _ => none
  | .error error => some error.message

private def missing (name type : String) : String :=
  s!"Argument \"{name}\" of required type \"{type}\" was not provided."

/-- The message for an argument that has a variable of its own name. -/
private def nullRead (name type : String) : String :=
  s!"Argument \"{name}\" has invalid value ${name}. " ++
    s!"Expected non-nullable type \"{type}\" not to be null, but variable \"${name}\" is."

private def refusals : List (Option String) :=
  [some (missing "unit" "Size!"), some (missing "unit" "Size!"), some (nullRead "limit" "Int!"),
    some (nullRead "step" "Int!"), some (nullRead "size" "Size!"),
    some (missing "items" "[Int]!")]

private def task : FieldTask :=
  ⟨⟨"Query", { name := "door", type := .named "Gate" },
    [⟨⟨2, 14⟩, none, "door", [], [], [.field ⟨⟨2, 21⟩, none, "width", [], [], []⟩]⟩], .null⟩, 1⟩

/-- All tasks but the first one, which is about the door. -/
private def others : List FieldTask := (request.rootTasks .null).2.tail

private theorem reached : ∃ outstanding,
    request.Runs Request.anyAnswer (request.initial .null) outstanding ∧
      outstanding.2.map refusal? = refusals := by
  have finished : ∃ later next, request.finish task (.outcome (.value (.json (.object []))))
      (request.rootTasks .null).1 = .ok (later, next) ∧
        (next ++ others).map refusal? = refusals := ⟨_, _, rfl, by decide⟩
  rcases finished with ⟨later, next, finished, refused⟩
  have finishes : request.Finishes Request.anyAnswer
      ((request.rootTasks .null).1, task ::ₘ (others : Multiset FieldTask))
      (later, (next : Multiset FieldTask) + (others : Multiset FieldTask)) :=
    .finish trivial finished
  refine ⟨_, .single finishes, ?_⟩
  rw [Multiset.coe_add, Multiset.map_coe, refused]

end Depot

/-- Accepted requests have arguments that are refused: of fields that the object has otherwise than
its interface, and with variables that are null by default, where the location has null as its
default, or that read as null. Others are left out where a list of their type is required: their
position is checked against the items, and what is required of the list is forgotten. -/
theorem Request.arguments_refused_of_depot :
    Depot.schema.build = .ok Depot.request.registry ∧
      Depot.request.operation ∈ Depot.request.document.operations ∧
      Depot.request.document.checkRequest Depot.request.registry defaultPlan
          Depot.request.operation [("step", .null)] =
        { variableValues := Depot.request.variableValues } ∧
      ∃ outstanding, Depot.request.Runs Request.anyAnswer (Depot.request.initial .null)
        outstanding ∧ outstanding.2.map Depot.refusal? = Depot.refusals := by
  have built : Depot.schema.build = .ok Depot.request.registry := by cbv
  have accepted : Depot.request.document.checkRequest Depot.request.registry defaultPlan
      Depot.request.operation [("step", .null)] =
        { variableValues := Depot.request.variableValues } := by
    rw [Document.checkRequest, validate_eq_walk]
    rfl
  exact ⟨built, List.mem_singleton_self _, accepted, Depot.reached⟩

end GraphQL
