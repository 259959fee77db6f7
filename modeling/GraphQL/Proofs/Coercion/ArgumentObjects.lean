import GraphQL.Proofs.Coercion.Relation
import GraphQL.Schema.Directives
import GraphQL.Schema.Scalars

/-!
Arguments and object literals. Arguments for the fields of an input object are coerced as the object
literal that has them for its fields: to the same entries in the same order, and if one definition
refuses what is given for it, or that nothing is, it does so in both.
-/

namespace GraphQL

/-- The values of arguments by name. -/
def Arguments.entries (arguments : Arguments) : List (String × Json) :=
  arguments.map fun argument => (argument.1, argument.2.value)

namespace InputValueDefinition

/-- The literal that counts for a definition: what is written, unless it is an absent variable. -/
def given? (written : ArgumentList) (values : Variables) (definition : InputValueDefinition) :
    Option Literal :=
  (Named.value? written definition.name).filter fun literal => !literal.isAbsent (some values)

/-- How a definition is refused, by the error as an argument and that as a field: it is missing, or
what is given for it does not coerce. -/
inductive Refuses (registry : Registry) (owner : String) (written : ArgumentList)
    (values : Variables) (definition : InputValueDefinition) :
    (argument field : CoercionError) → Prop
  | missing (notGiven : definition.given? written values = none)
      (required : definition.isRequired = true) :
      Refuses registry owner written values definition
        ⟨s!"Argument \"{definition.name}\" of required type \"{definition.type.text}\" was not provided.",
          [.key definition.name]⟩
        ⟨s!"Field \"{owner}.{definition.name}\" of required type \"{definition.type.text}\" was not provided.",
          []⟩
  | invalid {literal : Literal} {error : CoercionError}
      (isGiven : definition.given? written values = some literal)
      (failed : registry.coerceLiteral (some values) literal definition.type = .error error) :
      Refuses registry owner written values definition
        ⟨s!"Argument \"{definition.name}\" has invalid value {literal.text}. {error.message}",
          .key definition.name :: error.path⟩
        (error.under (.key definition.name))

end InputValueDefinition

namespace Registry

variable {registry : Registry} {owner : String} {written : ArgumentList} {values : Variables}
  {readers : List (String × InputReader)}

/-- What definitions make of arguments, and what they make of fields: entries with the same values,
or two refusals at one of them. -/
inductive Corresponds (registry : Registry) (owner : String) (written : ArgumentList)
    (values : Variables) (definitions : List InputValueDefinition) :
    Except CoercionError Arguments → Except CoercionError (List (String × Json)) → Prop
  | entries (arguments : Arguments) :
      Corresponds registry owner written values definitions (.ok arguments) (.ok arguments.entries)
  | refused {definition : InputValueDefinition} {argument field : CoercionError}
      (member : definition ∈ definitions)
      (refuses : definition.Refuses registry owner written values argument field) :
      Corresponds registry owner written values definitions (.error argument) (.error field)

private theorem absent_corresponds {definition : InputValueDefinition}
    (notGiven : definition.given? written values = none) :
    registry.Corresponds owner written values [definition] definition.absentArgument
      (definition.absentEntry owner) := by
  rw [InputValueDefinition.absentArgument, InputValueDefinition.absentEntry]
  cases isDefault : definition.default with
  | some value => exact .entries [(definition.name, ⟨value, .fieldDefault⟩)]
  | none =>
      cases required : definition.type.isNonNull with
      | false => exact .entries []
      | true =>
          refine .refused List.mem_cons_self (.missing notGiven ?_)
          rw [InputValueDefinition.isRequired, required, isDefault]
          rfl

/-- One definition makes of an argument what it makes of the field. -/
private theorem entry_corresponds {definition : InputValueDefinition}
    (reads : Named.value? readers definition.name =
      (definition.given? written values).map (registry.coerceLiteral (some values))) :
    registry.Corresponds owner written values [definition]
      (definition.argumentEntry registry written values)
      (InputObject.entry owner readers definition) := by
  rw [InputValueDefinition.argumentEntry, ← InputValueDefinition.given?, InputObject.entry, reads]
  cases isGiven : definition.given? written values with
  | none => exact absent_corresponds isGiven
  | some literal =>
      cases read : registry.coerceLiteral (some values) literal definition.type with
      | ok value =>
          simp only [Option.map_some, read]
          exact .entries [(definition.name, ⟨value, literal.source values⟩)]
      | error error =>
          simp only [Option.map_some, read]
          exact .refused List.mem_cons_self (.invalid isGiven read)

/-- Definitions one after another make of arguments what they make of fields. -/
private theorem Corresponds.both {first rest : List InputValueDefinition}
    {argument arguments : Except CoercionError Arguments}
    {field fields : Except CoercionError (List (String × Json))}
    (here : registry.Corresponds owner written values first argument field)
    (later : registry.Corresponds owner written values rest arguments fields) :
    registry.Corresponds owner written values (first ++ rest)
      (do
        let entry ← argument
        let more ← arguments
        return entry ++ more)
      (do
        let entry ← field
        let more ← fields
        return entry ++ more) := by
  cases here with
  | refused member refuses => exact .refused (List.mem_append_left _ member) refuses
  | entries entry =>
      cases later with
      | refused member refuses => exact .refused (List.mem_append_right _ member) refuses
      | entries more =>
          have joined : (entry ++ more : Arguments).entries = entry.entries ++ more.entries :=
            List.map_append
          have entries : registry.Corresponds owner written values (first ++ rest)
              (.ok (entry ++ more)) (.ok (Arguments.entries (entry ++ more))) :=
            .entries (entry ++ more)
          rwa [joined] at entries

private theorem coerceArguments_corresponds {definitions : List InputValueDefinition}
    (reads : ∀ definition ∈ definitions, Named.value? readers definition.name =
      (definition.given? written values).map (registry.coerceLiteral (some values))) :
    registry.Corresponds owner written values definitions
      (registry.coerceArguments written values definitions)
      (InputObject.entries owner readers definitions) := by
  induction definitions with
  | nil => exact .entries []
  | cons definition definitions induction =>
      have parts := List.forall_mem_cons.mp reads
      rw [coerceArguments, InputObject.entries_cons]
      exact (entry_corresponds parts.1).both (induction parts.2)

/-! ## Object literals -/

/-- At an input object, null or not, an object literal of known fields is coerced to their
entries. -/
private theorem coerceLiteral_object {type : TypeRef} {named : NamedType}
    {definitions : List InputValueDefinition} {values? : Option Variables}
    {fields : List (String × Literal)} (bare : type.nullable.isBare = true)
    (resolved : registry.resolve? type = some named)
    (isObject : named.shape = .inputObject definitions)
    (known : ∀ name ∈ Named.names fields, Named.contains definitions name = true) :
    registry.coerceLiteral values? (.object fields) type =
      (InputObject.entries named.name (registry.literalReaders values? fields) definitions).map
        .object := by
  have atBare {type : TypeRef} (resolved : registry.resolve? type = some named) :
      registry.literalAtNamed (.object fields)
          (some (Named.names fields, registry.literalReaders values? fields)) type =
        (InputObject.entries named.name (registry.literalReaders values? fields) definitions).map
          .object := by
    rw [literalAtNamed_object resolved isObject, InputObject.read_known known]
  rw [coerceLiteral]
  cases type with
  | nonNull inner =>
      cases inner with
      | list | nonNull => cases bare
      | named | direct | deferred => exact atBare resolved
  | list => cases bare
  | named | direct | deferred => exact atBare resolved

end Registry

/-- Arguments of different names for the fields of an input object are coerced if and only if the
object literal is that has the same entries, in whatever order they stand in it, and to the same
entries in the same order. If they are refused, it is at one definition, with messages that differ
only in what they call it. -/
theorem arguments_coerced_as_object (registry : Registry) (type : TypeRef) (named : NamedType)
    (definitions : List InputValueDefinition) (bare : type.nullable.isBare = true)
    (resolved : registry.resolve? type = some named)
    (isObject : named.shape = .inputObject definitions) (written : ArgumentList)
    (distinct : (Named.names written).Nodup)
    (known : ∀ name ∈ Named.names written, Named.contains definitions name = true)
    (fields : List (String × Literal)) (same : fields.Perm written) (values : Variables) :
    ((∃ arguments, registry.coerceArguments written values definitions = .ok arguments) ↔
      ∃ value, registry.coerceLiteral (some values) (.object fields) type = .ok value) ∧
    (∀ arguments value, registry.coerceArguments written values definitions = .ok arguments →
      registry.coerceLiteral (some values) (.object fields) type = .ok value →
        value = .object arguments.entries) ∧
    ∀ argument field, registry.coerceArguments written values definitions = .error argument →
      registry.coerceLiteral (some values) (.object fields) type = .error field →
        ∃ definition ∈ definitions,
          definition.Refuses registry named.name written values argument field := by
  have sameNames : (Named.names fields).Perm (Named.names written) := same.map nameOf
  have fieldsKnown : ∀ name ∈ Named.names fields, Named.contains definitions name = true :=
    fun name member => known name (sameNames.mem_iff.mp member)
  have reads : ∀ definition ∈ definitions,
      Named.value? (registry.literalReaders (some values) fields) definition.name =
        (definition.given? written values).map (registry.coerceLiteral (some values)) := by
    intro definition _
    rw [value?_literalReaders (sameNames.nodup_iff.mpr distinct),
      Named.value?_of_perm distinct same, InputValueDefinition.given?]
  rw [Registry.coerceLiteral_object bare resolved isObject fieldsKnown]
  have corresponds : registry.Corresponds named.name written values definitions _ _ :=
    Registry.coerceArguments_corresponds reads
  generalize registry.coerceArguments written values definitions = arguments at corresponds ⊢
  generalize InputObject.entries _ _ _ = entries at corresponds ⊢
  cases corresponds with
  | entries arguments =>
      refine ⟨⟨fun _ => ⟨_, rfl⟩, fun _ => ⟨_, rfl⟩⟩, ?_, nofun⟩
      rintro _ _ ⟨⟩ ⟨⟩
      rfl
  | refused member refuses =>
      refine ⟨⟨nofun, nofun⟩, nofun, ?_⟩
      rintro _ _ ⟨⟩ ⟨⟩
      exact ⟨_, member, refuses⟩

namespace Inn

/-! A booking is for a room and some nights, by default one; it may have guests and a note. -/

def booking : List InputValueDefinition :=
  [{ name := "room", type := .nonNull (.named "ID") },
    { name := "nights", type := .nonNull (.named "Int"), default := some (.int 1) },
    { name := "guests", type := .list (.nonNull (.named "String")) },
    { name := "note", type := .named "String" },
    { name := "code", type := .named "String" }]

def bookingType : NamedType where
  key := .custom 0
  name := "Booking"
  shape := .inputObject booking

def query : NamedType where
  key := .custom 1
  name := "Query"
  shape := .object
    { fields := [{ name := "book", type := .named "Boolean", arguments := booking },
        { name := "change", type := .named "Boolean",
          arguments := [{ name := "to", type := .direct bookingType.toInstance }] }] }

def registry : Registry where
  types := Scalar.all ++ Meta.all ++ [query, bookingType]
  query := query
  mutation := none
  subscription := none
  directives := DirectiveDefinition.builtIn
  possibleTypes := []

/-- The note is a variable that is absent, and so are the nights; the guest is one alone. -/
def fields : List (String × Literal) :=
  [("code", .null), ("guests", .variable "guest"), ("nights", .variable "nights"),
    ("note", .variable "note"), ("room", .int 7)]

def written : ArgumentList := fields.reverse

def values : Variables :=
  [("guest", { value := .string "Ada", source := .explicit, type := .nonNull (.named "String") })]

def arguments : Arguments :=
  [("room", ⟨.string "7", .literal⟩), ("nights", ⟨.int 1, .fieldDefault⟩),
    ("guests", ⟨.array [.string "Ada"], .variable⟩), ("code", ⟨.null, .nullLiteral⟩)]

private theorem written_coerced :
    registry.coerceArguments written values booking = .ok arguments := rfl

end Inn

theorem arguments_coerced_as_object_of_inn :
    Inn.registry.coerceArguments Inn.written Inn.values Inn.booking = .ok Inn.arguments ∧
      Inn.registry.coerceLiteral (some Inn.values) (.object Inn.fields)
          (.nonNull (.named "Booking")) =
        .ok (.object [("room", .string "7"), ("nights", .int 1), ("guests", .array [.string "Ada"]),
          ("code", .null)]) := by
  have known : ∀ name ∈ Named.names Inn.written, Named.contains Inn.booking name = true := by
    decide
  have alike := arguments_coerced_as_object Inn.registry (.nonNull (.named "Booking"))
    Inn.bookingType Inn.booking rfl rfl rfl Inn.written (by decide) known Inn.fields
    (List.reverse_perm Inn.fields).symm Inn.values
  rcases alike.1.mp ⟨_, Inn.written_coerced⟩ with ⟨value, coerced⟩
  have isObject := alike.2.1 _ _ Inn.written_coerced coerced
  exact ⟨Inn.written_coerced, coerced.trans (congrArg _ isObject)⟩

end GraphQL
