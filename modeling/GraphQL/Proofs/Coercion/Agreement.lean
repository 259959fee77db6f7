import GraphQL.Proofs.Coercion.Inline

/-!
The dry run of a literal judges it as reading it with the variables of a request does: both fail
or neither, and with one error, if every variable in the literal has a value that is not null.
-/

namespace GraphQL

/-- A variable has a value that is not null where it is promoted to. That this is so at one location
means that it is so at all. -/
def Variables.Gives (values : Variables) (name : String) : Prop :=
  ∃ entry, values.get? name = some entry ∧
    ∃ location, (promoteVariable location entry.type entry.value).isNull = false

namespace InputReader

variable {refusal : TypeRef → String} {leaf : InputReader}

/-- What is not a list fails as it does at the type inside all wrappers. -/
theorem failure?_single (type : TypeRef) :
    failure? (throughWrappers false refusal none leaf type) = failure? (leaf type.innermost) := by
  induction type with
  | nonNull inner induction => exact induction
  | list item induction =>
      rw [TypeRef.innermost, ← induction]
      exact failure?_map
  | named | direct | deferred => rfl

private theorem failure?_list {first second : InputReader}
    (alike : ∀ item, failure? (first item) = failure? (second item)) (type : TypeRef) :
    failure? (throughWrappers false refusal (some first) leaf type) =
      failure? (throughWrappers false refusal (some second) leaf type) := by
  induction type with
  | nonNull inner induction => exact induction
  | list item => exact alike item
  | named | direct | deferred => rfl

private theorem failure?_readItems {α : Type} {first second : α → InputReader} {items : List α}
    (alike : ∀ item ∈ items, ∀ type, failure? (first item type) = failure? (second item type))
    (index : Nat) (type : TypeRef) :
    failure? (readItems (items.map first) index type) =
      failure? (readItems (items.map second) index type) := by
  induction items generalizing index with
  | nil => rfl
  | cons head tail induction =>
      have parts := List.forall_mem_cons.mp alike
      rw [List.map_cons, List.map_cons, readItems, readItems, failure?_both, failure?_both, under,
        under, failure?_mapError, failure?_mapError, parts.1, induction parts.2]

end InputReader

namespace InputObject

variable {α : Type} {first second : α → InputReader} {fields : List (String × α)}

private theorem failure?_entry
    (alike : ∀ field ∈ fields, ∀ type,
      failure? (first field.2 type) = failure? (second field.2 type))
    (owner : String) (definition : InputValueDefinition) :
    failure? (entry owner (fields.map fun field => (field.1, first field.2)) definition) =
      failure? (entry owner (fields.map fun field => (field.1, second field.2)) definition) := by
  rw [entry, entry, Named.value?_map (fun _ => first), Named.value?_map (fun _ => second)]
  cases found : Named.value? fields definition.name with
  | none => rfl
  | some given =>
      have read : failure? (InputReader.under (.key definition.name)
            (first given definition.type)) =
          failure? (InputReader.under (.key definition.name)
            (second given definition.type)) := by
        rw [InputReader.under, InputReader.under, failure?_mapError, failure?_mapError,
          alike _ (Named.value?_mem found)]
      exact failure?_map.trans (read.trans failure?_map.symm)

private theorem failure?_entries
    (alike : ∀ field ∈ fields, ∀ type,
      failure? (first field.2 type) = failure? (second field.2 type))
    (owner : String) (definitions : List InputValueDefinition) :
    failure? (entries owner (fields.map fun field => (field.1, first field.2)) definitions) =
      failure? (entries owner (fields.map fun field => (field.1, second field.2)) definitions) := by
  induction definitions with
  | nil => rfl
  | cons definition definitions induction =>
      rw [entries_cons, entries_cons, failure?_both, failure?_both, failure?_entry alike, induction]

/-- An object fails by the first unknown name, or as its entries do. -/
private theorem failure?_read
    (alike : ∀ field ∈ fields, ∀ type,
      failure? (first field.2 type) = failure? (second field.2 type))
    (owner : String) (definitions : List InputValueDefinition) (names : List String) :
    failure? (read owner definitions names (fields.map fun field => (field.1, first field.2))) =
      failure?
        (read owner definitions names (fields.map fun field => (field.1, second field.2))) := by
  rw [read, read]
  split
  · rfl
  · exact failure?_map.trans ((failure?_entries alike owner definitions).trans failure?_map.symm)

end InputObject

namespace Registry

variable {registry : Registry} {values : Variables}

/-- Only an input object looks at the readers of the fields. -/
private theorem failure?_literalAtNamed {literal : Literal} {names : List String}
    {first second : List (String × InputReader)}
    (alike : ∀ owner definitions, failure? (InputObject.read owner definitions names first) =
      failure? (InputObject.read owner definitions names second)) (type : TypeRef) :
    failure? (registry.literalAtNamed literal (some (names, first)) type) =
      failure? (registry.literalAtNamed literal (some (names, second)) type) := by
  refine failure?_bind_congr fun named => ?_
  cases named.shape with
  | inputObject definitions => exact alike named.name definitions
  | scalar | enum | object | interface | union => rfl

private theorem isAbsent_of_gives {literal : Literal}
    (given : ∀ name ∈ literal.variableNames, values.Gives name) :
    literal.isAbsent (some values) = false := by
  cases literal with
  | «variable» name =>
      rcases given name (List.mem_singleton.mpr rfl) with ⟨entry, isEntry, _⟩
      simp [Literal.isAbsent, isEntry]
  | _ => rfl

private theorem variableAt_of_gives {name : String} (given : values.Gives name) (type : TypeRef) :
    failure? (variableAt (some values) name type) = none := by
  rcases given with ⟨entry, isEntry, location, notNull⟩
  rw [isNull_promoteVariable] at notNull
  simp [variableAt, isEntry, isNull_promoteVariable, notNull, failure?]

private theorem failure?_dryRun (literal : Literal)
    (given : ∀ name ∈ literal.variableNames, values.Gives name) :
    ∀ type, failure? (registry.coerceLiteral none literal type) =
      failure? (registry.coerceLiteral (some values) literal type) := by
  induction literal using Literal.induct with
  | mentioned name =>
      intro type
      exact (variableAt_of_gives (given name (List.mem_singleton.mpr rfl)) type).symm
  | list items each =>
      rw [Literal.variableNames, Literal.itemVariables_eq] at given
      have alike : ∀ item ∈ items, ∀ type, failure? (registry.coerceLiteral none item type) =
          failure? (registry.coerceLiteral (some values) item type) :=
        fun item member => each item member fun name mentioned =>
          given name (List.mem_flatMap.mpr ⟨item, member, mentioned⟩)
      intro type
      rw [coerceLiteral, coerceLiteral]
      refine InputReader.failure?_list (fun item => ?_) type
      rw [failure?_map, failure?_map, coerceLiterals_eq, coerceLiterals_eq]
      exact InputReader.failure?_readItems alike 0 item
  | object fields each =>
      rw [Literal.variableNames, Literal.fieldVariables_eq] at given
      have givenAt : ∀ field ∈ fields, ∀ name ∈ field.2.variableNames, values.Gives name :=
        fun field member name mentioned =>
          given name (List.mem_flatMap.mpr ⟨field, member, mentioned⟩)
      have alike : ∀ field ∈ fields, ∀ type,
          failure? (registry.coerceLiteral none field.2 type) =
            failure? (registry.coerceLiteral (some values) field.2 type) :=
        fun field member => each field member (givenAt field member)
      intro type
      rw [coerceLiteral, coerceLiteral, InputReader.failure?_single, InputReader.failure?_single,
        literalReaders_eq fun field _ => isAbsent_none field.2,
        literalReaders_eq fun field member => isAbsent_of_gives (givenAt field member)]
      exact failure?_literalAtNamed
        (fun owner definitions => InputObject.failure?_read alike owner definitions _) _
  | _ =>
      intro type
      rfl

/-- What the dry run of a literal finds is what reading it with the variables of a request finds,
whatever the type and the scalars: an error of one is an error of the other, with the same message
and the same path. -/
theorem coerceLiteral_dryRun_error_iff (literal : Literal) (type : TypeRef)
    (given : ∀ name ∈ literal.variableNames, values.Gives name) (error : CoercionError) :
    registry.coerceLiteral none literal type = .error error ↔
      registry.coerceLiteral (some values) literal type = .error error := by
  rw [← failure?_eq_some, ← failure?_eq_some, failure?_dryRun literal given]

end Registry

namespace Ledger

/-! The account and one amount of an entry are variables; the other amount is no number. -/

def owed : Literal :=
  .object [("account", .variable "from"), ("amounts", .list [.variable "most", .string "much"]),
    ("kind", .enum "CREDIT")]

def given : Variables :=
  [("from", { value := .string "7", source := .explicit, type := .nonNull (.named "ID") }),
    ("most", { value := .int 3, source := .variableDefault, type := .named "Int" })]

private theorem owed_given : ∀ name ∈ owed.variableNames, given.Gives name := by
  intro name mentioned
  have isOne : name = "from" ∨ name = "most" := by
    simpa [owed, Literal.variableNames, Literal.itemVariables, Literal.fieldVariables]
      using mentioned
  rcases isOne with rfl | rfl
  · exact ⟨_, rfl, .named "ID", rfl⟩
  · exact ⟨_, rfl, .named "Int", rfl⟩

end Ledger

theorem Registry.coerceLiteral_dryRun_error_iff_of_ledger :
    Ledger.registry.coerceLiteral (some Ledger.given) Ledger.owed (.named "Entry") =
      .error
        ⟨"Expected value of type \"Int\", found \"much\"; Int cannot represent non-integer value: \"much\"",
          [.key "amounts", .index 1]⟩ :=
  (Registry.coerceLiteral_dryRun_error_iff Ledger.owed (.named "Entry") Ledger.owed_given _).mp rfl

end GraphQL
