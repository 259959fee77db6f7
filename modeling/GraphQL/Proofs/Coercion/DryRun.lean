import GraphQL.Proofs.Coercion.Sites
import GraphQL.Proofs.Fallible
import GraphQL.Proofs.Named

/-!
What a dry run is good for: a literal that reads at a type with every variable taken for null also
reads with the variables of a request, if those have values wherever one is required.
-/

namespace GraphQL

namespace InputReader

def Reads (reader : InputReader) (type : TypeRef) : Prop := ∃ value, reader type = .ok value

variable {refusal : TypeRef → String} {leaf : InputReader} {type : TypeRef}

/-- What is not a list is read at the type inside all wrappers. -/
theorem reads_single :
    (throughWrappers false refusal none leaf).Reads type ↔ leaf.Reads type.innermost := by
  induction type with
  | nonNull inner induction => exact induction
  | list item induction =>
      rw [TypeRef.innermost, ← induction]
      have single : (throughWrappers false refusal none leaf).Reads (.list item) ↔
          ∃ value, (throughWrappers false refusal none leaf item).map
            (fun value => Json.array [value]) = .ok value := Iff.rfl
      rw [single, exists_ok_map]
      rfl
  | named | direct | deferred => exact Iff.rfl

private theorem reads_list {first second : InputReader} (regular : type.IsRegular)
    (items : ∀ item, type.listItem? = some item → first.Reads item → second.Reads item)
    (reads : (throughWrappers false refusal (some first) leaf).Reads type) :
    (throughWrappers false refusal (some second) leaf).Reads type := by
  have atList (item : TypeRef) (isItem : type.listItem? = some item)
      (reads : (throughWrappers false refusal (some first) leaf).Reads (.list item)) :
      (throughWrappers false refusal (some second) leaf).Reads (.list item) :=
    items item isItem reads
  cases type with
  | list item => exact atList item rfl reads
  | nonNull inner =>
      cases inner with
      | list item => exact atList item rfl reads
      | nonNull inner => cases regular.1
      | named | direct | deferred => exact reads
  | named | direct | deferred => exact reads

end InputReader

/-- Read the items of a list at one type, counting from an index. -/
def InputReader.readItems : List InputReader → Nat → TypeRef → Except CoercionError (List Json)
  | [], _, _ => .ok []
  | reader :: readers, index, type => do
      let value ← InputReader.under (.index index) (reader type)
      let values ← readItems readers (index + 1) type
      return value :: values

namespace InputReader

theorem readItems_reads {readers : List InputReader} {type : TypeRef} (index : Nat) :
    (∃ values, readItems readers index type = .ok values) ↔
      ∀ reader ∈ readers, reader.Reads type := by
  induction readers generalizing index with
  | nil => simp [readItems]
  | cons head tail induction =>
      rw [List.forall_mem_cons, ← induction (index + 1), readItems]
      exact exists_ok_both.trans (and_congr_left' exists_ok_mapError)

/-- A list fails as the first of its items that does. -/
theorem readItems_eq_error {readers : List InputReader} {index : Nat} {type : TypeRef}
    {error : CoercionError} (failed : readItems readers index type = .error error) :
    ∃ earlier reader later inner, readers = earlier ++ reader :: later ∧
      reader type = .error inner ∧ error = inner.under (.index (index + earlier.length)) ∧
      ∀ other ∈ earlier, other.Reads type := by
  induction readers generalizing index with
  | nil => cases failed
  | cons head tail induction =>
      rcases bind_eq_error failed with first | ⟨value, isValue, rest⟩
      · rcases mapError_eq_error first with ⟨inner, atHead, rfl⟩
        exact ⟨[], head, tail, inner, rfl, atHead, rfl, List.forall_mem_nil _⟩
      · rcases bind_eq_error rest with rest | ⟨_, _, rest⟩
        · rcases induction rest with ⟨earlier, reader, later, inner, rfl, atItem, rfl, passed⟩
          refine ⟨head :: earlier, reader, later, inner, rfl, atItem, ?_, ?_⟩
          · rw [List.length_cons, Nat.add_assoc, Nat.add_comm 1]
          · exact List.forall_mem_cons.mpr ⟨⟨value, mapError_eq_ok.mp isValue⟩, passed⟩
        · cases rest

end InputReader

/-! ## Types and items -/

namespace Registry

variable {registry : Registry} {values? : Option Variables}

theorem resolve?_innermost (registry : Registry) (type : TypeRef) :
    registry.resolve? type.innermost = registry.resolve? type := by
  rw [resolve?, resolve?, TypeRef.typeName_innermost]

theorem inputType_eq_ok {type : TypeRef} {named : NamedType} :
    registry.inputType type = .ok named ↔
      registry.resolve? type = some named ∧ named.isInput = true := by
  rw [inputType]
  split
  · rename_i other resolved
    rw [resolved, Option.some.injEq]
    split
    · rename_i isInput
      rw [Except.ok.injEq]
      exact ⟨fun equal => ⟨equal, equal ▸ isInput⟩, And.left⟩
    · rename_i notInput
      simp only [reduceCtorEq, false_iff]
      rintro ⟨equal, isInput⟩
      exact absurd (equal ▸ isInput) notInput
  · rename_i unresolved
    simp only [unresolved, reduceCtorEq, false_and]

theorem coerceLiterals_eq (items : List Literal) (index : Nat) (type : TypeRef) :
    registry.coerceLiterals values? items index type =
      InputReader.readItems (items.map (registry.coerceLiteral values?)) index type := by
  induction items generalizing index with
  | nil => rfl
  | cons head tail induction =>
      rw [coerceLiterals, induction]
      rfl

end Registry

/-! ## Variables that are read -/

/-- Promotion neither makes a value null nor a null value another. -/
theorem isNull_promoteVariable (location variableType : TypeRef) (value : Json) :
    (promoteVariable location variableType value).isNull = value.isNull := by
  have into (promoteItem : TypeRef → Json → Json) :
      (promoteIntoList promoteItem variableType value).isNull = value.isNull := by
    rw [promoteIntoList]
    split
    · rfl
    · rename_i notNull
      rw [Bool.not_eq_true] at notNull
      split
      · split
        · rfl
        · rfl
      · exact notNull.symm
  cases location with
  | list item => exact into _
  | nonNull inner =>
      cases inner with
      | list item => exact into _
      | named | direct | deferred | nonNull => rfl
  | named | direct | deferred => rfl

/-- A variable has what its site asks of it: at a site that requires a value it has one that is not
null, or it is absent and there is a default in its place. -/
def Variables.Serves (values : Variables) (name : String) (site : InputSite) : Prop :=
  site.type.isNonNull = true →
    (∃ entry, values.get? name = some entry ∧ entry.value.isNull = false) ∨
      (values.get? name = none ∧ site.hasDefault = true)

variable {registry : Registry} {values : Variables}

private theorem reads_variable {name : String} {site : InputSite} (serves : values.Serves name site)
    (present : (Literal.variable name).isAbsent (some values) = false ∨
      site.type.isNonNull = false) :
    (Registry.variableAt (some values) name).Reads site.type := by
  rw [InputReader.Reads]
  cases required : site.type.isNonNull with
  | false => simp [Registry.variableAt, required]
  | true =>
      rcases serves required with ⟨entry, isEntry, notNull⟩ | ⟨absent, _⟩
      · simp [Registry.variableAt, isEntry, isNull_promoteVariable, notNull]
      · simp [Literal.isAbsent, absent, required] at present

private theorem present_of_serves {literal : Literal} {site : InputSite}
    (noDefault : site.hasDefault = false)
    (serves : ∀ name inner, registry.Mentions site literal name inner → values.Serves name inner) :
    literal.isAbsent (some values) = false ∨ site.type.isNonNull = false := by
  induction literal using Literal.induct with
  | mentioned name =>
      cases required : site.type.isNonNull with
      | false => exact .inr rfl
      | true =>
          rcases serves name site .here required with ⟨entry, isEntry, _⟩ | ⟨_, hasDefault⟩
          · exact .inl (by simp [Literal.isAbsent, isEntry])
          · rw [noDefault] at hasDefault
            cases hasDefault
  | _ => exact .inl rfl

/-! ## Objects -/

private theorem absentEntry_reads (owner : String) (definition : InputValueDefinition) :
    (∃ entry, definition.absentEntry owner = .ok entry) ↔ definition.isRequired = false := by
  rw [InputValueDefinition.absentEntry, InputValueDefinition.isRequired]
  cases definition.default with
  | some value => simp
  | none => cases definition.type.isNonNull <;> simp

namespace InputObject

/-- What one definition gets to read: a value if there is one, else nothing, if that will do. -/
def Finds (given : List (String × InputReader)) (definition : InputValueDefinition) : Prop :=
  match Named.value? given definition.name with
  | some reader => reader.Reads definition.type
  | none => definition.isRequired = false

/-- The entry of one definition. -/
def entry (owner : String) (given : List (String × InputReader))
    (definition : InputValueDefinition) : Except CoercionError (List (String × Json)) :=
  match Named.value? given definition.name with
  | some reader => do
      let value ← InputReader.under (.key definition.name) (reader definition.type)
      .ok [(definition.name, value)]
  | none => definition.absentEntry owner

theorem entries_cons (owner : String) (given : List (String × InputReader))
    (definition : InputValueDefinition) (definitions : List InputValueDefinition) :
    entries owner given (definition :: definitions) = (do
      let first ← entry owner given definition
      let rest ← entries owner given definitions
      return first ++ rest) := by
  rw [entries, entry]
  cases Named.value? given definition.name with
  | none => rfl
  | some reader =>
      dsimp only
      cases InputReader.under (.key definition.name) (reader definition.type) <;> rfl

private theorem entry_reads (owner : String) {given : List (String × InputReader)}
    {definition : InputValueDefinition} :
    (∃ fields, entry owner given definition = .ok fields) ↔ Finds given definition := by
  rw [entry, Finds]
  cases Named.value? given definition.name with
  | none => exact absentEntry_reads owner definition
  | some reader => exact exists_ok_map.trans exists_ok_mapError

private theorem entries_read (owner : String) {given : List (String × InputReader)}
    {definitions : List InputValueDefinition} :
    (∃ fields, entries owner given definitions = .ok fields) ↔
      ∀ definition ∈ definitions, Finds given definition := by
  induction definitions with
  | nil => simp [entries]
  | cons definition definitions induction =>
      rw [List.forall_mem_cons, ← induction, ← entry_reads owner, entries_cons]
      exact exists_ok_both

/-- An object fails as the first of its entries that does. -/
theorem entries_eq_error {owner : String} {given : List (String × InputReader)}
    {definitions : List InputValueDefinition} {error : CoercionError}
    (failed : entries owner given definitions = .error error) :
    ∃ earlier definition later, definitions = earlier ++ definition :: later ∧
      entry owner given definition = .error error ∧ ∀ other ∈ earlier, Finds given other := by
  induction definitions with
  | nil => cases failed
  | cons head tail induction =>
      rw [entries_cons] at failed
      rcases bind_eq_error failed with first | ⟨fields, isEntry, rest⟩
      · exact ⟨[], head, tail, rfl, first, List.forall_mem_nil _⟩
      · rcases bind_eq_error rest with rest | ⟨_, _, rest⟩
        · rcases induction rest with ⟨earlier, definition, later, rfl, atEntry, passed⟩
          have found := (entry_reads owner).mp ⟨fields, isEntry⟩
          exact ⟨head :: earlier, definition, later, rfl, atEntry,
            List.forall_mem_cons.mpr ⟨found, passed⟩⟩
        · cases rest

theorem unknownField?_eq_none {definitions : List InputValueDefinition} {names : List String} :
    unknownField? definitions names = none ↔
      ∀ name ∈ names, Named.contains definitions name = true := by
  simp [unknownField?]

/-- Without unknown fields an object is its entries. -/
theorem read_known {definitions : List InputValueDefinition} {names : List String}
    (known : ∀ name ∈ names, Named.contains definitions name = true) (owner : String)
    (given : List (String × InputReader)) :
    read owner definitions names given = (entries owner given definitions).map .object := by
  rw [read, unknownField?_eq_none.mpr known]
  cases entries owner given definitions <;> rfl

theorem read_reads {owner : String} {definitions : List InputValueDefinition}
    {names : List String} {given : List (String × InputReader)} :
    (∃ value, read owner definitions names given = .ok value) ↔
      unknownField? definitions names = none ∧
        ∀ definition ∈ definitions, Finds given definition := by
  rw [read, ← entries_read owner]
  cases unknownField? definitions names with
  | some name => simp
  | none =>
      refine exists_ok_bind.trans ?_
      simp [pure, Except.pure]

end InputObject

/-- With different names a field is there for the object unless it is absent. -/
theorem value?_literalReaders {values? : Option Variables} {fields : List (String × Literal)}
    (distinct : (Named.names fields).Nodup) (name : String) :
    Named.value? (registry.literalReaders values? fields) name =
      ((Named.value? fields name).filter fun literal => !literal.isAbsent values?).map
        (registry.coerceLiteral values?) := by
  induction fields with
  | nil => rfl
  | cons head tail induction =>
      rcases head with ⟨key, literal⟩
      have apart := List.nodup_cons.mp distinct
      have later := induction apart.2
      rw [Registry.literalReaders, Named.value?_cons]
      by_cases same : key = name
      · subst same
        have notLater : Named.value? tail key = none := Named.value?_eq_none.mpr apart.1
        rw [notLater] at later
        cases absent : literal.isAbsent values? with
        | true => simpa [absent, Option.filter] using later
        | false => simp [absent, Option.filter, Named.value?_cons]
      · cases absent : literal.isAbsent values? with
        | true => simpa [same] using later
        | false => simpa [same, Named.value?_cons] using later

theorem isAbsent_none (literal : Literal) : literal.isAbsent none = false := by
  cases literal <;> rfl

/-- What a definition finds in a dry run it also finds with the variables. -/
private theorem finds_of_dryRun {fields : List (String × Literal)}
    {definition : InputValueDefinition} (distinct : (Named.names fields).Nodup)
    (dry : InputObject.Finds (registry.literalReaders none fields) definition)
    (each : ∀ literal, Named.value? fields definition.name = some literal →
      (registry.coerceLiteral none literal).Reads definition.type →
      if literal.isAbsent (some values) then definition.isRequired = false
      else (registry.coerceLiteral (some values) literal).Reads definition.type) :
    InputObject.Finds (registry.literalReaders (some values) fields) definition := by
  rw [InputObject.Finds, value?_literalReaders distinct] at dry ⊢
  cases found : Named.value? fields definition.name with
  | none => simpa [found] using dry
  | some literal =>
      have reads := each literal found (by simpa [found, Option.filter, isAbsent_none] using dry)
      cases absent : literal.isAbsent (some values) with
      | true => simpa [Option.filter, absent] using reads
      | false => simpa [Option.filter, absent] using reads

/-- A literal object that reads at a type without wrappers also reads with other readers, if every
definition of an input object that finds something still does. -/
private theorem reads_object {literal : Literal} {names : List String}
    {first second : List (String × InputReader)} {type : TypeRef}
    (finds : ∀ named definitions, registry.resolve? type = some named →
      named.inputFields? = some definitions → ∀ definition ∈ definitions,
      InputObject.Finds first definition → InputObject.Finds second definition)
    (reads : InputReader.Reads (registry.literalAtNamed literal (some (names, first))) type) :
    InputReader.Reads (registry.literalAtNamed literal (some (names, second))) type := by
  rw [InputReader.Reads, Registry.literalAtNamed, exists_ok_bind] at reads ⊢
  rcases reads with ⟨named, isInput, reads⟩
  refine ⟨named, isInput, ?_⟩
  cases shape : named.shape with
  | inputObject definitions =>
      simp only [shape, InputObject.read_reads] at reads ⊢
      have resolved := (Registry.inputType_eq_ok.mp isInput).1
      have isFields : named.inputFields? = some definitions := by
        rw [NamedType.inputFields?, shape]
      exact ⟨reads.1, fun definition member =>
        finds named definitions resolved isFields definition member (reads.2 definition member)⟩
  | _ => simpa only [shape] using reads

/-! ## Lists -/

private theorem coerceLiterals_reads {values? : Option Variables} {items : List Literal}
    {type : TypeRef} (index : Nat) :
    (∃ read, registry.coerceLiterals values? items index type = .ok read) ↔
      ∀ item ∈ items, (registry.coerceLiteral values? item).Reads type := by
  rw [Registry.coerceLiterals_eq, InputReader.readItems_reads, List.forall_mem_map]

/-! ## Literals -/

/-- Definitions of different names, whose types have no doubled marks. -/
def InputValueDefinition.Proper (definitions : List InputValueDefinition) : Prop :=
  (Named.names definitions).Nodup ∧ ∀ definition ∈ definitions, definition.type.IsRegular

instance (definitions : List InputValueDefinition) :
    Decidable (InputValueDefinition.Proper definitions) :=
  inferInstanceAs (Decidable (_ ∧ _))

/-- The fields of input objects and the arguments of fields are proper definitions. -/
def Registry.ProperInputs (registry : Registry) : Prop :=
  ∀ type ∈ registry.types,
    (∀ definitions ∈ type.inputFields?, InputValueDefinition.Proper definitions) ∧
      ∀ fields ∈ type.fields?, ∀ field ∈ fields, InputValueDefinition.Proper field.arguments

instance (registry : Registry) : Decidable registry.ProperInputs :=
  inferInstanceAs (Decidable (∀ type ∈ registry.types,
    (∀ definitions ∈ type.inputFields?, InputValueDefinition.Proper definitions) ∧
      ∀ fields ∈ type.fields?, ∀ field ∈ fields, InputValueDefinition.Proper field.arguments))

theorem Registry.ProperInputs.field (proper : registry.ProperInputs) {type : NamedType}
    (listed : type ∈ registry.types) {name : String} {definition : FieldDefinition}
    (isField : registry.field? type name = some definition) :
    InputValueDefinition.Proper definition.arguments := by
  rw [Registry.field?] at isField
  split at isField
  · cases isField
    decide
  · split at isField
    · cases isField
      decide
    · split at isField
      · cases isField
        decide
      · rcases Option.bind_eq_some_iff.mp isField with ⟨fields, isFields, found⟩
        exact (proper type listed).2 fields isFields definition (Named.find?_mem found).1

/-- A literal whose objects have fields of different names, at a site where the variables have what
is asked of them. -/
structure Registry.Supplied (registry : Registry) (values : Variables) (site : InputSite)
    (literal : Literal) : Prop where
  regular : site.type.IsRegular
  distinct : ∃ scope, ∀ visit ∈ Walk.value registry scope literal, visit.visit.namesDistinct = true
  served : ∀ name inner, registry.Mentions site literal name inner → values.Serves name inner

namespace Registry.Supplied

variable {site : InputSite} {items : List Literal} {fields : List (String × Literal)}

private theorem item (supplied : registry.Supplied values site (.list items)) {item : Literal}
    (member : item ∈ items) :
    registry.Supplied values ⟨Walk.itemType site.type, false⟩ item := by
  rcases supplied.distinct with ⟨scope, distinct⟩
  have regular : (Walk.itemType site.type).IsRegular := by
    have ofSite := supplied.regular
    rw [Walk.itemType, TypeRef.listItem?]
    cases type : site.type with
    | nonNull inner =>
        rw [type] at ofSite
        cases inner with
        | list item => exact ofSite.2
        | _ => exact ofSite.2
    | list item =>
        rw [type] at ofSite
        exact ofSite
    | _ => trivial
  exact
    { regular := regular
      distinct := ⟨_, fun visit visited => distinct visit
        (List.mem_cons_of_mem _ (Walk.value_subset_values member visited))⟩
      served := fun name inner inside => supplied.served name inner (.item member inside) }

private theorem field (proper : registry.ProperInputs)
    (supplied : registry.Supplied values site (.object fields))
    {field : String × Literal} (member : field ∈ fields) {type : NamedType}
    {definitions : List InputValueDefinition} {definition : InputValueDefinition}
    (isType : registry.resolve? site.type = some type)
    (isDefined : type.inputFields? = some definitions)
    (found : Named.find? definitions field.1 = some definition) :
    registry.Supplied values definition.site field.2 := by
  rcases supplied.distinct with ⟨scope, distinct⟩
  have defined := (proper type (Named.find?_mem isType).1).1 definitions isDefined
  exact
    { regular := defined.2 definition (Named.find?_mem found).1
      distinct := ⟨_, fun visit visited => distinct visit
        (List.mem_cons_of_mem _ (Walk.value_subset_fieldValues member visited))⟩
      served := fun name inner inside =>
        supplied.served name inner (.field member isType isDefined found inside) }

private theorem names_distinct (supplied : registry.Supplied values site (.object fields)) :
    (Named.names fields).Nodup := by
  rcases supplied.distinct with ⟨scope, distinct⟩
  exact of_decide_eq_true (distinct ⟨scope, .value (.object fields)⟩ List.mem_cons_self)

private theorem not_required {definition : InputValueDefinition} {literal : Literal}
    (supplied : registry.Supplied values definition.site literal)
    (absent : literal.isAbsent (some values) = true) : definition.isRequired = false := by
  induction literal using Literal.induct with
  | mentioned name =>
      rw [InputValueDefinition.isRequired]
      cases required : definition.type.isNonNull with
      | false => rfl
      | true =>
          rcases supplied.served name _ .here required with ⟨entry, isEntry, _⟩ | ⟨_, hasDefault⟩
          · simp [Literal.isAbsent, isEntry] at absent
          · simpa [InputValueDefinition.site, Option.isSome_iff_ne_none] using hasDefault
  | _ => cases absent

end Registry.Supplied

/-- A literal that reads in a dry run also reads with the variables, unless it is a variable that
is absent where a value is required. -/
private theorem reads_of_dryRun (proper : registry.ProperInputs) (literal : Literal) :
    ∀ site : InputSite, registry.Supplied values site literal →
      (literal.isAbsent (some values) = false ∨ site.type.isNonNull = false) →
      (registry.coerceLiteral none literal).Reads site.type →
      (registry.coerceLiteral (some values) literal).Reads site.type := by
  induction literal using Literal.induct with
  | mentioned name =>
      intro site supplied present _
      exact reads_variable (supplied.served name site .here) present
  | list items each =>
      intro site supplied _ dry
      refine InputReader.reads_list supplied.regular ?_ dry
      intro itemType isItem readsItems
      have isItemType : Walk.itemType site.type = itemType := by
        rw [Walk.itemType, isItem, Option.getD_some]
      have dryItems := (coerceLiterals_reads 0).mp (exists_ok_map.mp readsItems)
      refine exists_ok_map.mpr ((coerceLiterals_reads 0).mpr fun item member => ?_)
      have inside := isItemType ▸ supplied.item member
      exact each item member _ inside (present_of_serves rfl inside.served) (dryItems item member)
  | object fields each =>
      intro site supplied _ dry
      refine InputReader.reads_single.mpr (reads_object ?_ (InputReader.reads_single.mp dry))
      intro named definitions resolved isFields definition defined finds
      have isType : registry.resolve? site.type = some named := by
        rwa [Registry.resolve?_innermost] at resolved
      have defines := (proper named (Named.find?_mem isType).1).1 definitions isFields
      have found : Named.find? definitions definition.name = some definition :=
        Named.find?_of_mem defines.1 defined
      refine finds_of_dryRun supplied.names_distinct finds fun literal written dryField => ?_
      have member := Named.value?_mem written
      have inside := supplied.field proper member isType isFields found
      cases absent : literal.isAbsent (some values) with
      | true => exact inside.not_required absent
      | false => exact each _ member definition.site inside (.inl absent) dryField
  | _ =>
      intro site _ _ dry
      exact dry

/-! ## Arguments -/

namespace InputValueDefinition

variable {written : ArgumentList} {definition : InputValueDefinition}

/-- The dry run of one argument: what is written for it reads, and it is written if required. -/
def Passes (registry : Registry) (written : ArgumentList) (definition : InputValueDefinition) :
    Prop :=
  match Named.value? written definition.name with
  | some literal => (registry.coerceLiteral none literal).Reads definition.type
  | none => definition.isRequired = false

theorem absentArgument_reads :
    (∃ entry, definition.absentArgument = .ok entry) ↔ definition.isRequired = false := by
  rw [absentArgument, isRequired]
  cases definition.default with
  | some value => simp
  | none => cases definition.type.isNonNull <;> simp

private theorem argumentEntry_reads (proper : registry.ProperInputs)
    (passes : definition.Passes registry written)
    (supplied : ∀ literal, Named.value? written definition.name = some literal →
      registry.Supplied values definition.site literal) :
    ∃ entry, definition.argumentEntry registry written values = .ok entry := by
  rw [Passes] at passes
  rw [argumentEntry]
  cases found : Named.value? written definition.name with
  | none =>
      rw [found] at passes
      exact absentArgument_reads.mpr passes
  | some literal =>
      rw [found] at passes
      have isSupplied := supplied literal found
      cases absent : literal.isAbsent (some values) with
      | true =>
          simpa [Option.filter, absent] using
            absentArgument_reads.mpr (isSupplied.not_required absent)
      | false =>
          rcases reads_of_dryRun proper literal definition.site isSupplied (.inl absent) passes with
            ⟨value, isRead⟩
          have isRead : registry.coerceLiteral (some values) literal definition.type = .ok value :=
            isRead
          simp [Option.filter, absent, isRead]

end InputValueDefinition

/-- Arguments that pass a dry run are coerced if their variables have what is asked of them. -/
theorem coerceArguments_of_dryRun (proper : registry.ProperInputs) {written : ArgumentList}
    {definitions : List InputValueDefinition}
    (passes : ∀ definition ∈ definitions, definition.Passes registry written)
    (supplied : ∀ definition ∈ definitions, ∀ literal,
      Named.value? written definition.name = some literal →
      registry.Supplied values definition.site literal) :
    ∃ arguments, registry.coerceArguments written values definitions = .ok arguments := by
  induction definitions with
  | nil => exact ⟨[], rfl⟩
  | cons definition definitions induction =>
      rw [Registry.coerceArguments]
      refine exists_ok_both.mpr ⟨?_, ?_⟩
      · exact InputValueDefinition.argumentEntry_reads proper (passes _ List.mem_cons_self)
          (supplied _ List.mem_cons_self)
      · exact induction (fun other member => passes other (List.mem_cons_of_mem _ member))
          fun other member => supplied other (List.mem_cons_of_mem _ member)

end GraphQL
