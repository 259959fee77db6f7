import GraphQL.Coercion.Arguments
import GraphQL.Validation.Walk

/-!
Where the variables in a literal stand: the type that is expected of each there, and whether there
is a default in its place. References to types of one name expect the same.
-/

namespace GraphQL

/-- Induction over literals, with the items of a list and the fields of an object at hand. -/
theorem Literal.induct {motive : Literal → Prop} (mentioned : ∀ name, motive (.variable name))
    (int : ∀ value, motive (.int value)) (float : ∀ value, motive (.float value))
    (string : ∀ value, motive (.string value)) (boolean : ∀ value, motive (.boolean value))
    (null : motive .null) (enum : ∀ name, motive (.enum name))
    (list : ∀ items, (∀ item ∈ items, motive item) → motive (.list items))
    (object : ∀ fields, (∀ field ∈ fields, motive field.2) → motive (.object fields)) :
    ∀ literal, motive literal :=
  @Literal.rec motive (fun items => ∀ item ∈ items, motive item)
    (fun fields => ∀ field ∈ fields, motive field.2) (fun field => motive field.2) mentioned int
    float string boolean null enum list object (fun _ member => by cases member)
    (fun _ _ head tail => List.forall_mem_cons.mpr ⟨head, tail⟩) (fun _ member => by cases member)
    (fun _ _ head tail => List.forall_mem_cons.mpr ⟨head, tail⟩) (fun _ _ value => value)

theorem Literal.itemVariables_eq (items : List Literal) :
    itemVariables items = items.flatMap variableNames := by
  induction items with
  | nil => rfl
  | cons head tail induction => rw [itemVariables, induction, List.flatMap_cons]

theorem Literal.fieldVariables_eq (fields : List (String × Literal)) :
    fieldVariables fields = fields.flatMap fun field => variableNames field.2 := by
  induction fields with
  | nil => rfl
  | cons head tail induction => rw [fieldVariables, induction, List.flatMap_cons]

/-! ## References to types of one name -/

namespace TypeRef

/-- The reference with the name in the place of an instance. -/
def byName : TypeRef → TypeRef
  | .named name => .named name
  | .direct target => .named target.name
  | .deferred target => .named target.name
  | .list item => .list item.byName
  | .nonNull inner => .nonNull inner.byName

theorem byName_of_same {left right : TypeRef} (same : left.same right = true) :
    left.byName = right.byName := by
  induction left generalizing right with
  | list item induction =>
      cases right with
      | list other => exact congrArg list (induction same)
      | _ => cases same
  | nonNull inner induction =>
      cases right with
      | nonNull other => exact congrArg nonNull (induction same)
      | _ => cases same
  | _ =>
      cases right with
      | list | nonNull => cases same
      | _ => simpa [byName, TypeRef.same, typeName] using same

@[simp] theorem typeName_byName (type : TypeRef) : type.byName.typeName = type.typeName := by
  induction type <;> simp_all [byName, typeName]

@[simp] theorem text_byName (type : TypeRef) : type.byName.text = type.text := by
  induction type <;> simp_all [byName, text]

@[simp] theorem isNonNull_byName (type : TypeRef) : type.byName.isNonNull = type.isNonNull := by
  cases type <;> rfl

private theorem nullable_byName (type : TypeRef) : type.byName.nullable = type.nullable.byName := by
  cases type <;> rfl

private theorem listItem?_byName (type : TypeRef) :
    type.byName.listItem? = type.listItem?.map byName := by
  rw [listItem?, listItem?, nullable_byName]
  cases type.nullable <;> rfl

@[simp] theorem isList_byName (type : TypeRef) : type.byName.isList = type.isList := by
  rw [isList, isList, listItem?_byName, Option.isSome_map]

private theorem itemType_byName (type : TypeRef) :
    Walk.itemType type.byName = (Walk.itemType type).byName := by
  rw [Walk.itemType, Walk.itemType, listItem?_byName, nullable_byName]
  cases type.listItem? <;> rfl

/-- No non-null mark stands on a type that is non-null already. -/
def IsRegular : TypeRef → Prop
  | .nonNull inner => inner.isNonNull = false ∧ inner.IsRegular
  | .list item => item.IsRegular
  | _ => True

instance decidableIsRegular : (type : TypeRef) → Decidable type.IsRegular
  | .nonNull inner =>
      have := decidableIsRegular inner
      inferInstanceAs (Decidable (inner.isNonNull = false ∧ inner.IsRegular))
  | .list item => decidableIsRegular item
  | .named _ => .isTrue trivial
  | .direct _ => .isTrue trivial
  | .deferred _ => .isTrue trivial

end TypeRef

/-- Reading does not depend on how the types are referred to. -/
private theorem InputReader.throughWrappers_byName (isNull : Bool) {refusal : TypeRef → String}
    {items? : Option InputReader} {leaf : InputReader}
    (refuses : ∀ type : TypeRef, refusal type.byName = refusal type)
    (items : ∀ reader ∈ items?, ∀ type : TypeRef, reader type.byName = reader type)
    (leaves : ∀ type : TypeRef, leaf type.byName = leaf type) (type : TypeRef) :
    throughWrappers isNull refusal items? leaf type.byName =
      throughWrappers isNull refusal items? leaf type := by
  have bare (type : TypeRef) : (if isNull then .ok .null else leaf type.byName) =
      if isNull then .ok .null else leaf type := by rw [leaves]
  induction type with
  | nonNull inner induction =>
      have refused := refuses (.nonNull inner)
      simp only [TypeRef.byName, throughWrappers] at refused ⊢
      rw [refused, induction]
  | list item induction =>
      simp only [TypeRef.byName, throughWrappers]
      rw [induction]
      cases items? with
      | none => rfl
      | some reader => simp only [items reader rfl item]
  | named name => exact bare (.named name)
  | direct target => exact bare (.direct target)
  | deferred target => exact bare (.deferred target)

private theorem promoteVariable_byName (location : TypeRef) :
    promoteVariable location.byName = promoteVariable location := by
  induction location using promoteVariable.induct with
  | case1 item induction =>
      simp only [TypeRef.byName, promoteVariable]
      rw [induction]
  | case2 item induction =>
      simp only [TypeRef.byName, promoteVariable]
      rw [induction]
  | case3 type notList notNonNullList =>
      cases type with
      | list item => exact absurd rfl (notList item)
      | nonNull inner =>
          cases inner with
          | list item => exact absurd rfl (notNonNullList item)
          | _ => rfl
      | _ => rfl

namespace Registry

variable (registry : Registry)

@[simp] theorem resolve?_byName (type : TypeRef) :
    registry.resolve? type.byName = registry.resolve? type := by
  rw [resolve?, resolve?, TypeRef.typeName_byName]

private theorem literalAtNamed_byName (literal : Literal)
    (fields? : Option (List String × List (String × InputReader))) (type : TypeRef) :
    registry.literalAtNamed literal fields? type.byName =
      registry.literalAtNamed literal fields? type := by
  simp only [literalAtNamed, inputType, resolve?_byName, TypeRef.typeName_byName]

private theorem variableAt_byName (values? : Option Variables) (name : String) (type : TypeRef) :
    variableAt values? name type.byName = variableAt values? name type := by
  simp only [variableAt, promoteVariable_byName, TypeRef.isNonNull_byName, TypeRef.text_byName]

private theorem nullLiteralRefusal_byName (type : TypeRef) :
    nullLiteralRefusal type.byName = nullLiteralRefusal type := by
  unfold nullLiteralRefusal
  rw [TypeRef.text_byName]

private theorem coerceLiterals_byName {values? : Option Variables} {items : List Literal}
    (each : ∀ item ∈ items, ∀ type : TypeRef,
      registry.coerceLiteral values? item type.byName = registry.coerceLiteral values? item type)
    (index : Nat) (type : TypeRef) :
    registry.coerceLiterals values? items index type.byName =
      registry.coerceLiterals values? items index type := by
  induction items generalizing index with
  | nil => simp only [coerceLiterals]
  | cons head tail induction =>
      rw [coerceLiterals, coerceLiterals, each head List.mem_cons_self,
        induction fun item member => each item (List.mem_cons_of_mem head member)]

theorem coerceLiteral_byName (values? : Option Variables) (literal : Literal) :
    ∀ type : TypeRef, registry.coerceLiteral values? literal type.byName =
      registry.coerceLiteral values? literal type := by
  have noItems (reader : InputReader) (member : reader ∈ (none : Option InputReader)) :
      ∀ type : TypeRef, reader type.byName = reader type := by cases member
  induction literal using Literal.induct with
  | mentioned name =>
      simp only [coerceLiteral]
      exact variableAt_byName values? name
  | null =>
      simp only [coerceLiteral]
      exact InputReader.throughWrappers_byName true nullLiteralRefusal_byName noItems fun _ => rfl
  | list items each =>
      simp only [coerceLiteral]
      refine InputReader.throughWrappers_byName false nullLiteralRefusal_byName ?_
        (registry.literalAtNamed_byName _ _)
      intro reader isReader type
      rw [← Option.some.inj isReader]
      exact congrArg (Except.map Json.array) (registry.coerceLiterals_byName each 0 type)
  | object | int | float | string | boolean | enum =>
      simp only [coerceLiteral]
      exact InputReader.throughWrappers_byName false nullLiteralRefusal_byName noItems
        (registry.literalAtNamed_byName _ _)

end Registry

/-! ## Sites -/

/-- A place for an input: the type that is expected there, and whether there is a default. -/
structure InputSite where
  type : TypeRef
  hasDefault : Bool

def InputValueDefinition.site (definition : InputValueDefinition) : InputSite :=
  ⟨definition.type, definition.default.isSome⟩

/-- A variable that a literal mentions, and the site where it stands, for a literal at some site.
Items of a list have no defaults. -/
inductive Registry.Mentions (registry : Registry) :
    InputSite → Literal → String → InputSite → Prop
  | here {site : InputSite} {name : String} :
      Mentions registry site (.variable name) name site
  | item {site inner : InputSite} {items : List Literal} {item : Literal} {name : String}
      (member : item ∈ items)
      (inside : Mentions registry ⟨Walk.itemType site.type, false⟩ item name inner) :
      Mentions registry site (.list items) name inner
  | field {site inner : InputSite} {fields : List (String × Literal)}
      {field : String × Literal} {type : NamedType} {definitions : List InputValueDefinition}
      {definition : InputValueDefinition} {name : String} (member : field ∈ fields)
      (isType : registry.resolve? site.type = some type)
      (isDefined : type.inputFields? = some definitions)
      (found : Named.find? definitions field.1 = some definition)
      (inside : Mentions registry definition.site field.2 name inner) :
      Mentions registry site (.object fields) name inner

/-- Sites that expect types of one name; where the second requires a value or has a default in its
place, so has the first. -/
structure InputSite.Covers (site other : InputSite) : Prop where
  sameType : site.type.byName = other.type.byName
  default : other.type.isNonNull = true → other.hasDefault = true → site.hasDefault = true

theorem Registry.Mentions.covered {registry : Registry} {site other inner : InputSite}
    {literal : Literal} {name : String} (covers : site.Covers other)
    (mentions : registry.Mentions site literal name inner) :
    ∃ otherInner, registry.Mentions other literal name otherInner ∧ inner.Covers otherInner := by
  induction mentions generalizing other with
  | here => exact ⟨other, .here, covers⟩
  | @item site inner items item name member inside induction =>
      have coversItem : InputSite.Covers ⟨Walk.itemType site.type, false⟩
          ⟨Walk.itemType other.type, false⟩ :=
        ⟨by rw [← TypeRef.itemType_byName, covers.sameType, TypeRef.itemType_byName],
          fun _ impossible => by cases impossible⟩
      rcases induction coversItem with ⟨otherInner, mentions, coversInner⟩
      exact ⟨otherInner, .item member mentions, coversInner⟩
  | @field site inner fields field type definitions definition name member isType isDefined found
      inside induction =>
      have isOtherType : registry.resolve? other.type = some type := by
        rw [← registry.resolve?_byName, ← covers.sameType, registry.resolve?_byName, isType]
      rcases induction ⟨rfl, fun _ hasDefault => hasDefault⟩ with
        ⟨otherInner, mentions, coversInner⟩
      exact ⟨otherInner, .field member isOtherType isDefined found mentions, coversInner⟩

/-! ## Sites in the walk -/

namespace Walk

variable {registry : Registry} {scope : Scope}

theorem value_subset_values {items : List Literal} {item : Literal} (member : item ∈ items) :
    value registry scope item ⊆ values registry scope items := by
  induction items with
  | nil => cases member
  | cons head tail induction =>
      rw [values]
      rcases List.mem_cons.mp member with equal | later
      · rw [equal]
        exact List.subset_append_left _ _
      · exact List.Subset.trans (induction later) (List.subset_append_right _ _)

theorem value_subset_fieldValues {definitions : Option (List InputValueDefinition)}
    {fields : List (String × Literal)} {field : String × Literal} (member : field ∈ fields) :
    value registry
        (inputScope scope (definitions.bind fun known => Named.find? known field.1)) field.2 ⊆
      fieldValues registry scope definitions fields := by
  induction fields with
  | nil => cases member
  | cons head tail induction =>
      rw [fieldValues]
      rcases List.mem_cons.mp member with equal | later
      · rw [equal]
        exact List.subset_append_left _ _
      · exact List.Subset.trans (induction later) (List.subset_append_right _ _)

/-- A scope in which a value is expected at a site. -/
structure At (scope : Scope) (site : InputSite) : Prop where
  type : scope.inputType = some site.type
  default : (scope.input.any fun definition => definition.default.isSome) = site.hasDefault

private theorem at_inputScope (scope : Scope) (definition : InputValueDefinition) :
    At (inputScope scope (some definition)) definition.site := ⟨rfl, rfl⟩

/-- The walk comes by every variable that is mentioned, where it is mentioned. -/
theorem visits_mentioned {site inner : InputSite} {literal : Literal} {name : String}
    (mentions : registry.Mentions site literal name inner) (isAt : At scope site) :
    ∃ innerScope, At innerScope inner ∧
      ⟨innerScope, .value (.variable name)⟩ ∈ value registry scope literal := by
  induction mentions generalizing scope with
  | here => exact ⟨scope, isAt, List.mem_singleton_self _⟩
  | @item site inner items item name member inside induction =>
      have isAtItem : At { scope with inputType := scope.inputType.map itemType, input := none }
          ⟨itemType site.type, false⟩ := ⟨by rw [isAt.type]; rfl, rfl⟩
      rcases induction isAtItem with ⟨innerScope, isAtInner, visited⟩
      exact ⟨innerScope, isAtInner, List.mem_cons_of_mem _ (value_subset_values member visited)⟩
  | @field site inner fields field type definitions definition name member isType isDefined found
      inside induction =>
      rcases induction (at_inputScope scope definition) with ⟨innerScope, isAtInner, visited⟩
      have known : (scope.inputType.bind registry.resolve?).bind NamedType.inputFields? =
          some definitions := by
        rw [isAt.type, Option.bind_some, isType, Option.bind_some, isDefined]
      refine ⟨innerScope, isAtInner, List.mem_cons_of_mem _ ?_⟩
      apply value_subset_fieldValues member
      rw [known, Option.bind_some, found]
      exact visited

end Walk

/-- An object value has fields of different names. -/
def Visit.namesDistinct : Visit → Bool
  | .value (.object fields) => decide (Named.names fields).Nodup
  | _ => true

end GraphQL
