import GraphQL.Proofs.Coercion.Conformance
import GraphQL.Proofs.Coercion.Inline
import GraphQL.Proofs.Schema.Possible

/-!
The value of a variable, promoted into the lists of a position, beside what its raw value coerces to
there. The two are the same up to null: promotion hands on the nulls in the lists of a variable, and
a position may refuse them.
-/

namespace GraphQL

variable {registry : Registry} {location variableType : TypeRef}

theorem promoteVariable_of_bare {value : Json} (bare : location.nullable.isBare = true) :
    promoteVariable location variableType value = value := by
  cases location with
  | nonNull inner =>
      cases inner with
      | list | nonNull => cases bare
      | named | direct | deferred => rfl
  | list => cases bare
  | named | direct | deferred => rfl

private theorem promoteVariable_of_list {item : TypeRef} (isList : location.nullable = .list item) :
    promoteVariable location = promoteIntoList (promoteVariable item) := by
  cases location with
  | nonNull inner =>
      cases isList
      rfl
  | list item =>
      cases isList
      rfl
  | named | direct | deferred => cases isList

/-- The items of a list are promoted one by one where there are lists on both sides. -/
private theorem promoteVariable_array {item variableItem : TypeRef} {values : List Json}
    (isList : location.nullable = .list item)
    (ofLists : variableType.nullable = .list variableItem) :
    promoteVariable location variableType (.array values) =
      .array (values.map (promoteVariable item variableItem)) := by
  rw [promoteVariable_of_list isList, promoteIntoList, ofLists]
  rfl

private theorem promoteVariable_single {item : TypeRef} {value : Json}
    (isList : location.nullable = .list item) (isBare : variableType.nullable.isBare = true)
    (notNull : value.isNull = false) :
    promoteVariable location variableType value =
      .array [promoteVariable item variableType value] := by
  rw [promoteVariable_of_list isList, promoteIntoList, notNull, if_neg Bool.false_ne_true]
  split
  · rename_i ofLists
    rw [ofLists] at isBare
    cases isBare
  · rfl

/-! ## Where a variable fits -/

namespace TypeRef

/-- A variable type fits a location: it has the lists of the location from the inside, or fewer, and
the location refuses null only where the variable does, as far as the variable has no lists left. -/
inductive Fits : (location variableType : TypeRef) → Prop
  | leaf {location variableType : TypeRef} (isLeaf : location.nullable.isBare = true)
      (isBare : variableType.nullable.isBare = true)
      (sameName : variableType.typeName = location.typeName)
      (required : location.isNonNull = true → variableType.isNonNull = true) :
      Fits location variableType
  | items {location variableType item variableItem : TypeRef}
      (isList : location.nullable = .list item)
      (ofLists : variableType.nullable = .list variableItem) (each : Fits item variableItem) :
      Fits location variableType
  | wrapped {location variableType item : TypeRef} (isList : location.nullable = .list item)
      (isBare : variableType.nullable.isBare = true) (inside : Fits item variableType) :
      Fits location variableType

private theorem IsRegular.nullable_cases {type : TypeRef} (regular : type.IsRegular) :
    (∃ item, type.nullable = .list item ∧ item.IsRegular) ∨ type.nullable.isBare = true := by
  cases type with
  | nonNull inner =>
      cases inner with
      | list item => exact .inl ⟨item, rfl, regular.2⟩
      | nonNull inner => cases regular.1
      | named | direct | deferred => exact .inr rfl
  | list item => exact .inl ⟨item, rfl, regular⟩
  | named | direct | deferred => exact .inr rfl

private theorem Fits.of_items {variableItem : TypeRef} (regular : variableItem.IsRegular)
    (ofLists : variableType.nullable = .list variableItem)
    (fits : location.Fits variableType) : location.Fits variableItem := by
  induction fits generalizing variableItem with
  | leaf _ isBare =>
      rw [ofLists] at isBare
      cases isBare
  | items isList isItems each induction =>
      rw [ofLists] at isItems
      cases isItems
      rcases regular.nullable_cases with ⟨item, isItem, itemRegular⟩ | isBare
      · exact .items isList isItem (induction itemRegular isItem)
      · exact .wrapped isList isBare each
  | wrapped _ isBare =>
      rw [ofLists] at isBare
      cases isBare

private theorem IsRegular.fits {type : TypeRef} (regular : type.IsRegular) : type.Fits type := by
  induction type using promoteVariable.induct with
  | case1 item induction => exact .items rfl rfl (induction regular)
  | case2 item induction => exact .items rfl rfl (induction regular.2)
  | case3 type notList notRequiredList =>
      rcases regular.nullable_cases with ⟨item, isItem, _⟩ | isBare
      · cases type with
        | list item => exact absurd rfl (notList item)
        | nonNull inner =>
            cases isItem
            exact absurd rfl (notRequiredList item)
        | named | direct | deferred => cases isItem
      · exact .leaf isBare isBare rfl id

private theorem typeName_of_list {type item : TypeRef} (isList : type.nullable = .list item) :
    item.typeName = type.typeName := by
  cases type with
  | nonNull inner =>
      cases isList
      rfl
  | list other =>
      cases isList
      rfl
  | named | direct | deferred => cases isList

private theorem Fits.sameName (fits : location.Fits variableType) :
    variableType.typeName = location.typeName := by
  induction fits with
  | leaf _ _ sameName _ => exact sameName
  | items isList ofLists _ induction =>
      rw [← typeName_of_list isList, ← typeName_of_list ofLists, induction]
  | wrapped isList _ _ induction => rw [← typeName_of_list isList, induction]

end TypeRef

namespace Rules

private theorem isAllowed_of_isSubType (isSub : registry.isSubType variableType location = true) :
    isAllowed registry variableType location = true := by
  rw [isAllowed.eq_def]
  split
  · rw [isSub, Bool.true_or]
  · rw [isSub, Bool.true_or]
  · exact isSub

private theorem exists_items_of_isSubType {item : TypeRef} (regular : variableType.IsRegular)
    (isSub : registry.isSubType variableType (.list item) = true) :
    ∃ variableItem, variableType.nullable = .list variableItem ∧ variableItem.IsRegular ∧
      registry.isSubType variableItem item = true := by
  cases variableType with
  | list variableItem => exact ⟨variableItem, rfl, regular, isSub⟩
  | nonNull inner =>
      cases inner with
      | list variableItem => exact ⟨variableItem, rfl, regular.2, isSub⟩
      | nonNull inner => cases regular.1
      | named | direct | deferred => cases isSub
  | named | direct | deferred => cases isSub

private theorem isSubType_of_required {item : TypeRef}
    (isSub : registry.isSubType variableType (.nonNull (.list item)) = true) :
    registry.isSubType variableType (.list item) = true := by
  cases variableType with
  | nonNull inner => exact isSub
  | list | named | direct | deferred => cases isSub

private theorem isBare_of_isSubType {bare : TypeRef} (regular : variableType.IsRegular)
    (isBare : bare.isBare = true) (isSub : registry.isSubType variableType bare = true) :
    variableType.nullable.isBare = true := by
  rcases regular.nullable_cases with ⟨item, isItem, _⟩ | variableIsBare
  · cases variableType with
    | list other => cases bare <;> first | cases isSub | cases isBare
    | nonNull inner =>
        cases isItem
        cases bare <;> first | cases isSub | cases isBare
    | named | direct | deferred => cases isItem
  · exact variableIsBare

/-- What stands for a location that is no list is none, and refuses null if that does. -/
private theorem fits_leaf {named : NamedType} (resolved : registry.resolve? location = some named)
    (concrete : named.isAbstract = false) (regular : variableType.IsRegular)
    (notList : ∀ item, location ≠ .list item)
    (notRequiredList : ∀ item, location ≠ .nonNull (.list item))
    (isSub : registry.isSubType variableType location = true) : location.Fits variableType := by
  have sameName : variableType.typeName = location.typeName := by
    rcases Registry.isNamedSubType_of_isSubType isSub with
      same | ⟨superType, _, isSuper, _, isAbstract, _⟩
    · exact same
    · rw [resolved] at isSuper
      cases isSuper
      rw [concrete] at isAbstract
      cases isAbstract
  cases location with
  | list item => exact absurd rfl (notList item)
  | nonNull inner =>
      cases variableType with
      | nonNull variableInner =>
          have atInner (isBare : inner.isBare = true) :
              (TypeRef.nonNull variableInner).nullable.isBare = true := by
            have atInner : registry.isSubType (.nonNull variableInner) inner = true := by
              cases inner <;> first | exact isSub | cases isBare
            exact isBare_of_isSubType regular isBare atInner
          cases inner with
          | list item => exact absurd rfl (notRequiredList item)
          | nonNull inner =>
              have required : variableInner.isNonNull = true := isNonNull_of_isSubType isSub
              rw [regular.1] at required
              cases required
          | named | direct | deferred => exact .leaf rfl (atInner rfl) sameName fun _ => rfl
      | list | named | direct | deferred => cases isSub
  | named | direct | deferred =>
      exact .leaf rfl (isBare_of_isSubType regular rfl isSub) sameName nofun

private theorem fits_of_items {item : TypeRef} (regular : variableType.IsRegular)
    (isList : location.nullable = .list item)
    (inside : ∀ {variableType : TypeRef}, variableType.IsRegular →
      isAllowed registry variableType item = true → item.Fits variableType)
    (allowed : (registry.isSubType variableType (.list item) ||
      isAllowed registry variableType item) = true) : location.Fits variableType := by
  rcases Bool.or_eq_true_iff.mp allowed with isSub | allowed
  · rcases exists_items_of_isSubType regular isSub with
      ⟨variableItem, ofLists, itemRegular, isSubItem⟩
    exact .items isList ofLists (inside itemRegular (isAllowed_of_isSubType isSubItem))
  · rcases regular.nullable_cases with ⟨variableItem, ofLists, itemRegular⟩ | isBare
    · exact .items isList ofLists ((inside regular allowed).of_items itemRegular ofLists)
    · exact .wrapped isList isBare (inside regular allowed)

private theorem fits_of_isAllowed {named : NamedType}
    (resolved : registry.resolve? location = some named)
    (concrete : named.isAbstract = false) (regular : variableType.IsRegular)
    (allowed : isAllowed registry variableType location = true) : location.Fits variableType := by
  induction location using promoteVariable.induct generalizing variableType with
  | case1 item induction =>
      rw [isAllowed] at allowed
      exact fits_of_items regular rfl (fun regular => induction resolved regular) allowed
  | case2 item induction =>
      rw [isAllowed] at allowed
      refine fits_of_items regular rfl (fun regular => induction resolved regular) ?_
      rw [Bool.or_eq_true_iff] at allowed ⊢
      exact allowed.imp_left isSubType_of_required
  | case3 location notList notRequiredList =>
      have isSub : registry.isSubType variableType location = true := by
        rw [isAllowed.eq_def] at allowed
        split at allowed
        · exact absurd rfl (notRequiredList _)
        · exact absurd rfl (notList _)
        · exact allowed
      exact fits_leaf resolved concrete regular notList notRequiredList isSub

end Rules

/-! ## Coercion at the location -/

/-- Types inside which nothing but null becomes null: the built-in scalars, input objects, and enums
none of whose values stands for null. -/
def NamedType.IsPlain (named : NamedType) : Prop :=
  named ∈ Scalar.all ∨ (∃ definitions, named.shape = .inputObject definitions) ∨
    ∃ values, named.shape = .enum values ∧ ∀ value ∈ values, value.value.isNull = false

private theorem Scalar.all_refuse_lists {named : NamedType} (isBuiltIn : named ∈ all) :
    ∃ shape, named.shape = .scalar shape ∧
      ∀ items value, shape.parseValue (.array items) ≠ .ok value := by
  simp only [all, List.mem_cons, List.not_mem_nil, or_false] at isBuiltIn
  rcases isBuiltIn with rfl | rfl | rfl | rfl | rfl
  all_goals
    refine ⟨_, rfl, fun items value isOk => ?_⟩
    cases isOk

namespace NamedType.IsPlain

variable {named : NamedType}

private theorem concrete (plain : named.IsPlain) : named.isAbstract = false := by
  rcases plain with isBuiltIn | ⟨_, isShape⟩ | ⟨_, isShape, _⟩
  · revert named
    decide
  · simp [isAbstract, isShape]
  · simp [isAbstract, isShape]

private theorem takes (plain : named.IsPlain) {json value : Json} {values? : Option Variables}
    (notNull : json.isNull = false)
    (taken : named.Takes (.json json) ((RawInput.json json).readers? registry values?) value) :
    (∀ items, json ≠ .array items) ∧ value.isNull = false := by
  rcases plain with isBuiltIn | ⟨definitions, isShape⟩ | ⟨values, isShape, solid⟩
  · rcases Scalar.all_refuse_lists isBuiltIn with ⟨shape, isShape, refuses⟩
    rw [Takes, isShape] at taken
    refine ⟨?_, Scalar.all_parseValues isBuiltIn isShape (.json json) trivial notNull value taken⟩
    rintro items rfl
    exact refuses items value taken
  · rw [Takes, isShape] at taken
    rcases taken with ⟨fields, areFields, isRead⟩
    rcases RawInput.read_object_eq_ok.mp isRead with ⟨_, entries, _, rfl⟩
    refine ⟨?_, rfl⟩
    rintro items rfl
    cases areFields
  · rw [Takes, isShape] at taken
    rcases Option.bind_eq_some_iff.mp taken with ⟨name, isName, parsed⟩
    rcases Option.map_eq_some_iff.mp parsed with ⟨definition, found, rfl⟩
    refine ⟨?_, solid definition (Named.find?_mem found).1⟩
    rintro items rfl
    cases isName

end NamedType.IsPlain

namespace Registry

/-- Take a value that was coerced before as it is, but refuse null where a type does. -/
def refuseNulls : TypeRef → Json → Except CoercionError Json
  | .nonNull inner => fun value =>
      if value.isNull then .error ⟨nullValueRefusal (.nonNull inner), []⟩
      else refuseNulls inner value
  | .list item => fun value =>
      match value with
      | .array items =>
          (InputReader.readItems (items.map fun value _ => refuseNulls item value) 0 item).map
            .array
      | value => .ok value
  | _ => .ok

private theorem refuseNulls_null (type : TypeRef) :
    refuseNulls type .null =
      if type.isNonNull then .error ⟨nullValueRefusal type, []⟩ else .ok .null := by
  cases type <;> rfl

theorem coerceValue_null (type : TypeRef) :
    registry.coerceValue .null type =
      if type.isNonNull then .error ⟨nullValueRefusal type, []⟩ else .ok .null := by
  rw [coerceValue]
  cases type <;> rfl

section

variable {type item : TypeRef} {value : Json}

private theorem refuseNulls_of_list (isList : type.nullable = .list item)
    (notNull : value.isNull = false) :
    refuseNulls type value = refuseNulls (.list item) value := by
  cases type with
  | nonNull inner =>
      cases isList
      rw [refuseNulls.eq_def]
      simp [notNull]
  | list other =>
      cases isList
      rfl
  | named | direct | deferred => cases isList

private theorem refuseNulls_of_bare (bare : type.nullable.isBare = true)
    (notNull : value.isNull = false) :
    refuseNulls type value = .ok value := by
  cases type with
  | nonNull inner =>
      cases inner with
      | list | nonNull => cases bare
      | named | direct | deferred => simp [refuseNulls, notNull]
  | list => cases bare
  | named | direct | deferred => rfl

private theorem coerceValue_of_list (isList : type.nullable = .list item)
    (notNull : value.isNull = false) :
    registry.coerceValue value type = registry.coerceValue value (.list item) := by
  cases type with
  | nonNull inner =>
      cases isList
      cases value with
      | null => cases notNull
      | _ =>
          simp only [coerceValue]
          rfl
  | list other =>
      cases isList
      rfl
  | named | direct | deferred => cases isList

private theorem coerceValue_single (notNull : value.isNull = false)
    (notList : ∀ items, value ≠ .array items) :
    registry.coerceValue value (.list item) =
      (registry.coerceValue value item).map fun value => .array [value] := by
  cases value with
  | null => cases notNull
  | array items => exact absurd rfl (notList items)
  | _ =>
      simp only [coerceValue]
      rfl

end

private theorem resolve?_item {type item : TypeRef} (isList : type.nullable = .list item) :
    registry.resolve? item = registry.resolve? type := by
  rw [resolve?, resolve?, TypeRef.typeName_of_list isList]

/-- What a type without lists makes of a value it makes at every other type of its name, if null
will do there. -/
private theorem coerceValue_of_bare {named : NamedType}
    (resolved : registry.resolve? location = some named) (plain : named.IsPlain)
    (isLeaf : location.nullable.isBare = true) (isBare : variableType.nullable.isBare = true)
    (sameName : variableType.typeName = location.typeName) {json value : Json}
    (notNull : json.isNull = false)
    (coerced : registry.coerceValue json variableType = .ok value) :
    registry.coerceValue json location = .ok value ∧ value.isNull = false ∧
      ∀ items, json ≠ .array items := by
  rcases RawInput.read_json registry none json with ⟨leaf, reads, isLeafOf⟩
  have nameOf (type : TypeRef) : type.nullable.typeName = type.typeName := by cases type <;> rfl
  rw [reads, InputReader.throughWrappers_of_bare isBare, notNull, if_neg Bool.false_ne_true,
    isLeafOf, Registry.resolve?, nameOf, sameName, ← Registry.resolve?, resolved] at coerced
  rcases coerced with ⟨other, same, taken⟩
  cases same
  have solid := plain.takes notNull taken
  refine ⟨?_, solid.2, solid.1⟩
  rw [reads, InputReader.throughWrappers_of_bare isLeaf, notNull, if_neg Bool.false_ne_true,
    isLeafOf, Registry.resolve?, nameOf, ← Registry.resolve?, resolved]
  exact ⟨named, rfl, taken⟩

private theorem coerceItems_promoted {item variableItem : TypeRef}
    (each : ∀ json value, registry.coerceValue json variableItem = .ok value →
      registry.coerceValue json item = refuseNulls item (promoteVariable item variableItem value))
    {items values : List Json} {first : Nat}
    (coerced : registry.coerceItems items first variableItem = .ok values) (index : Nat) :
    registry.coerceItems items index item =
      InputReader.readItems
        ((values.map (promoteVariable item variableItem)).map fun value _ => refuseNulls item value)
        index item := by
  induction items generalizing values first index with
  | nil =>
      cases coerced
      rfl
  | cons head tail induction =>
      rw [coerceItems, both_eq_ok] at coerced
      rcases coerced with ⟨value, later, isValue, areLater, rfl⟩
      rw [InputReader.under, mapError_eq_ok] at isValue
      rw [coerceItems, each head value isValue, induction areLater]
      rfl

/-- A single value that a variable takes is taken at every location the variable fits. -/
private theorem exists_coerced_single {named : NamedType} (fits : location.Fits variableType)
    (resolved : registry.resolve? location = some named) (plain : named.IsPlain) {json value : Json}
    (notNull : json.isNull = false) (notList : ∀ items, json ≠ .array items)
    (coerced : registry.coerceValue json variableType = .ok value) :
    ∃ value, registry.coerceValue json location = .ok value := by
  induction fits generalizing value with
  | leaf isLeaf isBare sameName _ =>
      exact ⟨value, (coerceValue_of_bare resolved plain isLeaf isBare sameName notNull coerced).1⟩
  | items isList ofLists _ induction =>
      rw [coerceValue_of_list ofLists notNull, coerceValue_single notNull notList, map_eq_ok]
        at coerced
      rcases coerced with ⟨inside, isInside, _⟩
      rw [coerceValue_of_list isList notNull, coerceValue_single notNull notList, exists_ok_map]
      exact induction ((resolve?_item isList).trans resolved) isInside
  | wrapped isList _ _ induction =>
      rw [coerceValue_of_list isList notNull, coerceValue_single notNull notList, exists_ok_map]
      exact induction ((resolve?_item isList).trans resolved) coerced

private theorem refuseNulls_alone {item : TypeRef} {value taken : Json}
    (isTaken : refuseNulls item value = .ok taken) :
    refuseNulls (.list item) (.array [value]) = .ok (.array [taken]) := by
  simp [refuseNulls, InputReader.readItems, InputReader.under, isTaken]
  rfl

/-- A single value is coerced at a list as at its items, and its promoted value is the item. -/
private theorem coerceValue_single_promoted {named : NamedType} {item : TypeRef}
    (isList : location.nullable = .list item) (fits : item.Fits variableType)
    (resolved : registry.resolve? item = some named) (plain : named.IsPlain) {json value : Json}
    (notNull : json.isNull = false) (notList : ∀ items, json ≠ .array items)
    (coerced : registry.coerceValue json variableType = .ok value)
    (inside : registry.coerceValue json item =
      refuseNulls item (promoteVariable item variableType value)) :
    registry.coerceValue json location =
      refuseNulls location (.array [promoteVariable item variableType value]) := by
  rcases exists_coerced_single fits resolved plain notNull notList coerced with ⟨taken, isTaken⟩
  rw [coerceValue_of_list isList notNull, coerceValue_single notNull notList, isTaken,
    refuseNulls_of_list isList rfl, refuseNulls_alone (inside.symm.trans isTaken)]
  rfl

private theorem coerceValue_null_promoted {json value : Json} (isNull : json.isNull = true)
    (coerced : registry.coerceValue json variableType = .ok value) :
    registry.coerceValue json location =
      refuseNulls location (promoteVariable location variableType value) := by
  rw [Json.eq_null isNull] at coerced ⊢
  have valueIsNull : value = .null := by
    rw [coerceValue_null] at coerced
    split at coerced
    · cases coerced
    · exact (Except.ok.inj coerced).symm
  have promoted : promoteVariable location variableType .null = .null :=
    Json.eq_null (isNull_promoteVariable _ _ _)
  rw [valueIsNull, promoted, coerceValue_null, refuseNulls_null]

/-- Where a variable fits, its raw value is coerced to the promoted value, but null is refused where
the location does. -/
private theorem coerceValue_promoted {named : NamedType} (fits : location.Fits variableType)
    (resolved : registry.resolve? location = some named) (plain : named.IsPlain) (json value : Json)
    (coerced : registry.coerceValue json variableType = .ok value) :
    registry.coerceValue json location =
      refuseNulls location (promoteVariable location variableType value) := by
  induction fits generalizing json value with
  | leaf isLeaf isBare sameName =>
      cases isNull : json.isNull with
      | true => exact coerceValue_null_promoted isNull coerced
      | false =>
          have atLeaf := coerceValue_of_bare resolved plain isLeaf isBare sameName isNull coerced
          rw [promoteVariable_of_bare isLeaf, atLeaf.1, refuseNulls_of_bare isLeaf atLeaf.2.1]
  | @items location variableType item variableItem isList ofLists fitsItem induction =>
      have resolvedItem := (resolve?_item isList).trans resolved
      cases isNull : json.isNull with
      | true => exact coerceValue_null_promoted isNull coerced
      | false =>
          rw [coerceValue_of_list ofLists isNull] at coerced
          by_cases isArray : ∃ items, json = .array items
          · rcases isArray with ⟨items, rfl⟩
            rcases map_eq_ok.mp coerced with ⟨values, areValues, rfl⟩
            have read : registry.coerceValue (.array items) (.list item) =
              (registry.coerceItems items 0 item).map .array := rfl
            rw [coerceValue_of_list isList isNull, promoteVariable_array isList ofLists,
              refuseNulls_of_list isList rfl, read,
              coerceItems_promoted (induction resolvedItem) areValues 0]
            rfl
          · have notList := not_exists.mp isArray
            rw [coerceValue_single isNull notList, map_eq_ok] at coerced
            rcases coerced with ⟨inside, isInside, rfl⟩
            rw [promoteVariable_array isList ofLists]
            exact coerceValue_single_promoted isList fitsItem resolvedItem plain isNull notList
              isInside (induction resolvedItem json inside isInside)
  | @wrapped location variableType item isList isBare fitsItem induction =>
      have resolvedItem := (resolve?_item isList).trans resolved
      cases isNull : json.isNull with
      | true => exact coerceValue_null_promoted isNull coerced
      | false =>
          have atLeaf : value.isNull = false ∧ ∀ items, json ≠ .array items := by
            have resolvedHere : registry.resolve? variableType = some named := by
              rw [resolve?, fitsItem.sameName, ← resolve?, resolvedItem]
            exact (coerceValue_of_bare resolvedHere plain isBare isBare rfl isNull coerced).2
          rw [promoteVariable_single isList isBare atLeaf.1]
          exact coerceValue_single_promoted isList fitsItem resolvedItem plain isNull atLeaf.2
            coerced (induction resolvedItem json value coerced)

end Registry

/-! ## Where promotion is coercion -/

namespace TypeRef

/-- At every depth, counted from the outside, where the items of a variable may be null those of the
location may be null as well. -/
def covers : (location variableType : TypeRef) → Bool
  | .list item => coversItems (covers item) item
  | .nonNull (.list item) => coversItems (covers item) item
  | _ => fun _ => true
where
  coversItems (inside : TypeRef → Bool) (item variableType : TypeRef) : Bool :=
    match variableType.nullable with
    | .list variableItem => (variableItem.isNonNull || !item.isNonNull) && inside variableItem
    | _ => true

private theorem covers_of_lists {item variableItem : TypeRef}
    (isList : location.nullable = .list item)
    (ofLists : variableType.nullable = .list variableItem) :
    location.covers variableType =
      ((variableItem.isNonNull || !item.isNonNull) && item.covers variableItem) := by
  have ofItems : location.covers = covers.coversItems item.covers item := by
    cases location with
    | nonNull inner =>
        cases isList
        rfl
    | list item =>
        cases isList
        rfl
    | named | direct | deferred => cases isList
  rw [ofItems, covers.coversItems, ofLists]

private theorem covers_of_bare (isBare : variableType.nullable.isBare = true) :
    location.covers variableType = true := by
  have ofItems (inside : TypeRef → Bool) (item : TypeRef) :
      covers.coversItems inside item variableType = true := by
    rw [covers.coversItems]
    split
    · rename_i ofLists
      rw [ofLists] at isBare
      cases isBare
    · rfl
  cases location with
  | nonNull inner =>
      cases inner with
      | list item => exact ofItems _ item
      | nonNull | named | direct | deferred => rfl
  | list item => exact ofItems _ item
  | named | direct | deferred => rfl

end TypeRef

namespace Registry

/-- Items are taken as they are if each of them is. -/
private theorem readItems_taken {item : TypeRef} {values : List Json} (type : TypeRef)
    (index : Nat) :
    InputReader.readItems (values.map fun value _ => refuseNulls item value) index type =
        .ok values ↔
      ∀ value ∈ values, refuseNulls item value = .ok value := by
  induction values generalizing index with
  | nil => simp [InputReader.readItems]
  | cons head tail induction =>
      rw [List.map_cons, InputReader.readItems, both_eq_ok, List.forall_mem_cons,
        ← induction (index + 1)]
      simp [InputReader.under, mapError_eq_ok]

private theorem refuseNulls_array {type item : TypeRef} {values : List Json}
    (isList : type.nullable = .list item) :
    refuseNulls type (.array values) = .ok (.array values) ↔
      ∀ value ∈ values, refuseNulls item value = .ok value := by
  rw [refuseNulls_of_list isList rfl, ← readItems_taken item 0, refuseNulls, map_eq_ok]
  simp

/-- The result is the given value, or null is refused at a non-null type. -/
private def IsNullCheck {α : Type} (value : α) (result : Except CoercionError α) : Prop :=
  result = .ok value ∨
    ∃ inner path, result = .error ⟨nullValueRefusal (.nonNull inner), path⟩

private theorem isNullCheck_items {item : TypeRef} (type : TypeRef)
    (each : ∀ value, IsNullCheck value (refuseNulls item value)) (values : List Json)
    (index : Nat) :
    IsNullCheck values
      (InputReader.readItems (values.map fun value _ => refuseNulls item value) index type) := by
  induction values generalizing index with
  | nil => exact .inl rfl
  | cons head tail induction =>
      rw [List.map_cons, InputReader.readItems]
      rcases each head with isHead | ⟨inner, path, isError⟩
      · rw [isHead]
        rcases induction (index + 1) with isTail | ⟨inner, path, isError⟩
        · rw [isTail]
          exact .inl rfl
        · rw [isError]
          exact .inr ⟨inner, path, rfl⟩
      · rw [isError]
        exact .inr ⟨inner, .index index :: path, rfl⟩

private theorem refuseNulls_check (type : TypeRef) :
    ∀ value, IsNullCheck value (refuseNulls type value) := by
  induction type with
  | nonNull inner induction =>
      intro value
      cases isNull : value.isNull with
      | true => exact .inr ⟨inner, [], by simp [refuseNulls, isNull]⟩
      | false => simpa [refuseNulls, isNull] using induction value
  | list item induction =>
      intro value
      cases value with
      | array values =>
          rcases isNullCheck_items item induction values 0 with isOk | ⟨inner, path, isError⟩
          · exact .inl (congrArg (Except.map Json.array) isOk)
          · exact .inr ⟨inner, path, congrArg (Except.map Json.array) isError⟩
      | _ => exact .inl rfl
  | named | direct | deferred => exact fun _ => .inl rfl

private theorem eq_of_refuseNulls {type : TypeRef} {value taken : Json}
    (isTaken : refuseNulls type value = .ok taken) : taken = value := by
  rcases refuseNulls_check type value with isSame | ⟨inner, path, isError⟩
  · exact Except.ok.inj (isTaken.symm.trans isSame)
  · rw [isError] at isTaken
    cases isTaken

/-- What is coerced at a type has no null where the type refuses one. -/
private theorem refuseNulls_of_coerced {type : TypeRef} {named : NamedType}
    (regular : type.IsRegular)
    (resolved : registry.resolve? type = some named) (plain : named.IsPlain) {json value : Json}
    (coerced : registry.coerceValue json type = .ok value) :
    refuseNulls type value = .ok value := by
  have promoted := coerceValue_promoted regular.fits resolved plain json value coerced
  rw [coerced] at promoted
  have same := eq_of_refuseNulls promoted.symm
  rw [← same] at promoted
  exact promoted.symm

private theorem isNull_of_coerced {type : TypeRef} {named : NamedType} (regular : type.IsRegular)
    (resolved : registry.resolve? type = some named) (plain : named.IsPlain) {json value : Json}
    (notNull : json.isNull = false) (coerced : registry.coerceValue json type = .ok value) :
    value.isNull = false := by
  rcases regular.nullable_cases with ⟨item, isItem, _⟩ | isBare
  · rw [coerceValue_of_list isItem notNull] at coerced
    by_cases isArray : ∃ items, json = .array items
    · rcases isArray with ⟨items, rfl⟩
      rcases map_eq_ok.mp coerced with ⟨values, _, rfl⟩
      rfl
    · rw [coerceValue_single notNull (not_exists.mp isArray), map_eq_ok] at coerced
      rcases coerced with ⟨inside, _, rfl⟩
      rfl
  · exact (coerceValue_of_bare resolved plain isBare isBare rfl notNull coerced).2.1

/-- Where the location covers the variable, promotion puts null nowhere it is refused. -/
private theorem refuseNulls_promoted (fits : location.Fits variableType)
    (covers : location.covers variableType = true) {value : Json} (notNull : value.isNull = false)
    (taken : refuseNulls variableType value = .ok value) :
    refuseNulls location (promoteVariable location variableType value) =
      .ok (promoteVariable location variableType value) := by
  induction fits generalizing value with
  | leaf isLeaf =>
      rw [promoteVariable_of_bare isLeaf]
      exact refuseNulls_of_bare isLeaf notNull
  | @items location variableType item variableItem isList ofLists _ induction =>
      rw [TypeRef.covers_of_lists isList ofLists, Bool.and_eq_true] at covers
      cases value with
      | null => cases notNull
      | array values =>
          rw [promoteVariable_array isList ofLists, refuseNulls_array isList, List.forall_mem_map]
          rw [refuseNulls_array ofLists] at taken
          intro value member
          have takenItem := taken value member
          cases isNull : value.isNull with
          | false => exact induction covers.2 isNull takenItem
          | true =>
              have promoted : (promoteVariable item variableItem value).isNull = true :=
                (isNull_promoteVariable _ _ _).trans isNull
              rw [Json.eq_null promoted, refuseNulls_null]
              rw [Json.eq_null isNull, refuseNulls_null] at takenItem
              cases refused : item.isNonNull with
              | false => rfl
              | true =>
                  rw [refused, Bool.not_true, Bool.or_false] at covers
                  rw [covers.1] at takenItem
                  cases takenItem
      | _ =>
          rw [refuseNulls_of_list isList (by rwa [isNull_promoteVariable]),
            promoteVariable_of_list isList, promoteIntoList, ofLists]
          rfl
  | @wrapped location variableType item isList isBare _ induction =>
      rw [promoteVariable_single isList isBare notNull, refuseNulls_array isList,
        List.forall_mem_singleton]
      exact induction (TypeRef.covers_of_bare isBare) notNull taken

/-- Where the location does not cover the variable there is a list with null in it that the variable
takes and the location does not. -/
private theorem exists_refused (fits : location.Fits variableType)
    (uncovered : location.covers variableType = false) :
    ∃ json value error, json.isNull = false ∧
      registry.coerceValue json variableType = .ok value ∧
      refuseNulls location (promoteVariable location variableType value) = .error error := by
  induction fits with
  | leaf _ isBare =>
      rw [TypeRef.covers_of_bare isBare] at uncovered
      cases uncovered
  | wrapped _ isBare =>
      rw [TypeRef.covers_of_bare isBare] at uncovered
      cases uncovered
  | @items location variableType item variableItem isList ofLists _ induction =>
      have alone {json value : Json} {error : CoercionError}
          (coerced : registry.coerceValue json variableItem = .ok value)
          (refused : refuseNulls item (promoteVariable item variableItem value) = .error error) :
          ∃ json value error, json.isNull = false ∧
            registry.coerceValue json variableType = .ok value ∧
            refuseNulls location (promoteVariable location variableType value) = .error error := by
        refine ⟨.array [json], .array [value], error.under (.index 0), rfl, ?_, ?_⟩
        · have read : registry.coerceValue (.array [json]) (.list variableItem) =
              (registry.coerceItems [json] 0 variableItem).map .array := rfl
          rw [coerceValue_of_list ofLists rfl, read, map_eq_ok]
          exact ⟨[value], both_eq_ok.mpr ⟨value, [], mapError_eq_ok.mpr coerced, rfl, rfl⟩, rfl⟩
        · rw [promoteVariable_array isList ofLists, refuseNulls_of_list isList rfl]
          simp [refuseNulls, InputReader.readItems, InputReader.under, refused]
          rfl
      rw [TypeRef.covers_of_lists isList ofLists, Bool.and_eq_false_iff] at uncovered
      rcases uncovered with uncovered | uncovered
      · rw [Bool.or_eq_false_iff, Bool.not_eq_false'] at uncovered
        have coerced : registry.coerceValue .null variableItem = .ok .null := by
          rw [coerceValue_null, uncovered.1]
          rfl
        have refused : refuseNulls item (promoteVariable item variableItem .null) =
            .error ⟨nullValueRefusal item, []⟩ := by
          rw [Json.eq_null (isNull_promoteVariable _ _ .null), refuseNulls_null, uncovered.2]
          rfl
        exact alone coerced refused
      · rcases induction uncovered with ⟨json, value, error, _, coerced, refused⟩
        exact alone coerced refused

end Registry

/-- Where the position rule lets a variable stand, its raw value is coerced at the location to the
promoted value of the variable, except that null is refused wherever the location refuses it. No
null is refused, and promotion is coercion at the location for all values but null, exactly if the
location covers the variable: as long as both have lists, counted from the outside, items that may
be null stand for items that may be null. -/
theorem promotion_coerces (registry : Registry) (location variableType : TypeRef)
    {named : NamedType} (resolved : registry.resolve? location = some named)
    (plain : named.IsPlain) (regular : variableType.IsRegular)
    (allowed : Rules.isAllowed registry variableType location = true) :
    (∀ json value, registry.coerceValue json variableType = .ok value →
      registry.coerceValue json location =
        Registry.refuseNulls location (promoteVariable location variableType value)) ∧
    ((∀ json value, json.isNull = false → registry.coerceValue json variableType = .ok value →
        registry.coerceValue json location =
          .ok (promoteVariable location variableType value)) ↔
      location.covers variableType = true) := by
  have fits := Rules.fits_of_isAllowed resolved plain.concrete regular allowed
  have promoted := Registry.coerceValue_promoted fits resolved plain
  refine ⟨promoted, fun always => ?_, fun covers json value notNull coerced => ?_⟩
  · cases covers : location.covers variableType with
    | true => rfl
    | false =>
        rcases Registry.exists_refused fits covers with
          ⟨json, value, error, notNull, coerced, refused⟩
        rw [← promoted json value coerced, always json value notNull coerced] at refused
        cases refused
  · have resolvedHere : registry.resolve? variableType = some named := by
      rw [Registry.resolve?, fits.sameName, ← Registry.resolve?, resolved]
    have taken := Registry.refuseNulls_of_coerced regular resolvedHere plain coerced
    rw [promoted json value coerced]
    exact Registry.refuseNulls_promoted fits covers
      (Registry.isNull_of_coerced regular resolvedHere plain notNull coerced) taken

namespace Ledger

/-! Amounts come in rows, and rows in a table. A table may lack amounts, but no rows. -/

def row : TypeRef := .nonNull (.list (.named "Int"))

def table : TypeRef := .list row

private theorem amounts_resolved : Ledger.registry.resolve? table = some Scalar.all[1] := rfl

private theorem amounts_plain : Scalar.all[1].IsPlain := .inl (List.getElem_mem _)

end Ledger

/-- A row without its amount is taken for a row, and promoted it is a table without its row. -/
theorem promotion_coerces_of_ledger :
    Rules.isAllowed Ledger.registry Ledger.row Ledger.table = true ∧
    Ledger.registry.coerceValue (.array [.null]) Ledger.row = .ok (.array [.null]) ∧
    Ledger.registry.coerceValue (.array [.null]) Ledger.table =
      .error ⟨"Expected non-nullable type \"[Int]!\" not to be null.", [.index 0]⟩ ∧
    ¬∀ json value, json.isNull = false →
      Ledger.registry.coerceValue json Ledger.row = .ok value →
      Ledger.registry.coerceValue json Ledger.table =
        .ok (promoteVariable Ledger.table Ledger.row value) := by
  have allowed : Rules.isAllowed Ledger.registry Ledger.row Ledger.table = true := rfl
  have promotion := promotion_coerces Ledger.registry Ledger.table Ledger.row
    Ledger.amounts_resolved Ledger.amounts_plain ⟨rfl, trivial⟩ allowed
  have coerced : Ledger.registry.coerceValue (.array [.null]) Ledger.row = .ok (.array [.null]) :=
    rfl
  refine ⟨allowed, coerced, (promotion.1 _ _ coerced).trans rfl, fun always => ?_⟩
  cases promotion.2.mp always

end GraphQL
