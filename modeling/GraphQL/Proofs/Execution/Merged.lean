import GraphQL.Proofs.Execution.Completion
import GraphQL.Proofs.Execution.Traversal
import GraphQL.Proofs.Schema.Possible
import GraphQL.Proofs.Validation.Accepted
import GraphQL.Proofs.Validation.Reaching

/-!
What an accepted document selects for an object at runtime. Selections are checked on the types that
they are written on; those types are ones that the object is of, so what is defined there is defined
for the object, and what can be merged there is merged for the object without loss.
-/

namespace GraphQL

/-! ## Fields where they are written -/

private theorem Subject.Selects.of_singleton {subject : Subject} {parent : Option NamedType}
    {selection : Selection} {selections : List Selection} {selected : SelectedField}
    (selects : subject.Selects parent [selection] selected) (member : selection ∈ selections) :
    subject.Selects parent selections selected := by
  cases selects with
  | field isHere => exact .field (List.mem_singleton.mp isHere ▸ member)
  | inline isHere inside => exact .inline (List.mem_singleton.mp isHere ▸ member) inside
  | spread isHere found inside =>
      exact .spread (List.mem_singleton.mp isHere ▸ member) found inside

namespace Request

/-- The registry and the document, as the rules see them. -/
def subject (request : Request) : Subject := ⟨request.registry, request.document⟩

/-- A field on a type that an object is of. -/
def Fits (request : Request) (object : NamedType) (selected : SelectedField) : Prop :=
  ∃ parent, selected.parent = some parent ∧ request.RunsAs parent object

variable {request : Request} {object : NamedType}

theorem RunsAs.eq_of_isObject {type : NamedType} (runsAs : request.RunsAs type object)
    (isObject : type.isObject = true) : object = type := by
  rcases runsAs with ⟨_, equal⟩ | ⟨isAbstract, _⟩
  · exact equal
  · exact absurd isAbstract (NamedType.not_isAbstract isObject)

theorem runsAs_self (registered : request.registry.object? object.name = some object) :
    request.RunsAs object object :=
  .inl ⟨(Registry.isObject_of_object? registered).2, rfl⟩

/-- A condition that holds for an object names a type that the object is of. -/
theorem runsAs_of_conditionHolds (registered : request.registry.object? object.name = some object)
    {condition : String} (holds : request.conditionHolds condition object.name = true) :
    ∃ type, request.registry.lookup? condition = some type ∧ request.RunsAs type object := by
  rw [conditionHolds, Bool.or_eq_true] at holds
  rcases holds with same | possible
  · have isName : condition = object.name := by simpa using same
    exact ⟨object, isName ▸ (Registry.isObject_of_object? registered).1, runsAs_self registered⟩
  · rcases (Option.any_eq_true _ _).mp possible with ⟨type, found, isPossible⟩
    rw [Bool.and_eq_true] at isPossible
    exact ⟨type, found, .inr ⟨isPossible.1, registered, isPossible.2⟩⟩

/-- Every field that is met comes from a selection, on whatever type of the object that selection
is. -/
private theorem Traverses.selects (registered : request.registry.object? object.name = some object)
    {visited after : List String} {selections : List Selection} {fields : List Field}
    (traverses : request.Traverses object.name visited selections fields after) :
    ∀ field ∈ fields, ∃ selection ∈ selections, ∀ parent, request.RunsAs parent object →
      ∃ selected, request.subject.Selects (some parent) [selection] selected ∧
        selected.field = field ∧ request.Fits object selected := by
  induction traverses with
  | nil => simp
  | @field _ _ node _ _ included later induction =>
      intro field member
      rcases List.mem_cons.mp member with equal | isLater
      · refine ⟨.field node, List.mem_cons_self, fun parent runsAs => ?_⟩
        exact ⟨_, .field (List.mem_singleton_self _), equal.symm, parent, rfl, runsAs⟩
      · rcases induction field isLater with ⟨selection, isSelection, selects⟩
        exact ⟨selection, List.mem_cons_of_mem _ isSelection, selects⟩
  | @spread _ _ _ spread fragment _ _ _ included new found applies within later inside rest =>
      intro field member
      rcases List.mem_append.mp member with isInside | isLater
      · refine ⟨.spread spread, List.mem_cons_self, fun parent runsAs => ?_⟩
        rcases runsAs_of_conditionHolds registered applies with ⟨type, isType, typeRunsAs⟩
        rcases inside field isInside with ⟨selection, isSelection, selects⟩
        rcases selects type typeRunsAs with ⟨selected, isSelected, isField, fits⟩
        refine ⟨selected, .spread (List.mem_singleton_self _) found ?_, isField, fits⟩
        have isWritten : request.subject.registry.lookup? fragment.condition = some type := isType
        rw [isWritten]
        exact isSelected.of_singleton isSelection
      · rcases rest field isLater with ⟨selection, isSelection, selects⟩
        exact ⟨selection, List.mem_cons_of_mem _ isSelection, selects⟩
  | @inline _ _ _ fragment _ _ _ included applies within later inside rest =>
      intro field member
      rcases List.mem_append.mp member with isInside | isLater
      · refine ⟨.inline fragment, List.mem_cons_self, fun parent runsAs => ?_⟩
        have isInner : ∃ type, fragment.inner request.subject.registry (some parent) = some type ∧
            request.RunsAs type object := by
          cases condition : fragment.condition with
          | none => exact ⟨parent, by rw [InlineFragment.inner, condition], runsAs⟩
          | some name =>
              rw [condition] at applies
              rcases runsAs_of_conditionHolds registered applies with ⟨type, isType, typeRunsAs⟩
              exact ⟨type, by rw [InlineFragment.inner, condition]; exact isType, typeRunsAs⟩
        rcases isInner with ⟨type, isType, typeRunsAs⟩
        rcases inside field isInside with ⟨selection, isSelection, selects⟩
        rcases selects type typeRunsAs with ⟨selected, isSelected, isField, fits⟩
        refine ⟨selected, .inline (List.mem_singleton_self _) ?_, isField, fits⟩
        rw [isType]
        exact isSelected.of_singleton isSelection
      · rcases rest field isLater with ⟨selection, isSelection, selects⟩
        exact ⟨selection, List.mem_cons_of_mem _ isSelection, selects⟩
  | _ =>
      intro field member
      rename_i induction
      rcases induction field member with ⟨selection, isSelection, selects⟩
      exact ⟨selection, List.mem_cons_of_mem _ isSelection, selects⟩

/-! ## Merged selection sets -/

/-- Fields of the document on types that an object is of, any two of which can be merged. -/
structure Merges (request : Request) (object : NamedType) (merged : List SelectedField) :
    Prop where
  has : ∀ selected ∈ merged, request.subject.HasField selected
  reached : ∀ selected ∈ merged, ∃ definition,
    request.subject.Reaches request.operation definition ∧
      (request.subject.only definition).HasField selected
  fits : ∀ selected ∈ merged, request.Fits object selected
  mergeable : ∀ left ∈ merged, ∀ right ∈ merged,
    left = right ∨ ¬request.subject.CannotMerge left right

/-- Selection sets of the document on types that an object is of. Any two fields that they lead to
under one response name can be merged. -/
structure Suits (request : Request) (object : NamedType)
    (sources : List (Option NamedType × List Selection)) : Prop where
  has : ∀ source ∈ sources, ∃ owner, request.subject.HasSelections owner source.1 source.2
  reached : ∀ source ∈ sources, ∃ definition owner,
    request.subject.Reaches request.operation definition ∧
      (request.subject.only definition).HasSelections owner source.1 source.2
  covers : ∀ source ∈ sources, ∃ parent, source.1 = some parent ∧ request.RunsAs parent object
  mergeable : ∀ left ∈ sources, ∀ right ∈ sources, ∀ first second,
    request.subject.Selects left.1 left.2 first → request.subject.Selects right.1 right.2 second →
    first.responseName = second.responseName →
    first = second ∨ ¬request.subject.CannotMerge first second

private theorem exists_map_eq {α β : Type} {holds : β → Prop} {image : β → α} {items : List α}
    (each : ∀ item ∈ items, ∃ source, holds source ∧ image source = item) :
    ∃ sources : List β, sources.map image = items ∧ ∀ source ∈ sources, holds source := by
  induction items with
  | nil => exact ⟨[], rfl, by simp⟩
  | cons head tail induction =>
      rcases each head List.mem_cons_self with ⟨source, held, isImage⟩
      rcases induction fun item member => each item (List.mem_cons_of_mem head member) with
        ⟨sources, isMap, allHeld⟩
      exact ⟨source :: sources, by rw [List.map_cons, isImage, isMap],
        List.forall_mem_cons.mpr ⟨held, allHeld⟩⟩

/-- The fields of a group are merged of fields of the document. -/
theorem Suits.merges {sources : List (Option NamedType × List Selection)}
    (suits : request.Suits object sources)
    (registered : request.registry.object? object.name = some object) {group : FieldGroup}
    (collected : group ∈ request.collectFields object.name (sources.map Prod.snd)) :
    ∃ merged, merged.map SelectedField.field = group.2 ∧ request.Merges object merged := by
  rcases request.collectFields_traverses object.name (sources.map Prod.snd) with
    ⟨fields, after, traverses, isGroups⟩
  have isGroup : group.2 = fields.filter fun field => field.responseName == group.1 := by
    have found := Named.value?_of_mem (request.collectFields_distinct object.name _) collected
    have grouped := Collection.value?_group fields [] group.1
    rw [← isGroups, found] at grouped
    simpa [Named.value?, Named.find?] using grouped
  have each : ∀ field ∈ group.2, ∃ selected : SelectedField,
      ((∃ source ∈ sources, request.subject.Selects source.1 source.2 selected) ∧
        request.Fits object selected ∧ selected.responseName = group.1) ∧
      selected.field = field := by
    intro field member
    rw [isGroup, List.mem_filter] at member
    rcases traverses.selects registered field member.1 with ⟨selection, isSelection, selects⟩
    rcases List.mem_flatten.mp isSelection with ⟨set, isSet, inSet⟩
    rcases List.mem_map.mp isSet with ⟨source, isSource, equal⟩
    rcases suits.covers source isSource with ⟨parent, isParent, runsAs⟩
    rcases selects parent runsAs with ⟨selected, isSelected, isField, fits⟩
    refine ⟨selected, ⟨⟨source, isSource, ?_⟩, fits, ?_⟩, isField⟩
    · rw [isParent, equal]
      exact isSelected.of_singleton inSet
    · rw [SelectedField.responseName, isField]
      simpa using member.2
  rcases exists_map_eq each with ⟨merged, isMap, held⟩
  refine ⟨merged, isMap, ?_, ?_, fun selected member => (held selected member).2.1, ?_⟩
  · intro selected member
    rcases (held selected member).1 with ⟨source, isSource, selects⟩
    rcases suits.has source isSource with ⟨owner, has⟩
    exact has.hasField selects
  · intro selected member
    rcases (held selected member).1 with ⟨source, isSource, selects⟩
    rcases suits.reached source isSource with ⟨definition, owner, reaches, has⟩
    exact reaches.selects has selects
  · intro left isLeft right isRight
    rcases (held left isLeft).1 with ⟨source, isSource, selects⟩
    rcases (held right isRight).1 with ⟨other, isOther, otherSelects⟩
    exact suits.mergeable source isSource other isOther left right selects otherSelects
      ((held left isLeft).2.2.trans (held right isRight).2.2.symm)

/-- One node alone merges. -/
theorem Merges.singleton {selected : SelectedField} {definition : Definition}
    (has : request.subject.HasField selected)
    (reaches : request.subject.Reaches request.operation definition)
    (inside : (request.subject.only definition).HasField selected)
    (fits : request.Fits object selected) : request.Merges object [selected] where
  has := by simpa using has
  reached := by simpa using ⟨definition, reaches, inside⟩
  fits := by simpa using fits
  mergeable := by simp

/-- Merged nodes nest less deep than the operation. -/
theorem Merges.nesting_lt (acyclic : request.document.Acyclic) {merged : List SelectedField}
    (merges : request.Merges object merged) (notEmpty : merged ≠ []) :
    request.document.nesting
        ((merged.map SelectedField.field).map Field.selections).flatten <
      request.document.nesting request.operation.selections := by
  apply nestingOf_flatten_lt
  · simpa using notEmpty
  · intro selections member
    rw [List.map_map] at member
    rcases List.mem_map.mp member with ⟨selected, isSelected, rfl⟩
    rcases merges.reached selected isSelected with
      ⟨definition, reaches, owner, _, around, node, has, isNode, rfl⟩
    have inside := nesting_le_nestingOf
      (request.document.fragmentNesting request.document.fragments.length) isNode
    rw [Selection.nesting, Field.nesting_eq] at inside
    exact Nat.lt_of_succ_le (inside.trans (reaches.nesting_le acyclic has))

private theorem Fits.together {left right : SelectedField} (fitsLeft : request.Fits object left)
    (fitsRight : request.Fits object right) : ¬left.OnDistinctObjects right := by
  rintro ⟨leftParent, rightParent, isLeft, isRight, leftObject, rightObject, distinct⟩
  have same : ∀ {selected : SelectedField} {parent : NamedType}, request.Fits object selected →
      selected.parent = some parent → parent.isObject = true → object = parent := by
    rintro selected parent ⟨type, isType, runsAs⟩ isParent isObject
    rw [isParent, Option.some.injEq] at isType
    exact (isType ▸ runsAs).eq_of_isObject isObject
  apply distinct
  rw [← same fitsLeft isLeft leftObject, ← same fitsRight isRight rightObject]

/-- Merged fields are one field with the same arguments. -/
theorem Merges.same {merged : List SelectedField} (merges : request.Merges object merged)
    {left right : SelectedField} (isLeft : left ∈ merged) (isRight : right ∈ merged) :
    left.field.name = right.field.name ∧
      left.field.arguments.SameTexts right.field.arguments := by
  rcases merges.mergeable left isLeft right isRight with equal | mergeable
  · rw [equal]
    exact ⟨rfl, .refl _⟩
  · have same := (Subject.not_cannotMerge_iff.mp mergeable).2
      ((merges.fits left isLeft).together (merges.fits right isRight))
    exact ⟨same.1, same.2.1⟩

/-! ## What is defined at runtime -/

/-- The definition that an object has stands for the one of a type that it is of. -/
private def Narrows (request : Request) (own definition : FieldDefinition) : Prop :=
  own = definition ∨ request.registry.isSubType own.type definition.type = true

theorem field?_cases (registry : Registry) (type : NamedType) {name : String}
    (notTypeName : name ≠ "__typename") :
    registry.field? type name = type.field? name ∨
      (type.name = registry.query.name ∧ ∃ definition,
        registry.field? type name = some definition ∧
          (definition.name = "__schema" ∨ definition.name = "__type")) := by
  rw [Registry.field?, if_neg fun both => notTypeName both.1]
  split
  · rename_i isSchema
    exact .inr ⟨isSchema.2, _, rfl, .inl rfl⟩
  · split
    · rename_i isType
      exact .inr ⟨isType.2, _, rfl, .inr rfl⟩
    · exact .inl rfl

variable {schema : Schema}

/-- What is selected on a type that an object is of, the object has itself or inherits. -/
theorem RunsAs.has_or_inherits (yields : schema.Yields request.registry)
    (registered : request.registry.object? object.name = some object) {parent : NamedType}
    (known : parent ∈ request.registry.types) (runsAs : request.RunsAs parent object)
    {name : String} {definition : FieldDefinition}
    (isField : request.registry.field? parent name = some definition) :
    request.registry.field? object name = some definition ∨
      (name ≠ "__typename" ∧ definition.name = name ∧
        request.registry.Inherits object definition) := by
  by_cases isTypeName : name = "__typename"
  · have composite : ∀ type, request.RunsAs type object → type.isComposite = true := by
      rintro type (⟨isObject, _⟩ | ⟨isAbstract, _⟩) <;> simp [NamedType.isComposite, *]
    rw [Registry.field?, if_pos ⟨isTypeName, composite parent runsAs⟩] at isField
    rw [Registry.field?, if_pos ⟨isTypeName, composite object (runsAs_self registered)⟩]
    exact .inl isField
  · rcases runsAs with ⟨_, equal⟩ | ⟨isAbstract, _, isPossible⟩
    · exact .inl (equal ▸ isField)
    · have found := yields.lookup_of_mem known
      have isOwn : parent.field? name = some definition := by
        rcases field?_cases request.registry parent isTypeName with isOwn | ⟨isQuery, _⟩
        · exact isOwn ▸ isField
        · have root := yields.roots .query request.registry.query rfl
          rw [← isQuery, found, Option.some.injEq] at root
          exact absurd isAbstract (NamedType.not_isAbstract (root.2 ▸ root.1))
      rcases Option.bind_eq_some_iff.mp isOwn with ⟨fields, _, foundField⟩
      exact .inr ⟨isTypeName, (Named.find?_mem foundField).2,
        Registry.inherits_of_possible yields found isAbstract registered isPossible isOwn⟩

/-- What a type defines, the objects that are of it define too. -/
private theorem RunsAs.defined (yields : schema.Yields request.registry)
    (implemented : request.registry.FieldsImplemented)
    (registered : request.registry.object? object.name = some object) {parent : NamedType}
    (known : parent ∈ request.registry.types) (runsAs : request.RunsAs parent object)
    {name : String} {definition : FieldDefinition}
    (isField : request.registry.field? parent name = some definition) :
    ∃ own, request.registry.field? object name = some own := by
  rcases runsAs.has_or_inherits yields registered known isField with
    isOwn | ⟨notTypeName, isName, inherits⟩
  · exact ⟨definition, isOwn⟩
  · rcases implemented.field inherits with ⟨own, defined⟩
    rw [isName] at defined
    rcases field?_cases request.registry object notTypeName with plain | ⟨_, answer, isAnswer, _⟩
    · exact ⟨own, plain.trans defined⟩
    · exact ⟨answer, isAnswer⟩

/-- What an object defines stands for what the types that it is of define. -/
private theorem RunsAs.narrows (yields : schema.Yields request.registry)
    (narrow : request.registry.FieldsNarrow)
    (registered : request.registry.object? object.name = some object) {parent : NamedType}
    (known : parent ∈ request.registry.types) (runsAs : request.RunsAs parent object)
    {name : String} {own definition : FieldDefinition}
    (isField : request.registry.field? parent name = some definition)
    (isOwn : request.registry.field? object name = some own) :
    own.name = "__schema" ∨ own.name = "__type" ∨ request.Narrows own definition := by
  rcases runsAs.has_or_inherits yields registered known isField with
    isSame | ⟨notTypeName, isName, inherits⟩
  · exact .inr (.inr (.inl (Option.some.inj (isOwn.symm.trans isSame))))
  · rcases field?_cases request.registry object notTypeName with
      plain | ⟨_, answer, isAnswer, isMeta⟩
    · have isOwnField : object.field? definition.name = some own :=
        isName ▸ plain.symm.trans isOwn
      exact .inr (.inr (.inr (narrow.field inherits isOwnField)))
    · rw [isOwn, Option.some.injEq] at isAnswer
      exact isAnswer ▸ isMeta.imp_right .inl

/-- An object in the position of a narrower type is of the wider one. -/
private theorem Narrows.runsAs (yields : schema.Yields request.registry)
    {own definition : FieldDefinition}
    (narrows : request.Narrows own definition) {named inner : NamedType}
    (found : request.registry.lookup? own.type.typeName = some named)
    (runsAs : request.RunsAs named inner) :
    ∃ type, request.registry.resolve? definition.type = some type ∧ request.RunsAs type inner := by
  rcases narrows with equal | isSub
  · exact ⟨named, equal ▸ found, runsAs⟩
  · rcases Registry.isNamedSubType_of_isSubType isSub with
      sameName | ⟨superType, subType, isSuper, isSubType, isAbstract, isPossible⟩
    · exact ⟨named, (congrArg _ sameName.symm).trans found, runsAs⟩
    · have same : named = subType := Option.some.inj (found.symm.trans isSubType)
      subst same
      rcases yields.object_of_possible isPossible with ⟨object, isObject⟩
      have name : named.name = own.type.typeName := (Named.find?_mem found).2
      have registered := Registry.isObject_of_object? isObject
      rw [name, found, Option.some.injEq] at registered
      rw [← registered.1] at isObject
      have equal := runsAs.eq_of_isObject (registered.1 ▸ registered.2)
      exact ⟨superType, isSuper, .inr ⟨isAbstract, equal ▸ isObject, equal ▸ isPossible⟩⟩

private theorem definition_of_hasField {selected : SelectedField}
    (has : request.subject.HasField selected) {parent : NamedType}
    (isParent : selected.parent = some parent) :
    selected.definition = request.registry.field? parent selected.field.name := by
  rcases has with ⟨owner, around, selections, node, _, _, rfl⟩
  have isAround : around = some parent := isParent
  rw [isAround]
  rfl

private theorem registered_of_hasField (yields : schema.Yields request.registry)
    {selected : SelectedField} (has : request.subject.HasField selected) {parent : NamedType}
    (isParent : selected.parent = some parent) : parent ∈ request.registry.types := by
  rcases has with ⟨owner, around, selections, node, has, _, rfl⟩
  exact has.registered yields isParent

/-- Where a field is selected for an object it is defined by a type that the object is of. -/
theorem Fits.selected_on (accepted : request.subject.Accepted)
    (yields : schema.Yields request.registry) {selected : SelectedField}
    (has : request.subject.HasField selected) (fits : request.Fits object selected) :
    ∃ parent definition, parent ∈ request.registry.types ∧ request.RunsAs parent object ∧
      selected.parent = some parent ∧ selected.definition = some definition ∧
      request.registry.field? parent selected.field.name = some definition := by
  rcases fits with ⟨parent, isParent, runsAs⟩
  rcases accepted.defined selected has parent isParent with ⟨definition, isDefinition⟩
  exact ⟨parent, definition, registered_of_hasField yields has isParent, runsAs, isParent,
    isDefinition, (definition_of_hasField has isParent).symm.trans isDefinition⟩

/-- A field that fits an object is defined by it. -/
theorem Fits.defined (accepted : request.subject.Accepted) (yields : schema.Yields request.registry)
    (implemented : request.registry.FieldsImplemented)
    (registered : request.registry.object? object.name = some object) {selected : SelectedField}
    (has : request.subject.HasField selected) (fits : request.Fits object selected) :
    ∃ own, request.registry.field? object selected.field.name = some own := by
  rcases fits.selected_on accepted yields has with
    ⟨parent, definition, known, runsAs, _, _, isField⟩
  exact runsAs.defined yields implemented registered known isField

/-- The selections under merged fields suit an object that is of the types they are written on. -/
theorem Merges.suits_of_covers (accepted : request.subject.Accepted) {merged : List SelectedField}
    (merges : request.Merges object merged) {inner : NamedType}
    (covers : ∀ selected ∈ merged, ∃ type, selected.inner request.registry = some type ∧
      request.RunsAs type inner) :
    request.Suits inner (merged.map fun selected =>
      (selected.inner request.registry, selected.field.selections)) where
  has := by
    intro source isSource
    rcases List.mem_map.mp isSource with ⟨selected, member, rfl⟩
    exact ⟨_, (merges.has selected member).hasSelections⟩
  reached := by
    intro source isSource
    rcases List.mem_map.mp isSource with ⟨selected, member, rfl⟩
    rcases merges.reached selected member with ⟨definition, reaches, has⟩
    exact ⟨definition, _, reaches, has.hasSelections⟩
  covers := by
    intro source isSource
    rcases List.mem_map.mp isSource with ⟨selected, member, rfl⟩
    exact covers selected member
  mergeable := by
    intro left isLeft right isRight first second isFirst isSecond sameName
    rcases List.mem_map.mp isLeft with ⟨one, isOne, rfl⟩
    rcases List.mem_map.mp isRight with ⟨other, isOther, rfl⟩
    by_cases apart : first = second
    · exact .inl apart
    · refine .inr ?_
      rcases merges.mergeable one isOne other isOther with equal | mergeable
      · subst equal
        exact accepted.merges _ _ _ (merges.has one isOne).hasSelections first second isFirst
          isSecond apart sameName
      · have under := (Subject.not_cannotMerge_iff.mp mergeable).2
          ((merges.fits one isOne).together (merges.fits other isOther))
        exact under.2.2 first second (.inl isFirst) (.inr isSecond) apart sameName

/-- The selections under merged fields suit the objects that their value comes to. -/
theorem Merges.suits (accepted : request.subject.Accepted) (yields : schema.Yields request.registry)
    (narrow : request.registry.FieldsNarrow)
    (registered : request.registry.object? object.name = some object)
    {merged : List SelectedField} (merges : request.Merges object merged) {own : FieldDefinition}
    (defined : ∀ selected ∈ merged,
      request.registry.field? object selected.field.name = some own)
    (notSchema : own.name ≠ "__schema") (notType : own.name ≠ "__type") {named inner : NamedType}
    (found : request.registry.lookup? own.type.typeName = some named)
    (runsAs : request.RunsAs named inner) :
    request.Suits inner (merged.map fun selected =>
      (selected.inner request.registry, selected.field.selections)) := by
  refine merges.suits_of_covers accepted fun selected member => ?_
  rcases (merges.fits selected member).selected_on accepted yields (merges.has selected member)
    with ⟨parent, definition, known, parentRunsAs, _, isDefinition, isField⟩
  have narrows := parentRunsAs.narrows yields narrow registered known isField
    (defined selected member)
  rcases ((narrows.resolve_left notSchema).resolve_left notType).runsAs yields found runsAs with
    ⟨type, resolved, typeRunsAs⟩
  refine ⟨type, ?_, typeRunsAs⟩
  rw [SelectedField.inner, SelectedField.type?, isDefinition]
  exact resolved

/-- The top-level selections suit the root type. -/
theorem suits_root (accepted : request.subject.Accepted) (yields : schema.Yields request.registry)
    (member : request.operation ∈ request.document.operations) {root : NamedType}
    (isRoot : request.rootType? = some root) :
    request.Suits root [(some root, request.operation.selections)] := by
  have has : request.subject.HasSelections request.operation.position (some root)
      request.operation.selections := by
    have operation : request.subject.HasSelections request.operation.position
        request.rootType? request.operation.selections := .operation member
    exact isRoot ▸ operation
  have hasAlone : (request.subject.only (.operation request.operation)).HasSelections
      request.operation.position (some root) request.operation.selections := by
    have operation : (request.subject.only (.operation request.operation)).HasSelections
        request.operation.position request.rootType? request.operation.selections :=
      .operation (List.mem_singleton_self _)
    exact isRoot ▸ operation
  refine ⟨?_, ?_, ?_, ?_⟩
  · intro source isSource
    rw [List.mem_singleton.mp isSource]
    exact ⟨_, has⟩
  · intro source isSource
    rw [List.mem_singleton.mp isSource]
    exact ⟨_, _, .self, hasAlone⟩
  · intro source isSource
    rw [List.mem_singleton.mp isSource]
    exact ⟨root, rfl, .inl ⟨(yields.roots _ _ isRoot).1, rfl⟩⟩
  · intro left isLeft right isRight first second isFirst isSecond sameName
    rw [List.mem_singleton.mp isLeft] at isFirst
    rw [List.mem_singleton.mp isRight] at isSecond
    by_cases apart : first = second
    · exact .inl apart
    · exact .inr (accepted.merges _ _ _ has first second isFirst isSecond apart sameName)

end Request

end GraphQL
