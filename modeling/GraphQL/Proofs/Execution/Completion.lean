import GraphQL.Execution.Field
import GraphQL.Proofs.Execution.Collection
import GraphQL.Proofs.Execution.Tree
import GraphQL.Proofs.Fallible

/-!
What a value comes to at a position, apart from the tree it is written into: an error, null, a leaf,
items, or an object of some type. Completing a value writes down just that.
-/

namespace GraphQL

theorem TypeRef.sizeOf_listItem_lt {type item : TypeRef}
    (isList : type.nullable.listItem? = some item) : sizeOf item < sizeOf type := by
  have unwrapped : ∀ type : TypeRef, sizeOf type.nullable ≤ sizeOf type := by
    intro type
    cases type <;> simp [nullable]
  have item_lt : ∀ type : TypeRef, type.listItem? = some item → sizeOf item < sizeOf type := by
    intro type isItem
    have inside := unwrapped type
    rw [listItem?] at isItem
    cases isNullable : type.nullable with
    | list inner =>
        rw [isNullable] at isItem inside
        cases isItem
        simp only [list.sizeOf_spec] at inside
        omega
    | _ => rw [isNullable] at isItem; cases isItem
  exact (item_lt _ isList).trans_le (unwrapped type)

/-- What a value comes to in the position of a type. -/
inductive Verdict where
  | failure (error : ResponseError)
  | null
  | leaf (value : Json)
  | items (item : TypeRef) (values : List FieldValue)
  | object (object : NamedType)

/-! ## Serialized values -/

private theorem FieldValue.inner_isNull : ∀ value : FieldValue, value.inner.isNull = value.isNull
  | .typed value _ => inner_isNull value
  | .null => rfl
  | .json _ => rfl
  | .list _ => rfl
  | .owned _ => rfl

/-- What a type may make of JSON when it serializes it. -/
def TypeShape.Makes (plain json : Json) : TypeShape → Prop
  | .scalar shape => shape.serialize plain = .ok json
  | .enum values =>
      ∃ name, EnumValueDefinition.serialize? values plain = some name ∧ json = .string name
  | _ => json = plain

namespace Request

private theorem leafJson_isNull {value : FieldValue} {typeName : String} {json : Json}
    (isLeaf : leafJson value typeName = .ok json) : json.isNull = value.isNull := by
  rw [leafJson, FieldValue.asJson?] at isLeaf
  rw [← value.inner_isNull]
  cases isInner : value.inner with
  | json inner =>
      rw [isInner] at isLeaf
      cases isLeaf
      rfl
  | _ => rw [isInner] at isLeaf; cases isLeaf

/-- A serialized value is what its type makes of its JSON. -/
theorem serialize_ok {type : NamedType} {shape : TypeShape} {value : FieldValue} {json : Json}
    (serialized : serialize type shape value = .ok json) :
    ∃ plain : Json, plain.isNull = value.isNull ∧ shape.Makes plain json := by
  rw [serialize] at serialized
  cases isLeaf : leafJson value type.name with
  | error message =>
      rw [isLeaf] at serialized
      cases serialized
  | ok plain =>
      refine ⟨plain, leafJson_isNull isLeaf, ?_⟩
      rw [isLeaf] at serialized
      cases shape with
      | scalar scalar => exact serialized
      | enum values =>
          simp only [bind, Except.bind] at serialized
          cases found : EnumValueDefinition.serialize? values plain with
          | none =>
              rw [found] at serialized
              cases serialized
          | some name =>
              rw [found] at serialized
              cases serialized
              exact ⟨name, found, rfl⟩
      | _ =>
          cases serialized
          rfl

/-! ## Verdicts -/

/-- What a value that is neither null nor a list comes to in the position of a named type. -/
def judgeNamed (request : Request) (call : FieldCall) (typeName : String) (value : FieldValue) :
    Except String Verdict :=
  match request.registry.lookup? typeName with
  | none => .error s!"Unknown type \"{typeName}\"."
  | some type =>
      match type.shape with
      | .inputObject _ =>
          .error s!"Input object \"{type.name}\" cannot be returned by field \"{call.coordinate}\"."
      | .object _ => .ok (.object type)
      | .interface _ => (request.runtimeType call type value).map .object
      | .union _ => (request.runtimeType call type value).map .object
      | shape => (serialize type shape value).map .leaf

def judge (request : Request) (call : FieldCall) (type : TypeRef) (value : FieldValue) :
    Verdict :=
  if value.isNull then
    if type.isNonNull then
      .failure (completionError
        s!"Cannot return null for non-nullable field {call.coordinate}.")
    else .null
  else
    match type.nullable.listItem? with
    | some item =>
        match value.items? with
        | some values => .items item values
        | none =>
            .failure (completionError
              s!"Expected Iterable, but did not find one for field \"{call.coordinate}\".")
    | none =>
        match request.judgeNamed call type.typeName value with
        | .ok verdict => verdict
        | .error message => .failure (completionError message)

/-- The object types that a type stands for at runtime. -/
def RunsAs (request : Request) (type object : NamedType) : Prop :=
  (type.isObject = true ∧ object = type) ∨
  (type.isAbstract = true ∧ request.registry.object? object.name = some object ∧
    request.registry.isPossible type object.name = true)

/-- When a value comes to what. -/
inductive Judged (request : Request) (type : TypeRef) (value : FieldValue) : Verdict → Prop
  | failure (error : ResponseError) : Judged request type value (.failure error)
  | null (isNull : value.isNull = true) (mayBeNull : type.isNonNull = false) :
      Judged request type value .null
  | items {item : TypeRef} {values : List FieldValue} (notNull : value.isNull = false)
      (isList : type.nullable.listItem? = some item) (iterable : value.items? = some values) :
      Judged request type value (.items item values)
  | leaf {named : NamedType} {json : Json} (notNull : value.isNull = false)
      (isSingle : type.nullable.listItem? = none)
      (registered : request.registry.lookup? type.typeName = some named)
      (isLeaf : named.isLeaf = true) (serialized : serialize named named.shape value = .ok json) :
      Judged request type value (.leaf json)
  | object {named object : NamedType} (notNull : value.isNull = false)
      (isSingle : type.nullable.listItem? = none)
      (registered : request.registry.lookup? type.typeName = some named)
      (runsAs : request.RunsAs named object) : Judged request type value (.object object)

private theorem runtimeType_ok {request : Request} {call : FieldCall} {type object : NamedType}
    {value : FieldValue} (resolved : request.runtimeType call type value = .ok object) :
    request.registry.object? object.name = some object ∧
      request.registry.isPossible type object.name = true := by
  unfold runtimeType at resolved
  cases named : request.runtimeTypeName? type value with
  | none => rw [named] at resolved; cases resolved
  | some name =>
      rw [named] at resolved
      simp only at resolved
      cases known : request.registry.object? name with
      | none => rw [known] at resolved; cases resolved
      | some found =>
          rw [known] at resolved
          simp only at resolved
          split at resolved
          · rename_i possible
            cases resolved
            have registered := (Option.filter_eq_some_iff.mp known).1
            have sameName : object.name = name := (Named.find?_mem registered).2
            rw [← sameName] at known possible
            exact ⟨known, possible⟩
          · cases resolved

private theorem judgeNamed_judged {request : Request} {call : FieldCall} {type : TypeRef}
    {value : FieldValue} {verdict : Verdict} (notNull : value.isNull = false)
    (isSingle : type.nullable.listItem? = none)
    (judged : request.judgeNamed call type.typeName value = .ok verdict) :
    request.Judged type value verdict := by
  rw [judgeNamed] at judged
  cases registered : request.registry.lookup? type.typeName with
  | none => rw [registered] at judged; cases judged
  | some named =>
      rw [registered] at judged
      simp only at judged
      cases isShape : named.shape with
      | inputObject fields =>
          rw [isShape] at judged
          cases judged
      | object shape =>
          rw [isShape] at judged
          cases judged
          have isObject : named.isObject = true := by rw [NamedType.isObject, isShape]
          exact .object notNull isSingle registered (.inl ⟨isObject, rfl⟩)
      | interface | union =>
          rw [isShape] at judged
          rcases map_eq_ok.mp judged with ⟨object, resolved, rfl⟩
          have isAbstract : named.isAbstract = true := by rw [NamedType.isAbstract, isShape]
          exact .object notNull isSingle registered (.inr ⟨isAbstract, runtimeType_ok resolved⟩)
      | scalar | enum =>
          rw [isShape] at judged
          rcases map_eq_ok.mp judged with ⟨json, serialized, rfl⟩
          have isLeaf : named.isLeaf = true := by rw [NamedType.isLeaf, isShape]
          exact .leaf notNull isSingle registered isLeaf (isShape ▸ serialized)

theorem judge_judged (request : Request) (call : FieldCall) (type : TypeRef) (value : FieldValue) :
    request.Judged type value (request.judge call type value) := by
  rw [judge]
  cases isNull : value.isNull with
  | true =>
      cases required : type.isNonNull with
      | true => exact .failure _
      | false => exact .null isNull required
  | false =>
      simp only [Bool.false_eq_true, if_false]
      cases isList : type.nullable.listItem? with
      | some item =>
          cases iterable : value.items? with
          | some values => exact .items isNull isList iterable
          | none => exact .failure _
      | none =>
          cases judged : request.judgeNamed call type.typeName value with
          | ok verdict => exact judgeNamed_judged isNull isList judged
          | error message => exact .failure _

/-- The object type that a value comes to is registered. -/
theorem RunsAs.registered {request : Request} {named object : NamedType} {name : String}
    (runsAs : request.RunsAs named object) (found : request.registry.lookup? name = some named) :
    (request.registry.lookup? object.name).isSome = true := by
  rcases runsAs with ⟨_, equal⟩ | ⟨_, known, _⟩
  · subst equal
    have sameName : object.name = name := (Named.find?_mem found).2
    rw [sameName, found]
    rfl
  · rw [(Option.filter_eq_some_iff.mp known).1]
    rfl

/-- Completing a value writes down what it comes to. -/
def complete (request : Request) (task : FieldTask) (node : NodeId) (value : FieldValue)
    (draft : Draft) : Verdict → Expanded
  | .failure error => (draft.fail task node error, [])
  | .null => (draft.set node .null, [])
  | .leaf json => (draft.set node (.leaf json), [])
  | .object object => request.expandObject node object task.selectionSets value draft
  | .items item values =>
      let (nodes, tree) := draft.tree.addItems node item values.length
      completeItems (request.completeValue task item) (nodes.zip values) { draft with tree := tree }

private theorem completeSingle_eq (request : Request) (task : FieldTask) (typeName : String)
    (node : NodeId) (value : FieldValue) (draft : Draft) :
    request.completeSingle task typeName node value draft =
      request.complete task node value draft
        (match request.judgeNamed task.toFieldCall typeName value with
          | .ok verdict => verdict
          | .error message => .failure (completionError message)) := by
  rw [completeSingle, completeNamed, judgeNamed]
  cases request.registry.lookup? typeName with
  | none => rfl
  | some type =>
      simp only
      cases type.shape with
      | inputObject | object => rfl
      | interface | union => cases request.runtimeType task.toFieldCall type value <;> rfl
      | scalar shape =>
          simp only
          cases serialize type (.scalar shape) value <;> rfl
      | enum values =>
          simp only
          cases serialize type (.enum values) value <;> rfl

/-- The wrappers of a type decide between a list and a single value. -/
private theorem completeValue_unwrap (request : Request) (task : FieldTask) (type : TypeRef) :
    request.completeValue task type =
      unlessNull task type.isNonNull
        (match type.nullable.listItem? with
          | some item => completeList task item (request.completeValue task item)
          | none => request.completeSingle task type.typeName) := by
  cases type with
  | nonNull inner =>
      cases inner with
      | nonNull innermost => cases innermost <;> rfl
      | _ => rfl
  | _ => rfl

theorem completeValue_eq (request : Request) (task : FieldTask) (type : TypeRef) (node : NodeId)
    (value : FieldValue) (draft : Draft) :
    request.completeValue task type node value draft =
      request.complete task node value draft (request.judge task.toFieldCall type value) := by
  rw [completeValue_unwrap, unlessNull, judge]
  cases value.isNull with
  | true =>
      simp only [if_true]
      cases type.isNonNull <;> rfl
  | false =>
      simp only [Bool.false_eq_true, if_false]
      cases type.nullable.listItem? with
      | none => exact request.completeSingle_eq task type.typeName node value draft
      | some item =>
          simp only [completeList]
          cases value.items? <;> rfl

end Request

/-! ## Objects -/

/-- A field of an object that is about to be attached. -/
structure Slot where
  key : String
  definition : FieldDefinition
  fields : List Field

namespace Slot

instance : Named Slot := ⟨Slot.key⟩

/-- Whether the field is answered on the spot with the name of the object type. -/
def isTypeName (slot : Slot) : Bool := ((slot.fields.head?).map Field.name).getD "" == "__typename"

/-- The call of a field that has to be resolved. -/
def call (objectName : String) (parent : FieldValue) (slot : Slot) : FieldCall :=
  ⟨objectName, slot.definition, slot.fields, parent⟩

def sprout (objectName : String) (slot : Slot) : Tree.Sprout :=
  ⟨.key slot.key, slot.definition.type,
    if slot.isTypeName then .leaf (.string objectName) else .pending⟩

/-- The task of a numbered field, if it has to be resolved. -/
def task? (objectName : String) (parent : FieldValue) (slot : Slot × NodeId) : Option FieldTask :=
  if slot.1.isTypeName then none else some ⟨slot.1.call objectName parent, slot.2⟩

end Slot

namespace Tree

/-- Attach the fields of an object. -/
def attachSlots (tree : Tree) (parent : NodeId) (isRoot : Bool) (objectName : String)
    (slots : List Slot) : Tree :=
  tree.attach parent
    (fieldsContent isRoot
      ((slots.zipIdx tree.nodes.size).map fun slot => (slot.1.key, slot.2)))
    (slots.map (Slot.sprout objectName))

section AttachSlots

variable (tree : Tree) {parent : NodeId} (isRoot : Bool) (objectName : String) (slots : List Slot)

/-- The tree with one more slot, whose field may have other content. -/
def attachNext (parent : NodeId) (slot : Slot) (content : NodeContent) : Tree :=
  tree.attach parent
    (fieldsContent isRoot
      (((slots.zipIdx tree.nodes.size).map fun slot => (slot.1.key, slot.2)) ++
        [(slot.key, tree.nodes.size + slots.length)]))
    (slots.map (Slot.sprout objectName) ++ [⟨.key slot.key, slot.definition.type, content⟩])

theorem attachSlots_concat (slot : Slot) :
    tree.attachSlots parent isRoot objectName (slots ++ [slot]) =
      tree.attachNext isRoot objectName slots parent slot (slot.sprout objectName).content := by
  simp [attachSlots, attachNext, List.zipIdx_append, Slot.sprout]

/-- A field is added to the fields of an object. -/
theorem addField_attachSlots (known : parent < tree.nodes.size) (slot : Slot)
    (fresh : slot.key ∉ Named.names slots) :
    (tree.attachSlots parent isRoot objectName slots).addField parent slot.key
        slot.definition.type =
      (tree.nodes.size + slots.length,
        tree.attachNext isRoot objectName slots parent slot .pending) := by
  have freshName : slot.key ∉ Named.names
      ((slots.zipIdx tree.nodes.size).map fun slot => (slot.1.key, slot.2)) := by
    intro listed
    rcases List.mem_map.mp listed with ⟨entry, numbered, isName⟩
    rcases List.mem_map.mp numbered with ⟨other, stands, isEntry⟩
    apply fresh
    exact List.mem_map.mpr ⟨other.1, List.fst_mem_of_mem_zipIdx stands, by
      rw [← isName, ← isEntry]; rfl⟩
  rw [attachSlots, addField_attach _ known isRoot _ freshName, List.length_map]
  rfl

/-- The field that was added last is given content. -/
theorem set_attachNext (known : parent < tree.nodes.size) (slot : Slot)
    (before after : NodeContent) :
    (tree.attachNext isRoot objectName slots parent slot before).set
        (tree.nodes.size + slots.length) after =
      tree.attachNext isRoot objectName slots parent slot after := by
  have last := tree.set_last_attach known
    (fieldsContent isRoot
      (((slots.zipIdx tree.nodes.size).map fun slot => (slot.1.key, slot.2)) ++
        [(slot.key, tree.nodes.size + slots.length)]))
    before after (slots.map (Slot.sprout objectName)) (.key slot.key) slot.definition.type
  rw [List.length_map] at last
  exact last

end AttachSlots

end Tree

namespace Request

/-- The slot of a group, unless the object has no such field. -/
def slot? (request : Request) (object : NamedType) (group : FieldGroup) : Option Slot :=
  (request.registry.field? object (((group.2.head?).map Field.name).getD "")).map
    fun definition => ⟨group.1, definition, group.2⟩

/-- The fields that selection sets select on an object, in order. -/
def slots (request : Request) (object : NamedType) (sets : List (List Selection)) : List Slot :=
  match request.registry.lookup? object.name with
  | none => []
  | some named => (request.collectFields object.name sets).filterMap (request.slot? named)

/-- A draft with the fields of an object, and their tasks. -/
def withSlots (node : NodeId) (isRoot : Bool) (objectName : String) (parent : FieldValue)
    (draft : Draft) (slots : List Slot) : Expanded :=
  ({ draft with tree := draft.tree.attachSlots node isRoot objectName slots },
    (slots.zipIdx draft.tree.nodes.size).filterMap (Slot.task? objectName parent))

private theorem addGroup_withSlots (request : Request) {node : NodeId} {isRoot : Bool}
    {object : NamedType} {parent : FieldValue} {draft : Draft}
    (known : node < draft.tree.nodes.size) (slots : List Slot) {group : FieldGroup}
    (fresh : group.1 ∉ Named.names slots) :
    request.addGroup node object parent (withSlots node isRoot object.name parent draft slots)
        group =
      withSlots node isRoot object.name parent draft
        (slots ++ (request.slot? object group).toList) := by
  rw [addGroup, slot?, withSlots]
  simp only
  cases request.registry.field? object (((group.2.head?).map Field.name).getD "") with
  | none => simp [withSlots]
  | some definition =>
      have added := draft.tree.addField_attachSlots isRoot object.name slots known
        ⟨group.1, definition, group.2⟩ fresh
      simp only at added
      simp only [added]
      by_cases isTypeName : ((group.2.head?).map Field.name).getD "" = "__typename"
      · rw [if_pos isTypeName, draft.tree.set_attachNext isRoot object.name slots known]
        simp [withSlots, Tree.attachSlots_concat, List.zipIdx_append, Slot.sprout, Slot.task?,
          Slot.isTypeName, isTypeName]
      · rw [if_neg isTypeName]
        simp [withSlots, Tree.attachSlots_concat, List.zipIdx_append, Slot.sprout, Slot.task?,
          Slot.isTypeName, isTypeName, Slot.call]

private theorem slot?_key {request : Request} {object : NamedType} {group : FieldGroup}
    {slot : Slot} (isSlot : request.slot? object group = some slot) :
    slot.key = group.1 ∧ slot.fields = group.2 := by
  rcases Option.map_eq_some_iff.mp isSlot with ⟨definition, _, equal⟩
  subst equal
  exact ⟨rfl, rfl⟩

private theorem foldl_addGroup (request : Request) {node : NodeId} {isRoot : Bool}
    {object : NamedType} {parent : FieldValue} {draft : Draft}
    (known : node < draft.tree.nodes.size) (groups : List FieldGroup) :
    ∀ slots : List Slot, (Named.names slots ++ Named.names groups).Nodup →
      groups.foldl (request.addGroup node object parent)
          (withSlots node isRoot object.name parent draft slots) =
        withSlots node isRoot object.name parent draft
          (slots ++ groups.filterMap (request.slot? object)) := by
  induction groups with
  | nil =>
      intro slots _
      rw [List.foldl_nil, List.filterMap_nil, List.append_nil]
  | cons group groups induction =>
      intro slots distinct
      have apart := List.nodup_append.mp distinct
      have fresh : group.1 ∉ Named.names slots := fun listed =>
        apart.2.2 group.1 listed group.1 List.mem_cons_self rfl
      rw [List.foldl_cons, addGroup_withSlots request known slots fresh, induction]
      · rw [List.filterMap_cons]
        cases request.slot? object group <;> simp
      · cases isSlot : request.slot? object group with
        | none =>
            rw [Option.toList_none, List.append_nil]
            exact distinct.sublist ((List.Sublist.refl _).append (List.sublist_cons_self _ _))
        | some slot =>
            have key := (slot?_key isSlot).1
            have same : Named.names (slots ++ [slot]) ++ Named.names groups =
                Named.names slots ++ Named.names (group :: groups) := by
              simp [Named.names, nameOf, key]
            rw [Option.toList_some, same]
            exact distinct

/-- Expanding an object attaches its slots. -/
theorem expandObject_eq (request : Request) {node : NodeId} (isRoot : Bool) {object : NamedType}
    {sets : List (List Selection)} {parent : FieldValue} {draft : Draft} {before : Node}
    (registered : (request.registry.lookup? object.name).isSome)
    (found : draft.tree.node? node = some before)
    (isOpen : before.content = if isRoot then .root [] else .pending) :
    request.expandObject node object sets parent draft =
      withSlots node isRoot object.name parent draft (request.slots object sets) := by
  rcases Option.isSome_iff_exists.mp registered with ⟨named, isNamed⟩
  have sameName : named.name = object.name := (Named.find?_mem isNamed).2
  have start : ({ draft with tree := draft.tree.makeObject node }, []) =
      withSlots node isRoot named.name parent draft [] := by
    rw [Tree.makeObject_eq found isOpen]
    rfl
  rw [expandObject, slots, isNamed]
  simp only
  rw [start, foldl_addGroup request (Tree.node?_lt found), sameName, List.nil_append]
  exact request.collectFields_distinct object.name sets

theorem mem_slots {request : Request} {object : NamedType} {sets : List (List Selection)}
    {slot : Slot} (member : slot ∈ request.slots object sets) :
    ∃ named, request.registry.lookup? object.name = some named ∧
      (slot.key, slot.fields) ∈ request.collectFields object.name sets ∧
      request.registry.field? named (((slot.fields.head?).map Field.name).getD "") =
        some slot.definition := by
  rw [slots] at member
  cases isNamed : request.registry.lookup? object.name with
  | none => simp [isNamed] at member
  | some named =>
      simp only [isNamed] at member
      rcases List.mem_filterMap.mp member with ⟨group, collected, isSlot⟩
      rcases Option.map_eq_some_iff.mp isSlot with ⟨definition, defined, equal⟩
      subst equal
      exact ⟨named, rfl, collected, defined⟩

private theorem names_slots_sublist (request : Request) (object : NamedType)
    (groups : List FieldGroup) :
    (Named.names (groups.filterMap (request.slot? object))).Sublist (Named.names groups) := by
  induction groups with
  | nil => exact List.Sublist.slnil
  | cons group groups induction =>
      rw [List.filterMap_cons]
      cases isSlot : request.slot? object group with
      | none => exact induction.cons _
      | some slot =>
          have key : slot.key = group.1 := (slot?_key isSlot).1
          have heads : Named.names (slot :: groups.filterMap (request.slot? object)) =
              group.1 :: Named.names (groups.filterMap (request.slot? object)) := by
            rw [← key]
            rfl
          simp only [heads]
          exact induction.cons_cons _

theorem slots_distinct (request : Request) (object : NamedType) (sets : List (List Selection)) :
    (Named.names (request.slots object sets)).Nodup := by
  rw [slots]
  cases request.registry.lookup? object.name with
  | none => exact List.nodup_nil
  | some named =>
      exact List.Nodup.sublist (request.names_slots_sublist named _)
        (request.collectFields_distinct object.name sets)

/-! ### The tasks that completion leads to -/

/-- The fields of a task are a group that was collected from selection sets. -/
def CollectedFrom (request : Request) (sets : List (List Selection)) (task : FieldTask) : Prop :=
  ∃ objectName, ∃ group ∈ request.collectFields objectName sets, task.fields = group.2

theorem expandObject_collected (request : Request) (node : NodeId) (object : NamedType)
    (sets : List (List Selection)) (parent : FieldValue) (draft : Draft) :
    ∀ task ∈ (request.expandObject node object sets parent draft).2,
      request.CollectedFrom sets task := by
  rw [expandObject]
  cases request.registry.lookup? object.name with
  | none => simp
  | some named =>
      simp only
      apply List.foldlRecOn (motive := fun expanded : Expanded =>
        ∀ task ∈ expanded.2, request.CollectedFrom sets task)
      · simp
      · intro expanded known group collected task member
        rw [addGroup] at member
        simp only at member
        split at member
        · exact known task member
        · split at member
          · exact known task member
          · rcases List.mem_append.mp member with earlier | added
            · exact known task earlier
            · rw [List.mem_singleton.mp added]
              exact ⟨object.name, group, collected, rfl⟩

private theorem completeItems_tasks {holds : FieldTask → Prop} {completeItem : Completion}
    (item : ∀ node value draft, ∀ task ∈ (completeItem node value draft).2, holds task) :
    ∀ (items : List (NodeId × FieldValue)) (draft : Draft),
      ∀ task ∈ (completeItems completeItem items draft).2, holds task := by
  intro items
  induction items with
  | nil => simp [completeItems]
  | cons entry items induction =>
      intro draft task member
      rw [completeItems] at member
      split at member
      · cases member
      · rcases List.mem_append.mp member with first | later
        · exact item _ _ _ task first
        · exact induction _ task later

private theorem completeValue_collected (request : Request) (task : FieldTask) (type : TypeRef)
    (node : NodeId) (value : FieldValue) (draft : Draft) :
    ∀ next ∈ (request.completeValue task type node value draft).2,
      request.CollectedFrom task.selectionSets next := by
  have judged := request.judge_judged task.toFieldCall type value
  rw [completeValue_eq]
  generalize request.judge task.toFieldCall type value = verdict at judged
  cases judged with
  | failure => simp [complete]
  | null => simp [complete]
  | leaf => simp [complete]
  | object => exact request.expandObject_collected _ _ _ _ _
  | items _ isList _ =>
      have smaller := TypeRef.sizeOf_listItem_lt isList
      exact completeItems_tasks (fun _ _ _ => completeValue_collected request task _ _ _ _) _ _
termination_by sizeOf type

/-- The tasks that finishing a task leads to are those of fields under its own. -/
theorem finish_collected {request : Request} {task : FieldTask} {resolution : Resolution}
    {draft later : Draft} {next : List FieldTask}
    (finished : request.finish task resolution draft = .ok (later, next)) :
    ∀ other ∈ next, request.CollectedFrom task.selectionSets other := by
  unfold finish at finished
  split at finished
  · cases finished
    simp
  · split at finished
    · split at finished
      · cases finished
      · cases finished
        simp
    · cases finished
      simp
    · cases finished
      simp
    · split at finished
      · cases finished
        simp
      · have completed := request.completeValue_collected task task.definition.type task.node
        intro other member
        rw [show next = _ from congrArg Prod.snd (Except.ok.inj finished).symm] at member
        exact completed _ draft other member

/-! ### The root object -/

def rootName (request : Request) : String := (request.rootType?.map NamedType.name).getD ""

/-- The top-level fields. -/
def rootSlots (request : Request) : List Slot :=
  (request.rootType?.map fun object =>
    request.slots object [request.operation.selections]).getD []

theorem rootSlots_distinct (request : Request) : (Named.names request.rootSlots).Nodup := by
  rw [rootSlots]
  cases request.rootType? with
  | none => exact List.nodup_nil
  | some object => exact request.slots_distinct object _

/-- The top-level fields are attached to the root. -/
theorem rootTasks_eq (request : Request) (rootValue : FieldValue) :
    request.rootTasks rootValue =
      withSlots Tree.rootId true request.rootName rootValue {} request.rootSlots := by
  rw [rootTasks, rootName, rootSlots]
  cases request.rootType? with
  | none => rfl
  | some object =>
      simp only [Option.map_some, Option.getD_some]
      cases registered : request.registry.lookup? object.name with
      | none =>
          rw [expandObject, slots, registered]
          rfl
      | some named =>
          exact request.expandObject_eq true (by rw [registered]; rfl) rfl rfl

end Request

/-! ## Attaching children -/

theorem Tree.attachSlots_fits {tree : Tree} {node : Node} (isRoot : Bool)
    (isOpen : node.content = if isRoot then .root [] else .pending) (objectName : String)
    {slots : List Slot} (distinct : (Named.names slots).Nodup) :
    tree.Fits node
      (fieldsContent isRoot ((slots.zipIdx tree.nodes.size).map fun slot => (slot.1.key, slot.2)))
      (slots.map (Slot.sprout objectName)) where
  isOpen := by
    rw [isOpen]
    cases isRoot with
    | false => exact .pending
    | true => exact .root
  isRoot isRootContent := by
    cases isRoot with
    | false => rw [isOpen] at isRootContent; cases isRootContent
    | true => exact ⟨_, rfl⟩
  lists := by
    rw [fieldsContent_children, List.zipIdx_map, List.map_map, List.map_map]
    rfl
  distinct := by
    have segments : (slots.map (Slot.sprout objectName)).map Sprout.segment =
        (Named.names slots).map PathSegment.key := by
      rw [Named.names, List.map_map, List.map_map]
      rfl
    rw [segments]
    exact distinct.map fun _ _ equal => PathSegment.key.inj equal
  childless := by
    intro sprout member
    rcases List.mem_map.mp member with ⟨slot, _, equal⟩
    subst equal
    rw [Slot.sprout]
    split <;> rfl

theorem Tree.addItems_fits {tree : Tree} {node : Node} (isPending : node.content = .pending)
    (item : TypeRef) (count : Nat) :
    tree.Fits node (.array (List.range' tree.nodes.size count)) (itemSprouts item 0 count) where
  isOpen := isPending ▸ .pending
  isRoot isRoot := by rw [isPending] at isRoot; cases isRoot
  lists := by
    rw [itemSprouts, List.zipIdx_map, List.map_map]
    apply List.ext_getElem?
    intro index
    simp only [NodeContent.children, List.getElem?_map, List.getElem?_zipIdx]
    by_cases inside : index < count <;> simp [inside]
  distinct := by
    rw [itemSprouts, List.map_map]
    exact List.Nodup.map (fun _ _ equal => PathSegment.index.inj equal) List.nodup_range'
  childless := by
    intro sprout member
    rcases List.mem_map.mp member with ⟨index, _, equal⟩
    subst equal
    rfl

end GraphQL
