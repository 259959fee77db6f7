import GraphQL.Proofs.Execution.Failures
import GraphQL.Proofs.Execution.Merged

/-!
The objects that are expanded in the course of an accepted request, whatever its resolvers answer
and in whatever order. The fields of a group agree, each of them is defined, and the object shows
them all in the order of first mention.
-/

namespace GraphQL

theorem TypeRef.typeName_listItem {type item : TypeRef}
    (isList : type.nullable.listItem? = some item) : item.typeName = type.typeName := by
  have nullable : ∀ type : TypeRef, type.nullable.typeName = type.typeName := by
    intro type
    cases type <;> rfl
  rw [← nullable type, ← nullable type.nullable]
  rw [listItem?] at isList
  split at isList
  · rename_i isItem
    rw [isItem, ← Option.some.inj isList]
    rfl
  · cases isList

namespace Request

/-- An object was expanded at a node on the way to a state, for some selection sets. -/
inductive Expands (request : Request) (rootValue : FieldValue) :
    Progress → NodeId → NamedType → List (List Selection) → Prop
  | root {object : NamedType} {after : Progress} (isRoot : request.rootType? = some object)
      (later : request.Steps anyAnswer (request.initial rootValue).progress after) :
      Expands request rootValue after Tree.rootId object [request.operation.selections]
  | value {draft : Draft} {duty : Duty} {duties : Multiset Duty} {object : NamedType}
      {after : Progress}
      (earlier : request.Steps anyAnswer (request.initial rootValue).progress
        (draft, duty ::ₘ duties))
      (live : draft.tree.isDiscarded duty.node = false)
      (comes : request.Comes anyAnswer (draft.tree.path duty.node) duty (.object object))
      (later : request.Steps anyAnswer
        ((request.perform duty draft (.object object)).1,
          ((request.perform duty draft (.object object)).2 : Multiset Duty) + duties) after) :
      Expands request rootValue after duty.node object duty.task.selectionSets

/-! ## Accepted requests -/

/-- A request that was accepted, for a schema whose objects have fields of their interfaces only
with types that can stand for those of the interfaces. -/
structure Checked (request : Request) (schema : Schema) : Prop where
  yields : schema.Yields request.registry
  narrow : request.registry.FieldsNarrow
  accepted : request.subject.Accepted
  operation : request.operation ∈ request.document.operations

/-- Selection sets that suit an object of the schema. -/
private def Grounded (request : Request) (object : NamedType) (sets : List (List Selection)) :
    Prop :=
  request.registry.object? object.name = some object ∧
    ∃ sources, sources.map Prod.snd = sets ∧ request.Suits object sources

variable {request : Request} {schema : Schema} {object : NamedType} {sets : List (List Selection)}
  {group : FieldGroup}

namespace Grounded

private theorem merges (grounded : request.Grounded object sets)
    (collected : group ∈ request.collectFields object.name sets) :
    ∃ merged, merged.map SelectedField.field = group.2 ∧ request.Merges object merged := by
  rcases grounded with ⟨registered, sources, isSets, suits⟩
  exact suits.merges registered (isSets ▸ collected)

private theorem agree (grounded : request.Grounded object sets)
    (collected : group ∈ request.collectFields object.name sets) {first second : Field}
    (isFirst : first ∈ group.2) (isSecond : second ∈ group.2) :
    first.name = second.name ∧ first.arguments.SameTexts second.arguments := by
  rcases grounded.merges collected with ⟨merged, isMap, merges⟩
  rw [← isMap] at isFirst isSecond
  rcases List.mem_map.mp isFirst with ⟨left, isLeft, rfl⟩
  rcases List.mem_map.mp isSecond with ⟨right, isRight, rfl⟩
  exact merges.same isLeft isRight

private theorem head_name (grounded : request.Grounded object sets)
    (collected : group ∈ request.collectFields object.name sets) {field : Field}
    (member : field ∈ group.2) : ((group.2.head?).map Field.name).getD "" = field.name := by
  cases isHead : group.2.head? with
  | none => exact absurd (List.head?_eq_none_iff.mp isHead) (List.ne_nil_of_mem member)
  | some head => exact (grounded.agree collected (List.mem_of_head? isHead) member).1

/-- The object defines the field of every group. -/
private theorem defined (checked : request.Checked schema)
    (implemented : request.registry.FieldsImplemented) (grounded : request.Grounded object sets)
    (collected : group ∈ request.collectFields object.name sets) :
    ∃ own, request.registry.field? object (((group.2.head?).map Field.name).getD "") =
      some own := by
  rcases grounded.merges collected with ⟨merged, isMap, merges⟩
  have notEmpty := collectFields_ne_nil collected
  rcases List.exists_mem_of_ne_nil _ notEmpty with ⟨field, member⟩
  rw [grounded.head_name collected member]
  rw [← isMap] at member
  rcases List.mem_map.mp member with ⟨selected, isSelected, rfl⟩
  rcases (merges.fits selected isSelected).defined checked.accepted checked.yields
    implemented grounded.1 (merges.has selected isSelected) with ⟨own, isOwn⟩
  exact ⟨own, isOwn⟩

private theorem slots_eq (grounded : request.Grounded object sets) :
    request.slots object sets =
      (request.collectFields object.name sets).filterMap (request.slot? object) := by
  rw [slots, (Registry.isObject_of_object? grounded.1).1]

private theorem names_slots (checked : request.Checked schema)
    (implemented : request.registry.FieldsImplemented) (grounded : request.Grounded object sets) :
    Named.names (request.slots object sets) =
      Named.names (request.collectFields object.name sets) := by
  have kept : ∀ groups : List FieldGroup,
      (∀ group ∈ groups, group ∈ request.collectFields object.name sets) →
      Named.names (groups.filterMap (request.slot? object)) = Named.names groups := by
    intro groups
    induction groups with
    | nil => exact fun _ => rfl
    | cons group groups induction =>
        intro collected
        rcases grounded.defined checked implemented (collected group List.mem_cons_self) with
          ⟨own, isOwn⟩
        have isSlot : request.slot? object group = some ⟨group.1, own, group.2⟩ := by
          simp [slot?, isOwn]
        rw [List.filterMap_cons_some isSlot]
        apply congrArg (List.cons group.1)
        exact induction fun other member => collected other (List.mem_cons_of_mem group member)
  rw [grounded.slots_eq]
  exact kept _ fun _ member => member

end Grounded

/-! ## Calls -/

/-- A call of one field of an object, for merged fields of the document. -/
def Stands (request : Request) (call : FieldCall) : Prop :=
  call.fields ≠ [] ∧ ∃ object merged, request.registry.object? object.name = some object ∧
    call.parentType = object.name ∧ merged.map SelectedField.field = call.fields ∧
    request.Merges object merged ∧ ∀ selected ∈ merged,
      request.registry.field? object selected.field.name = some call.definition

private theorem Grounded.stands (grounded : request.Grounded object sets) {slot : Slot}
    (member : slot ∈ request.slots object sets) (parent : FieldValue) :
    request.Stands (slot.call object.name parent) := by
  rcases mem_slots member with ⟨named, isNamed, collected, defined⟩
  rw [(Registry.isObject_of_object? grounded.1).1, Option.some.injEq] at isNamed
  subst isNamed
  rcases grounded.merges collected with ⟨merged, isMap, merges⟩
  refine ⟨collectFields_ne_nil collected, _, merged, grounded.1, rfl, isMap, merges, ?_⟩
  intro selected isSelected
  have inGroup : selected.field ∈ slot.fields := by
    rw [show slot.fields = _ from isMap.symm]
    exact List.mem_map_of_mem isSelected
  rw [← grounded.head_name collected inGroup]
  exact defined

/-- The selections under a call suit the object that its value comes to. -/
private theorem Stands.grounded (checked : request.Checked schema) {call : FieldCall}
    (stands : request.Stands call) (notMeta : call.isMeta = false) {type : TypeRef}
    (sameName : type.typeName = call.definition.type.typeName) {named inner : NamedType}
    (found : request.registry.lookup? type.typeName = some named)
    (runsAs : request.RunsAs named inner) : request.Grounded inner call.selectionSets := by
  rcases stands with ⟨_, object, merged, registered, _, isMap, merges, defined⟩
  rw [FieldCall.isMeta, Bool.or_eq_false_iff] at notMeta
  have suits := merges.suits checked.accepted checked.yields checked.narrow registered defined
    (by simpa using notMeta.1) (by simpa using notMeta.2) (sameName ▸ found) runsAs
  refine ⟨?_, _, ?_, suits⟩
  · rcases runsAs with ⟨isObject, equal⟩ | ⟨_, isObject, _⟩
    · have name : named.name = type.typeName := (Named.find?_mem found).2
      rw [equal, Registry.object?, name, found]
      simp [isObject]
    · exact isObject
  · rw [FieldCall.selectionSets, ← isMap, List.map_map, List.map_map]
    rfl

/-- What is left to do is about calls for merged fields of the document. -/
def StandsAt (request : Request) : Duty → Prop
  | .resolve task => request.Stands task.toFieldCall
  | .complete task type _ _ => request.Stands task.toFieldCall ∧ task.isMeta = false ∧
      type.typeName = task.definition.type.typeName

private theorem Comes.grounded (checked : request.Checked schema) {allowed : Answering}
    {path : Path} {duty : Duty} (comes : request.Comes allowed path duty (.object object))
    (stands : request.StandsAt duty) : request.Grounded object duty.task.selectionSets := by
  cases comes with
  | judged judged =>
      cases judged with
      | object notNull isSingle registered runsAs =>
          exact stands.1.grounded checked stands.2.1 stands.2.2 registered runsAs

private theorem stands_passesOn (checked : request.Checked schema) {allowed : Answering} :
    request.PassesOn allowed request.StandsAt where
  answered _ stands notMeta := ⟨stands, notMeta, rfl⟩
  items stands judged _ _ := by
    cases judged with
    | items notNull isList iterable =>
        exact ⟨stands.1, stands.2.1, (TypeRef.typeName_listItem isList).trans stands.2.2⟩
  object stands comes slot member _ := (comes.grounded checked stands).stands member _

private theorem grounded_root (checked : request.Checked schema) {root : NamedType}
    (isRoot : request.rootType? = some root) :
    request.Grounded root [request.operation.selections] := by
  have sound := checked.yields.roots _ _ isRoot
  exact ⟨Option.filter_eq_some_iff.mpr ⟨sound.2, sound.1⟩, _, rfl,
    suits_root checked.accepted checked.yields checked.operation isRoot⟩

theorem Steps.stands (checked : request.Checked schema) {rootValue : FieldValue}
    {progress : Progress}
    (steps : request.Steps anyAnswer (request.initial rootValue).progress progress) :
    ∀ duty ∈ progress.2, request.StandsAt duty := by
  apply (stands_passesOn checked).steps steps
  apply initial_duties
  exact fun root isRoot slot member _ => (grounded_root checked isRoot).stands member rootValue

private theorem Expands.grounded (checked : request.Checked schema) {rootValue : FieldValue}
    {after : Progress} {node : NodeId}
    (expands : request.Expands rootValue after node object sets) :
    request.Grounded object sets := by
  cases expands with
  | root isRoot => exact grounded_root checked isRoot
  | value earlier live comes =>
      exact comes.grounded checked
        (Steps.stands checked earlier _ (Multiset.mem_cons_self _ _))

/-! ## What an expanded object shows -/

/-- The entries of an object that fields were attached to. -/
private theorem shown_slots (slots : List Slot) (size : Nat) (isRoot : Bool)
    (value : NodeId → Json) :
    ∃ entries, (Tree.fieldsContent isRoot
        ((slots.zipIdx size).map fun slot => (slot.1.key, slot.2))).shown value = .object entries ∧
      Named.names entries = Named.names slots := by
  have names : ∀ size, ((slots.zipIdx size).map fun slot => slot.1.key) = slots.map Slot.key := by
    intro size
    rw [← List.zipIdx_map_fst size slots, List.map_map, List.zipIdx_map_fst]
    rfl
  cases isRoot with
  | true => exact ⟨_, rfl, by simpa [Named.names, nameOf, Function.comp_def] using names size⟩
  | false => exact ⟨_, rfl, by simpa [Named.names, nameOf, Function.comp_def] using names size⟩

/-- Content that a node was given stays, unless the node becomes null. -/
private theorem Steps.keeps {allowed : Answering} {before after : Progress}
    (steps : request.Steps allowed before after) (valid : before.Valid)
    (accounts : before.1.Accounts) {id : NodeId} {node : Node}
    (found : before.1.tree.node? id = some node) (filled : node.content ≠ .pending) :
    after.1.tree.node? id = some node ∨
      ∃ later, after.1.tree.node? id = some later ∧ later.content = .null := by
  rcases steps.continues valid with ⟨failures, continues⟩
  rcases continues.filled found filled with kept | ⟨failure, member, nulls⟩
  · exact .inl kept
  · have inDraft : failure ∈ after.1.failures := by
      rw [continues.failures]
      exact List.mem_append_right _ member
    exact .inr (((steps.accounts valid accounts).explained failure inDraft).isNull id nulls)

/-- A node whose fields were attached shows them from then on, unless it becomes null. -/
private theorem shows_of_attached {before after : Progress}
    (steps : request.Steps anyAnswer before after) (valid : before.Valid)
    (accounts : before.1.Accounts) {id : NodeId} {node : Node} {slots : List Slot} (size : Nat)
    (isRoot : Bool) (found : before.1.tree.node? id = some node)
    (isFields : node.content =
      Tree.fieldsContent isRoot ((slots.zipIdx size).map fun slot => (slot.1.key, slot.2))) :
    (∃ later, after.1.tree.node? id = some later ∧ later.content = .null) ∨
      ∃ entries, after.1.tree.json id = .object entries ∧
        Named.names entries = Named.names slots := by
  have filled : node.content ≠ .pending := by
    rw [isFields]
    cases isRoot <;> exact fun equal => by cases equal
  rcases steps.keeps valid accounts found filled with kept | isNull
  · refine .inr ?_
    rw [(steps.valid valid).formed.json_eq kept, isFields]
    exact shown_slots slots size isRoot _
  · exact .inl isNull

private theorem Expands.shows {rootValue : FieldValue} {after : Progress} {node : NodeId}
    (expands : request.Expands rootValue after node object sets) :
    (∃ later, after.1.tree.node? node = some later ∧ later.content = .null) ∨
      ∃ entries, after.1.tree.json node = .object entries ∧
        Named.names entries = Named.names (request.slots object sets) := by
  have valid := request.initial_valid rootValue
  have accounts : (request.initial rootValue).progress.1.Accounts :=
    request.initial_accounts rootValue
  cases expands with
  | root isRoot later =>
      have sameSlots : request.rootSlots = request.slots object [request.operation.selections] := by
        rw [rootSlots, isRoot]
        rfl
      have foundRoot : ({} : Draft).tree.node? Tree.rootId = some ⟨.root [], none, none, []⟩ := rfl
      rw [← sameSlots]
      rw [initial_progress] at later valid accounts
      exact shows_of_attached later valid accounts _ true (Tree.node?_attach_self foundRoot _ _) rfl
  | @value draft duty duties _ _ earlier live comes later =>
      have step : request.Step anyAnswer (draft, duty ::ₘ duties) _ := .perform live comes
      have reached := Steps.valid earlier valid
      rcases reached.pending duty (Multiset.mem_cons_self _ _) with ⟨before, found, _⟩
      exact shows_of_attached later (step.valid reached)
        (step.accounts reached (earlier.accounts valid accounts)) _ false
        (Tree.node?_attach_self found _ _) rfl

/-! ## Every object was expanded -/

private theorem Expands.step {rootValue : FieldValue} {before after : Progress} {node : NodeId}
    (expands : request.Expands rootValue before node object sets)
    (step : request.Step anyAnswer before after) :
    request.Expands rootValue after node object sets := by
  cases expands with
  | root isRoot later => exact .root isRoot (later.tail step)
  | value earlier live comes later => exact .value earlier live comes (later.tail step)

private theorem sprout_not_object {objectName : String} {slots : List Slot} {index : Nat}
    {sprout : Tree.Sprout} (stands : (slots.map (Slot.sprout objectName))[index]? = some sprout)
    {children : List (String × NodeId)} : sprout.content ≠ .object children := by
  rcases List.mem_map.mp (List.mem_of_getElem? stands) with ⟨slot, _, rfl⟩
  rw [Slot.sprout]
  split <;> exact fun equal => by cases equal

private theorem initial_object {rootValue : FieldValue} {id : NodeId} {node : Node}
    {children : List (String × NodeId)}
    (found : (request.initial rootValue).progress.1.tree.node? id = some node) :
    node.content ≠ .object children := by
  intro isObject
  rw [initial_progress] at found
  have foundRoot : ({} : Draft).tree.node? Tree.rootId = some ⟨.root [], none, none, []⟩ := rfl
  rcases Tree.node?_attach_cases foundRoot found with ⟨different, foundOld⟩ | ⟨_, equal⟩ |
      ⟨index, sprout, _, stands, equal⟩
  · exact absurd (Nat.lt_one_iff.mp (Tree.node?_lt foundOld)) different
  · rw [equal] at isObject
    cases isObject
  · rw [equal] at isObject
    exact sprout_not_object stands isObject

/-- An object after a step was there before, or the step expanded it. -/
private theorem Step.expanded {rootValue : FieldValue} {before after : Progress} {id : NodeId}
    {node : Node} {children : List (String × NodeId)}
    (earlier : request.Steps anyAnswer (request.initial rootValue).progress before)
    (step : request.Step anyAnswer before after) (found : after.1.tree.node? id = some node)
    (isObject : node.content = .object children) :
    before.1.tree.node? id = some node ∨
      ∃ object sets, request.Expands rootValue after id object sets := by
  have valid := Steps.valid earlier (request.initial_valid rootValue)
  cases step with
  | skip | answer => exact .inl found
  | @perform draft duty verdict duties live comes =>
      rcases valid.pending duty (Multiset.mem_cons_self _ _) with ⟨held, foundHeld, _⟩
      cases verdict with
      | failure error =>
          rcases Tree.nullAt_cases found with ⟨_, unchanged⟩ | ⟨_, other, _, equal⟩
          · exact .inl unchanged
          · rw [equal] at isObject
            cases isObject
      | null | leaf =>
          by_cases here : id = duty.node
          · subst here
            have isHere := (Tree.node?_set_self foundHeld _).symm.trans found
            rw [← Option.some.inj isHere] at isObject
            cases isObject
          · exact .inl ((Tree.node?_set_of_ne _ here _).symm.trans found)
      | items item values =>
          rcases Tree.node?_attach_cases foundHeld found with ⟨_, foundOld⟩ | ⟨_, equal⟩ |
              ⟨index, sprout, _, stands, equal⟩
          · exact .inl foundOld
          · rw [equal] at isObject
            cases isObject
          · rcases List.mem_map.mp (List.mem_of_getElem? stands) with ⟨_, _, isSprout⟩
            rw [equal, ← isSprout] at isObject
            cases isObject
      | object expanded =>
          rcases Tree.node?_attach_cases foundHeld found with ⟨_, foundOld⟩ | ⟨here, _⟩ |
              ⟨index, sprout, _, stands, equal⟩
          · exact .inl foundOld
          · exact .inr (here ▸ ⟨expanded, _, .value earlier live comes .refl⟩)
          · rw [equal] at isObject
            exact absurd isObject (sprout_not_object stands)

/-- Where there is an object in a tree that is reached, it was expanded on the way. -/
private theorem Steps.expanded {rootValue : FieldValue} {progress : Progress}
    (steps : request.Steps anyAnswer (request.initial rootValue).progress progress) :
    ∀ {id node children}, progress.1.tree.node? id = some node →
      node.content = .object children →
      ∃ object sets, request.Expands rootValue progress id object sets := by
  induction steps with
  | refl => exact fun found isObject => absurd isObject (initial_object found)
  | tail earlier step induction =>
      intro id node children found isObject
      rcases Step.expanded earlier step found isObject with foundBefore | expanded
      · rcases induction foundBefore isObject with ⟨object, sets, expands⟩
        exact ⟨object, sets, expands.step step⟩
      · exact expanded

/-! ## The fields of expanded objects -/

/-- Fields that can be answered together: the same field with the same arguments. -/
def FieldsAgree (fields : List Field) : Prop :=
  ∀ first ∈ fields, ∀ second ∈ fields, first.name = second.name ∧
    Rules.sameArguments first.arguments second.arguments = true

private theorem Merges.fieldsAgree (accepted : request.subject.Accepted)
    {merged : List SelectedField}
    (merges : request.Merges object merged) : FieldsAgree (merged.map SelectedField.field) := by
  intro first isFirst second isSecond
  rcases List.mem_map.mp isFirst with ⟨left, isLeft, rfl⟩
  rcases List.mem_map.mp isSecond with ⟨right, isRight, rfl⟩
  have same := merges.same isLeft isRight
  exact ⟨same.1, Rules.sameArguments_of_sameTexts
    (accepted.arguments right (merges.has right isRight)) same.2⟩

theorem checked_of_silent (built : schema.build = .ok request.registry)
    (narrow : request.registry.FieldsNarrow)
    (distinct : request.document.positions.Nodup)
    (silent : request.document.validate request.registry defaultPlan = [])
    (operation : request.operation ∈ request.document.operations) : request.Checked schema where
  yields := Schema.build_yields built
  narrow := narrow
  accepted := Subject.accepted_of_silent (Schema.build_yields built) distinct silent
  operation := operation

/-- In an accepted request all fields that are answered together are the same field with the same
arguments: those of every group of every object that is expanded, and those of every task. -/
theorem expanded_fields_agree (built : schema.build = .ok request.registry)
    (implemented : request.registry.FieldsImplemented)
    (addressed : request.document.Addressed)
    (silent : request.document.validate request.registry defaultPlan = [])
    (operation : request.operation ∈ request.document.operations) (rootValue : FieldValue) :
    (∀ after node object sets, request.Expands rootValue after node object sets →
      ∀ group ∈ request.collectFields object.name sets, FieldsAgree group.2) ∧
    ∀ outstanding, request.Runs anyAnswer (request.initial rootValue) outstanding →
      ∀ task ∈ outstanding.2, FieldsAgree task.fields := by
  have checked := checked_of_silent built implemented.narrow addressed.distinct silent operation
  constructor
  · intro after node object sets expands group collected
    rcases (expands.grounded checked).merges collected with ⟨merged, isMap, merges⟩
    exact isMap ▸ merges.fieldsAgree checked.accepted
  · intro outstanding runs task member
    rcases Steps.stands checked (runs.steps (request.initial_valid rootValue)) (.resolve task)
      (Multiset.mem_map_of_mem _ member) with ⟨_, object, merged, _, _, isMap, merges, _⟩
    exact isMap ▸ merges.fieldsAgree checked.accepted

/-- In an accepted request an object that is expanded defines the field of every group, and it shows
all groups in the order in which their response names are first met, unless it becomes null. No
object is there that was not expanded. -/
theorem expanded_fields_shown (built : schema.build = .ok request.registry)
    (implemented : request.registry.FieldsImplemented)
    (addressed : request.document.Addressed)
    (silent : request.document.validate request.registry defaultPlan = [])
    (operation : request.operation ∈ request.document.operations) (rootValue : FieldValue) :
    (∀ after node object sets, request.Expands rootValue after node object sets →
      (∃ named, request.registry.lookup? object.name = some named ∧
        ∀ group ∈ request.collectFields object.name sets, ∃ definition,
          request.registry.field? named (((group.2.head?).map Field.name).getD "") =
            some definition) ∧
      ((∃ later, after.1.tree.node? node = some later ∧ later.content = .null) ∨
        ∃ entries, after.1.tree.json node = .object entries ∧
          Named.names entries = Named.names (request.collectFields object.name sets)) ∧
      ∃ fields visited, request.Traverses object.name [] sets.flatten fields visited ∧
        Named.names (request.collectFields object.name sets) =
          (fields.map Field.responseName).eraseDups) ∧
    ∀ outstanding, request.Runs anyAnswer (request.initial rootValue) outstanding →
      ∀ id node children, outstanding.1.tree.node? id = some node →
        node.content = .object children →
        ∃ object sets, request.Expands rootValue outstanding.progress id object sets := by
  have checked := checked_of_silent built implemented.narrow addressed.distinct silent operation
  constructor
  · intro after node object sets expands
    have grounded := expands.grounded checked
    refine ⟨⟨object, (Registry.isObject_of_object? grounded.1).1, fun group collected =>
      grounded.defined checked implemented collected⟩, ?_, ?_⟩
    · rw [← grounded.names_slots checked implemented]
      exact expands.shows
    · rcases request.collectFields_traverses object.name sets with
        ⟨fields, visited, traverses, isGroups⟩
      exact ⟨fields, visited, traverses, isGroups ▸ Collection.names_group fields⟩
  · intro outstanding runs id node children found isObject
    exact Steps.expanded (runs.steps (request.initial_valid rootValue)) found isObject

end Request

namespace Shelter

/-! A dog that is reached as a pet, with fields that are selected on both. -/

def pet : NamedType where
  key := .custom 0
  name := "Pet"
  shape := .interface
    { fields :=
        [{ name := "name", type := .named "String" }, { name := "friend", type := .named "Pet" }] }

def dog : NamedType where
  key := .custom 1
  name := "Dog"
  shape := .object
    { interfaces := [.named "Pet"]
      fields :=
        [{ name := "name", type := .nonNull (.named "String") },
          { name := "friend", type := .named "Dog" }] }

def query : NamedType where
  key := .custom 2
  name := "Query"
  shape := .object { fields := [{ name := "pet", type := .named "Pet" }] }

def schema : Schema where
  pool := [pet, dog, query]
  query := query.toInstance
  types := [pet.toInstance, dog.toInstance]

def registry : Registry where
  types := Scalar.all ++ Meta.all ++ [query, pet, dog]
  query := query
  mutation := none
  subscription := none
  directives := DirectiveDefinition.builtIn
  possibleTypes := [("Pet", ["Dog"])]

def selected : Field :=
  ⟨⟨1, 3⟩, none, "pet", [], [],
    [.field ⟨⟨1, 9⟩, none, "name", [], [], []⟩,
      .inline ⟨⟨1, 14⟩, some "Dog", [],
        [.field ⟨⟨1, 27⟩, none, "friend", [], [],
          [.field ⟨⟨1, 36⟩, none, "name", [], [], []⟩]⟩]⟩,
      .spread ⟨⟨1, 45⟩, "Rest", []⟩]⟩

def operation : Operation := ⟨⟨1, 1⟩, .query, none, [], [], [.field selected]⟩

def rest : Fragment :=
  ⟨⟨2, 1⟩, "Rest", "Pet", [],
    [.field ⟨⟨2, 24⟩, none, "friend", [], [],
        [.field ⟨⟨2, 33⟩, some "tag", "name", [], [], []⟩]⟩,
      .field ⟨⟨2, 45⟩, none, "name", [], [], []⟩]⟩

def request : Request where
  registry := registry
  document := ⟨[.operation operation, .fragment rest]⟩
  operation := operation
  variableValues := []
  token := ⟨0, none⟩
  depth := 10

def value : FieldValue := .typed (.json (.object [])) "Dog"

private def task : FieldTask :=
  ⟨⟨"Query", { name := "pet", type := .named "Pet" }, [selected], .null⟩, 1⟩

private theorem expands : ∃ after, request.Expands .null after 1 dog [selected.selections] := by
  have live : (request.rootTasks .null).1.tree.isDiscarded task.node = false := rfl
  have answer : request.Step Request.anyAnswer
      ((request.rootTasks .null).1, Duty.resolve task ::ₘ 0)
      ((request.rootTasks .null).1,
        Duty.complete task task.definition.type task.node value ::ₘ 0) :=
    .answer live trivial rfl
  have judged := request.judge_judged task.toFieldCall task.definition.type value
  have isDog : request.judge task.toFieldCall task.definition.type value = .object dog := rfl
  rw [isDog] at judged
  exact ⟨_, .value (.single answer) live (.judged judged isDog) .refl⟩

private theorem silent : request.document.validate request.registry defaultPlan = [] :=
  (validate_eq_walk _ _ _).trans rfl

end Shelter

/-- The friend of a dog is selected as that of a dog and as that of a pet. -/
theorem Request.expanded_fields_agree_of_shelter :
    Shelter.schema.build = .ok Shelter.request.registry ∧
      Shelter.request.registry.FieldsImplemented ∧ Shelter.request.document.Addressed ∧
      Shelter.request.document.validate Shelter.request.registry defaultPlan = [] ∧
      Shelter.request.operation ∈ Shelter.request.document.operations ∧
      (Shelter.request.collectFields Shelter.dog.name [Shelter.selected.selections]).map
          (fun group => (group.1, group.2.length)) = [("name", 2), ("friend", 2)] ∧
      ∀ group ∈ Shelter.request.collectFields Shelter.dog.name [Shelter.selected.selections],
        Request.FieldsAgree group.2 := by
  have built : Shelter.schema.build = .ok Shelter.request.registry := by cbv
  have implemented : Shelter.request.registry.FieldsImplemented := by decide
  have addressed : Shelter.request.document.Addressed := .inr (by decide)
  have operation : Shelter.request.operation ∈ Shelter.request.document.operations :=
    List.mem_singleton_self _
  rcases Shelter.expands with ⟨after, expands⟩
  exact ⟨built, implemented, addressed, Shelter.silent, operation, rfl,
    (Request.expanded_fields_agree built implemented addressed Shelter.silent operation
      .null).1 after 1 Shelter.dog _ expands⟩

/-- A dog that was expanded as a pet shows its name and its friend, in this order. -/
theorem Request.expanded_fields_shown_of_shelter :
    Shelter.schema.build = .ok Shelter.request.registry ∧
      Shelter.request.registry.FieldsImplemented ∧ Shelter.request.document.Addressed ∧
      Shelter.request.document.validate Shelter.request.registry defaultPlan = [] ∧
      Shelter.request.operation ∈ Shelter.request.document.operations ∧
      ∃ after, Shelter.request.Expands .null after 1 Shelter.dog [Shelter.selected.selections] ∧
        ((∃ later, after.1.tree.node? 1 = some later ∧ later.content = .null) ∨
          ∃ entries, after.1.tree.json 1 = .object entries ∧
            Named.names entries = ["name", "friend"]) := by
  have built : Shelter.schema.build = .ok Shelter.request.registry := by cbv
  have implemented : Shelter.request.registry.FieldsImplemented := by decide
  have addressed : Shelter.request.document.Addressed := .inr (by decide)
  have operation : Shelter.request.operation ∈ Shelter.request.document.operations :=
    List.mem_singleton_self _
  rcases Shelter.expands with ⟨after, expands⟩
  have shown := (Request.expanded_fields_shown built implemented addressed Shelter.silent
    operation .null).1 after 1 Shelter.dog _ expands
  exact ⟨built, implemented, addressed, Shelter.silent, operation, after, expands, shown.2.1⟩

end GraphQL
