import GraphQL.Proofs.Execution.Executor

/-!
Interpretations of a response. Each position is given a meaning, which is about what JSON may stand
there and whether a null may move up from there. If the meanings are right for what every duty comes
to, then every step of the executor keeps the tree in agreement with them, node by node, and what a
finished run shows is what the meaning of the whole admits.
-/

namespace GraphQL

/-- The meanings of positions by what is to be done for them. -/
structure Interpretation (Meaning : Type) where
  admits : Meaning → Json → Prop
  /-- Whether a null may come from a position of the type; the root has no type. -/
  yields : Meaning → Option TypeRef → Prop
  typeName : String → Meaning
  resolve : FieldCall → Path → Meaning
  complete : FieldCall → TypeRef → FieldValue → Path → Meaning

namespace Interpretation

variable {Meaning : Type} (interpretation : Interpretation Meaning)

def duty : Duty → Path → Meaning
  | .resolve task, path => interpretation.resolve task.toFieldCall path
  | .complete task type _ value, path =>
      interpretation.complete task.toFieldCall type value path

def slot (objectName : String) (parent : FieldValue) (path : Path) (slot : Slot) : Meaning :=
  if slot.isTypeName then interpretation.typeName objectName
  else interpretation.resolve (slot.call objectName parent) (path ++ [.key slot.key])

def items (call : FieldCall) (item : TypeRef) (path : Path) (values : List FieldValue) :
    List Meaning :=
  values.zipIdx.map fun entry =>
    interpretation.complete call item entry.1 (path ++ [.index entry.2])

/-- A whole of parts: it admits what is made of what its parts admit, and a null that comes from a
part that must not be null may come from the whole. -/
structure Spans (whole : Meaning) (type : Option TypeRef) (parts : List Meaning)
    (make : List Json → Json) : Prop where
  admits : ∀ jsons : List Json, List.Forall₂ interpretation.admits parts jsons →
    interpretation.admits whole (make jsons)
  yields : ∀ part ∈ parts, ∀ required : TypeRef, required.isNonNull = true →
    interpretation.yields part (some required) → interpretation.yields whole type

/-- The object of slots. -/
def objectOf (slots : List Slot) (jsons : List Json) : Json :=
  .object ((slots.map Slot.key).zip jsons)

/-- The meanings are right for whatever duties come to. -/
structure Sound (request : Request) (allowed : Answering) : Prop where
  arrives : ∀ {meaning : Meaning} {type : TypeRef}, type.isNonNull = false →
    interpretation.yields meaning (some type) → interpretation.admits meaning .null
  typeName : ∀ name : String,
    interpretation.admits (interpretation.typeName name) (.string name)
  answer : ∀ {call : FieldCall} {path : Path} {value : FieldValue},
    allowed call path (.outcome (.value value)) → call.isMeta = false →
    interpretation.resolve call path =
      interpretation.complete call call.definition.type value path
  failure : ∀ {duty : Duty} {path : Path} {error : ResponseError},
    request.Comes allowed path duty (.failure error) →
    interpretation.yields (interpretation.duty duty path) (some duty.type)
  null : ∀ {duty : Duty} {path : Path}, request.Comes allowed path duty .null →
    interpretation.admits (interpretation.duty duty path) .null
  leaf : ∀ {duty : Duty} {path : Path} {json : Json},
    request.Comes allowed path duty (.leaf json) →
    interpretation.admits (interpretation.duty duty path) json
  items : ∀ {duty : Duty} {path : Path} {item : TypeRef} {values : List FieldValue},
    request.Comes allowed path duty (.items item values) →
    interpretation.Spans (interpretation.duty duty path) (some duty.type)
      (interpretation.items duty.task.toFieldCall item path values) .array
  object : ∀ {duty : Duty} {path : Path} {object : NamedType},
    request.Comes allowed path duty (.object object) →
    interpretation.Spans (interpretation.duty duty path) (some duty.type)
      ((request.slots object duty.task.selectionSets).map
        (interpretation.slot object.name duty.value path))
      (objectOf (request.slots object duty.task.selectionSets))

/-! ## Trees that agree with meanings -/

/-- A node agrees with the meanings if its own admits what is made of its children. -/
structure Agrees (meanings : NodeId → Meaning) (id : NodeId) (node : Node) : Prop where
  admits : node.content ≠ .pending → ∀ value : NodeId → Json,
    (∀ segment child, (segment, child) ∈ node.content.children →
      interpretation.admits (meanings child) (value child)) →
    interpretation.admits (meanings id) (node.content.shown value)
  yields : ∀ segment child, (segment, child) ∈ node.content.children →
    ∀ required : TypeRef, required.isNonNull = true →
      interpretation.yields (meanings child) (some required) →
      interpretation.yields (meanings id) node.type

/-- The tree agrees with the meanings, and the duties are to come to those of their nodes. -/
structure Reads (whole : Meaning) (progress : Progress) (meanings : NodeId → Meaning) : Prop where
  agrees : ∀ {id node}, progress.1.tree.node? id = some node →
    interpretation.Agrees meanings id node
  duties : ∀ duty ∈ progress.2,
    meanings duty.node = interpretation.duty duty (progress.1.tree.path duty.node)
  root : meanings Tree.rootId = whole
  lost : progress.1.tree.dataIsNull = true → interpretation.yields whole none

/-- The tree agrees with the meanings but for one node, whose duty was taken up. -/
structure ReadsBeside (whole : Meaning) (tree : Tree) (id : NodeId) (duties : Multiset Duty)
    (meanings : NodeId → Meaning) : Prop where
  agrees : ∀ {other node}, other ≠ id → tree.node? other = some node →
    interpretation.Agrees meanings other node
  duties : ∀ duty ∈ duties,
    meanings duty.node = interpretation.duty duty (tree.path duty.node)
  root : meanings Tree.rootId = whole
  lost : tree.dataIsNull = true → interpretation.yields whole none

variable {interpretation}

private theorem Reads.beside {whole : Meaning} {draft : Draft} {duty : Duty}
    {duties : Multiset Duty} {meanings : NodeId → Meaning}
    (reads : interpretation.Reads whole (draft, duty ::ₘ duties) meanings) :
    interpretation.ReadsBeside whole draft.tree duty.node duties meanings where
  agrees _ found := reads.agrees found
  duties other member := reads.duties other (Multiset.mem_cons_of_mem member)
  root := reads.root
  lost := reads.lost

private theorem Agrees.congr {left right : NodeId → Meaning} {id : NodeId} {node : Node}
    (agrees : interpretation.Agrees left id node) (here : left id = right id)
    (below : ∀ segment child, (segment, child) ∈ node.content.children →
      left child = right child) : interpretation.Agrees right id node where
  admits filled value children := by
    rw [← here]
    apply agrees.admits filled value
    intro segment child listed
    rw [below segment child listed]
    exact children segment child listed
  yields segment child listed required isRequired given := by
    rw [← here]
    apply agrees.yields segment child listed required isRequired
    rw [below segment child listed]
    exact given

/-- A null that moves up from a node may have come from the whole, or it arrives where null
is admitted. -/
private theorem Reads.arrives {request : Request} {allowed : Answering}
    (sound : interpretation.Sound request allowed) {whole : Meaning} {progress : Progress}
    {meanings : NodeId → Meaning} (reads : interpretation.Reads whole progress meanings)
    (formed : progress.1.tree.WellFormed) {id : NodeId} {target : Option NodeId}
    (moves : progress.1.tree.MovesUp id target) :
    ∀ {node}, progress.1.tree.node? id = some node → progress.1.tree.isDiscarded id = false →
      interpretation.yields (meanings id) node.type →
      (∀ top, target = some top → interpretation.admits (meanings top) .null) ∧
        (target = none → interpretation.yields whole none) := by
  induction moves with
  | stays foundHere typed mayBeNull =>
      intro node found live given
      rw [Option.some.inj (found.symm.trans foundHere), typed] at given
      refine ⟨?_, nofun⟩
      intro top isTop
      rw [← Option.some.inj isTop]
      exact sound.arrives mayBeNull given
  | climbs foundHere typed required isParent further induction =>
      intro node found live given
      rw [Option.some.inj (found.symm.trans foundHere), typed] at given
      rcases formed.hangs (formed.ne_root_of_parent foundHere isParent) foundHere with
        ⟨top, above, segment, type, hanging⟩
      have sameTop := Option.some.inj (hanging.isParent.symm.trans isParent)
      subst sameTop
      have liveAbove := (formed.isLive foundHere live).parent top isParent
      have listed := hanging.listed.resolve_right
        (formed.isLive hanging.foundAbove liveAbove).notNull
      exact induction hanging.foundAbove liveAbove
        ((reads.agrees hanging.foundAbove).yields segment _ listed _ required given)
  | reachesRoot =>
      intro node found live given
      rcases formed.root with ⟨fields, foundRoot⟩
      rw [Option.some.inj (found.symm.trans foundRoot), reads.root] at given
      exact ⟨nofun, fun _ => given⟩

/-! ## Attaching children -/

/-- Meanings of more nodes, numbered from a size. -/
private def extend (meanings : NodeId → Meaning) (size : Nat) (added : List Meaning) :
    NodeId → Meaning :=
  fun id => if id < size then meanings id else (added[id - size]?).getD (meanings id)

private theorem extend_old (meanings : NodeId → Meaning) {size : Nat} {id : NodeId}
    (known : id < size) (added : List Meaning) : extend meanings size added id = meanings id :=
  if_pos known

private theorem extend_new (meanings : NodeId → Meaning) (size : Nat) {added : List Meaning}
    {index : Nat} {meaning : Meaning} (stands : added[index]? = some meaning) :
    extend meanings size added (size + index) = meaning := by
  rw [extend, if_neg (Nat.not_lt.mpr (Nat.le_add_right _ _)), Nat.add_sub_cancel_left, stands]
  rfl

private theorem forall₂_admits {meanings : NodeId → Meaning} {value : NodeId → Json}
    {children : List NodeId}
    (below : ∀ child ∈ children, interpretation.admits (meanings child) (value child)) :
    List.Forall₂ interpretation.admits (children.map meanings) (children.map value) := by
  rw [List.forall₂_map_left_iff, List.forall₂_map_right_iff, List.forall₂_same]
  exact below

private theorem extend_range' (meanings : NodeId → Meaning) (size : Nat) (added : List Meaning) :
    (List.range' size added.length).map (extend meanings size added) = added := by
  apply List.ext_getElem?
  intro index
  rw [List.getElem?_map]
  by_cases inside : index < added.length
  · rw [List.getElem?_range' inside, Nat.one_mul, Option.map_some,
      extend_new meanings size (List.getElem?_eq_getElem inside), List.getElem?_eq_getElem inside]
  · rw [List.getElem?_eq_none (by simpa using inside),
      List.getElem?_eq_none (Nat.not_lt.mp inside)]
    rfl

/-- A node with new children agrees, if its meaning spans those of the children. -/
private theorem Spans.agrees {meanings : NodeId → Meaning} {id : NodeId} {size : Nat} {node : Node}
    {content : NodeContent} {parts : List Meaning} {make : List Json → Json}
    (spans : interpretation.Spans (meanings id) node.type parts make) (known : id < size)
    (children : content.children.map Prod.snd = List.range' size parts.length)
    (shown : ∀ value : NodeId → Json, content.shown value =
      make ((List.range' size parts.length).map value)) :
    interpretation.Agrees (extend meanings size parts) id { node with content := content } := by
  have here := extend_old meanings known parts
  refine ⟨?_, ?_⟩
  · intro _ value below
    rw [here, shown]
    apply spans.admits
    conv => lhs; rw [← extend_range' meanings size parts]
    apply forall₂_admits
    intro child member
    rw [← children] at member
    rcases List.mem_map.mp member with ⟨⟨segment, id⟩, listed, equal⟩
    exact equal ▸ below segment id listed
  · intro segment child listed required isRequired given
    rw [here]
    have member : child ∈ List.range' size parts.length :=
      children ▸ List.mem_map.mpr ⟨(segment, child), listed, rfl⟩
    have isPart : extend meanings size parts child ∈
        (List.range' size parts.length).map (extend meanings size parts) :=
      List.mem_map_of_mem member
    rw [extend_range'] at isPart
    exact spans.yields _ isPart required isRequired given

/-- The meanings of new children: a leaf is admitted, and duties are to come to the others. -/
structure Assigns (interpretation : Interpretation Meaning) (tree : Tree) (id : NodeId)
    (sprouts : List Tree.Sprout) (duties : List Duty) (added : List Meaning) : Prop where
  leaves : ∀ {index : Nat} {sprout : Tree.Sprout}, sprouts[index]? = some sprout →
    sprout.content = .pending ∨ ∃ json meaning, sprout.content = .leaf json ∧
      added[index]? = some meaning ∧ interpretation.admits meaning json
  duties : ∀ duty ∈ duties, ∃ (index : Nat) (sprout : Tree.Sprout),
    sprouts[index]? = some sprout ∧ duty.node = tree.nodes.size + index ∧
      added[index]? = some (interpretation.duty duty (tree.path id ++ [sprout.segment]))

/-- The node is given content with new children. -/
private theorem ReadsBeside.attach {whole : Meaning} {draft : Draft} {id : NodeId}
    {duties : Multiset Duty} {meanings : NodeId → Meaning}
    (reads : interpretation.ReadsBeside whole draft.tree id duties meanings)
    (taken : Taken draft.tree id duties) {node : Node} {content : NodeContent}
    {sprouts : List Tree.Sprout} {served : List Duty} {added : List Meaning}
    (found : draft.tree.node? id = some node) (fits : draft.tree.Fits node content sprouts)
    (assigns : interpretation.Assigns draft.tree id sprouts served added)
    (here : interpretation.Agrees (extend meanings draft.tree.nodes.size added) id
      { node with content := content }) (failures : List Failure) :
    interpretation.Reads whole
      (⟨draft.tree.attach id content sprouts, failures⟩, (served : Multiset Duty) + duties)
      (extend meanings draft.tree.nodes.size added) := by
  have known := Tree.node?_lt found
  have growth : draft.tree.Extends (draft.tree.attach id content sprouts) :=
    Tree.attach_extends found fits.isOpen.ne_null
  refine ⟨?_, ?_, ?_, reads.lost⟩
  · intro other above foundOther
    rcases Tree.node?_attach_cases found foundOther with ⟨different, foundOld⟩ | ⟨isHere, equal⟩ |
        ⟨index, sprout, isNew, stands, equal⟩
    · apply (reads.agrees different foundOld).congr
      · exact (extend_old meanings (Tree.node?_lt foundOld) added).symm
      · intro segment child listed
        rcases taken.formed.child foundOld listed with ⟨below, foundChild, _⟩
        exact (extend_old meanings (Tree.node?_lt foundChild) added).symm
    · subst isHere
      subst equal
      exact here
    · subst equal
      have childless := fits.childless sprout (List.mem_of_getElem? stands)
      refine ⟨?_, by simp [Tree.grow, childless]⟩
      intro filled value _
      rcases assigns.leaves stands with isPending | ⟨json, meaning, isLeaf, isMeaning, admitted⟩
      · exact absurd isPending filled
      · rw [isNew, extend_new meanings _ isMeaning, Tree.grow, isLeaf]
        exact admitted
  · intro duty member
    rcases Multiset.mem_add.mp member with isNew | isOld
    · rcases assigns.duties duty (Multiset.mem_coe.mp isNew) with
        ⟨index, sprout, stands, isNode, isMeaning⟩
      have foundNew : (draft.tree.attach id content sprouts).node? _ = _ :=
        Tree.node?_attach_new known content sprouts index
      rw [stands, Option.map_some] at foundNew
      rw [isNode, extend_new meanings _ isMeaning, Tree.path_eq foundNew, Tree.grow]
    · rcases taken.pending duty isOld with ⟨held, foundHeld, _⟩
      rw [extend_old meanings (Tree.node?_lt foundHeld) added, growth.path_eq foundHeld]
      exact reads.duties duty isOld
  · rcases taken.formed.root with ⟨fields, foundRoot⟩
    exact (extend_old meanings (Tree.node?_lt foundRoot) added).trans reads.root

/-- The node becomes a leaf or null that its meaning admits. -/
private theorem ReadsBeside.set {whole : Meaning} {draft : Draft} {id : NodeId}
    {duties : Multiset Duty} {meanings : NodeId → Meaning}
    (reads : interpretation.ReadsBeside whole draft.tree id duties meanings)
    (taken : Taken draft.tree id duties) {node : Node} {content : NodeContent}
    (found : draft.tree.node? id = some node) (isPending : node.content = .pending)
    (childless : content.children = [])
    (admitted : ∀ value : NodeId → Json,
      interpretation.admits (meanings id) (content.shown value)) :
    ∃ later, interpretation.Reads whole (draft.set id content, duties) later := by
  have nothing : interpretation.Assigns draft.tree id [] [] [] := ⟨by simp, by simp⟩
  have here : interpretation.Agrees (extend meanings draft.tree.nodes.size []) id
      { node with content := content } := by
    refine ⟨?_, by simp [childless]⟩
    intro _ value _
    rw [extend_old meanings (Tree.node?_lt found)]
    exact admitted value
  have attached := reads.attach taken found (.ofChildless isPending childless) nothing here
    draft.failures
  rw [Tree.attach_nil, Multiset.coe_nil, zero_add] at attached
  exact ⟨_, attached⟩

/-- A null that moves up from the node is in order at each node that it passes. -/
private theorem Reads.fail {request : Request} {allowed : Answering}
    (sound : interpretation.Sound request allowed) {whole : Meaning} {draft : Draft} {duty : Duty}
    {duties : Multiset Duty} {meanings : NodeId → Meaning}
    (reads : interpretation.Reads whole (draft, duty ::ₘ duties) meanings)
    (valid : Progress.Valid (draft, duty ::ₘ duties))
    (live : draft.tree.isDiscarded duty.node = false)
    (given : interpretation.yields (meanings duty.node) (some duty.type))
    (error : ResponseError) :
    interpretation.Reads whole (draft.fail duty.task duty.node error, duties) meanings := by
  rcases valid.pending duty (Multiset.mem_cons_self _ _) with ⟨node, found, _, typed⟩
  have growth := draft.tree.nullAt_extends (draft.tree.nullPosition duty.node)
  have arrives := reads.arrives sound valid.formed (valid.formed.nullPosition_movesUp found) found
    live (typed ▸ given)
  refine ⟨?_, ?_, reads.root, ?_⟩
  · intro id after foundAfter
    rcases Tree.nullAt_cases foundAfter with ⟨_, unchanged⟩ | ⟨isTarget, before, _, equal⟩
    · exact reads.agrees unchanged
    · subst equal
      exact ⟨fun _ _ _ => arrives.1 id isTarget, by simp [NodeContent.children]⟩
  · intro other member
    rcases valid.pending other (Multiset.mem_cons_of_mem member) with ⟨held, foundHeld, _⟩
    have samePath : (draft.tree.propagateNull duty.node).path other.node = _ :=
      growth.path_eq foundHeld
    rw [reads.duties other (Multiset.mem_cons_of_mem member), Draft.fail, samePath]
  · intro allNull
    cases isTarget : draft.tree.nullPosition duty.node with
    | none => exact arrives.2 isTarget
    | some top =>
        apply reads.lost
        rw [Draft.fail, Tree.propagateNull, isTarget] at allNull
        exact allNull

/-! ## Objects and lists -/

private theorem assigns_items (tree : Tree) (task : FieldTask) (item : TypeRef) (id : NodeId)
    (values : List FieldValue) :
    interpretation.Assigns tree id (Tree.itemSprouts item 0 values.length)
      (((List.range' tree.nodes.size values.length).zip values).map fun entry =>
        .complete task item entry.1 entry.2)
      (interpretation.items task.toFieldCall item (tree.path id) values) where
  leaves := by
    intro index sprout stands
    rcases List.mem_map.mp (List.mem_of_getElem? stands) with ⟨_, _, equal⟩
    exact .inl (equal ▸ rfl)
  duties := by
    intro duty member
    rcases mem_itemDuties member with ⟨index, value, isValue, rfl⟩
    have inside : index < values.length := (List.getElem?_eq_some_iff.mp isValue).1
    refine ⟨index, _, getElem?_itemSprouts item inside, rfl, ?_⟩
    rw [items, List.getElem?_map, List.getElem?_zipIdx, isValue]
    simp only [Option.map_some, Nat.zero_add]
    rfl

private theorem assigns_slots {request : Request} {allowed : Answering}
    (sound : interpretation.Sound request allowed) (tree : Tree) (objectName : String)
    (parent : FieldValue) (id : NodeId) (slots : List Slot) :
    interpretation.Assigns tree id (slots.map (Slot.sprout objectName))
      (((slots.zipIdx tree.nodes.size).filterMap (Slot.task? objectName parent)).map .resolve)
      (slots.map (interpretation.slot objectName parent (tree.path id))) where
  leaves := by
    intro index sprout stands
    rw [List.getElem?_map] at stands
    rcases Option.map_eq_some_iff.mp stands with ⟨slot, isSlot, equal⟩
    subst equal
    by_cases isTypeName : slot.isTypeName = true
    · refine .inr ⟨.string objectName, interpretation.typeName objectName, if_pos isTypeName, ?_,
        sound.typeName objectName⟩
      rw [List.getElem?_map, isSlot, Option.map_some, Interpretation.slot, if_pos isTypeName]
    · exact .inl (if_neg isTypeName)
  duties := by
    intro duty member
    rcases mem_slotDuties member with ⟨index, slot, isSlot, notTypeName, rfl⟩
    refine ⟨index, slot.sprout objectName, ?_, rfl, ?_⟩
    · rw [List.getElem?_map, isSlot]
      rfl
    · rw [List.getElem?_map, isSlot, Option.map_some, Interpretation.slot, if_neg notTypeName]
      rfl

/-- A list whose meaning spans those of its items agrees. -/
private theorem Spans.agrees_items {meanings : NodeId → Meaning} {id : NodeId} {size : Nat}
    {node : Node} {parts : List Meaning}
    (spans : interpretation.Spans (meanings id) node.type parts .array) (known : id < size) :
    interpretation.Agrees (extend meanings size parts) id
      { node with content := .array (List.range' size parts.length) } := by
  apply spans.agrees known
  · rw [NodeContent.children, List.map_map]
    exact List.zipIdx_map_fst _ _
  · intro value
    rfl

/-- An object whose meaning spans those of its fields agrees. -/
private theorem Spans.agrees_slots {meanings : NodeId → Meaning} {id : NodeId} {size : Nat}
    {node : Node} {slots : List Slot} {meaning : Slot → Meaning}
    (spans : interpretation.Spans (meanings id) node.type (slots.map meaning) (objectOf slots))
    (known : id < size) (isRoot : Bool) :
    interpretation.Agrees (extend meanings size (slots.map meaning)) id
      { node with
        content :=
          Tree.fieldsContent isRoot
            ((slots.zipIdx size).map fun slot => (slot.1.key, slot.2)) } := by
  apply spans.agrees known
  · rw [Tree.fieldsContent_children, List.map_map, List.map_map, List.length_map]
    exact List.zipIdx_map_snd size slots
  · intro value
    have entries : ((slots.zipIdx size).map fun slot => (slot.1.key, slot.2)).map
        (fun child => (child.1, value child.2)) =
        (slots.map Slot.key).zip ((List.range' size (slots.map meaning).length).map value) := by
      rw [List.length_map, List.zip_map, ← List.zipIdx_eq_zip_range', List.map_map]
      rfl
    cases isRoot with
    | false => exact congrArg Json.object entries
    | true => exact congrArg Json.object entries

/-! ## Steps and runs -/

variable {request : Request} {allowed : Answering}

/-- Performing a duty keeps the tree in agreement. -/
private theorem Reads.perform (sound : interpretation.Sound request allowed) {whole : Meaning}
    {draft : Draft} {duty : Duty} {duties : Multiset Duty} {meanings : NodeId → Meaning}
    (reads : interpretation.Reads whole (draft, duty ::ₘ duties) meanings)
    (valid : Progress.Valid (draft, duty ::ₘ duties))
    (live : draft.tree.isDiscarded duty.node = false) {verdict : Verdict}
    (comes : request.Comes allowed (draft.tree.path duty.node) duty verdict) :
    ∃ later, interpretation.Reads whole
      ((request.perform duty draft verdict).1,
        ((request.perform duty draft verdict).2 : Multiset Duty) + duties) later := by
  rcases valid.pending duty (Multiset.mem_cons_self _ _) with ⟨node, found, isPending, typed⟩
  have known := Tree.node?_lt found
  have meaning : meanings duty.node = interpretation.duty duty (draft.tree.path duty.node) :=
    reads.duties duty (Multiset.mem_cons_self _ _)
  have beside := reads.beside
  have nothing : ((([] : List Duty) : Multiset Duty) + duties) = duties := zero_add duties
  cases verdict with
  | failure error =>
      rw [Request.perform, nothing]
      exact ⟨meanings, reads.fail sound valid live (meaning ▸ sound.failure comes) error⟩
  | null =>
      rw [Request.perform, nothing]
      exact beside.set valid.taken found isPending rfl fun _ => meaning ▸ sound.null comes
  | leaf json =>
      rw [Request.perform, nothing]
      exact beside.set valid.taken found isPending rfl fun _ => meaning ▸ sound.leaf comes
  | items item values =>
      have spans := sound.items comes
      rw [← meaning, ← typed] at spans
      have here := spans.agrees_items known
      rw [items, List.length_map, List.length_zipIdx] at here
      exact ⟨_, beside.attach valid.taken found (Tree.addItems_fits isPending item values.length)
        (assigns_items draft.tree duty.task item duty.node values) here draft.failures⟩
  | object object =>
      have spans := sound.object comes
      rw [← meaning, ← typed] at spans
      exact ⟨_, beside.attach valid.taken found
        (Tree.attachSlots_fits false isPending object.name
          (request.slots_distinct object duty.task.selectionSets))
        (assigns_slots sound draft.tree object.name duty.value duty.node _)
        (spans.agrees_slots known false) draft.failures⟩

private theorem Reads.step (sound : interpretation.Sound request allowed) {whole : Meaning}
    {before after : Progress} {meanings : NodeId → Meaning}
    (reads : interpretation.Reads whole before meanings)
    (step : request.Step allowed before after) (valid : before.Valid) :
    ∃ later, interpretation.Reads whole after later := by
  cases step with
  | skip lost => exact ⟨meanings, reads.agrees, reads.beside.duties, reads.root, reads.lost⟩
  | @answer draft task value duties live answered notMeta =>
      refine ⟨meanings, reads.agrees, ?_, reads.root, reads.lost⟩
      intro duty member
      rcases Multiset.mem_cons.mp member with equal | other
      · subst equal
        have meaning := reads.duties (.resolve task) (Multiset.mem_cons_self _ _)
        exact meaning.trans (sound.answer answered notMeta)
      · exact reads.beside.duties duty other
  | perform live comes => exact reads.perform sound valid live comes

private theorem Reads.steps (sound : interpretation.Sound request allowed) {whole : Meaning}
    {before after : Progress} (steps : request.Steps allowed before after) (valid : before.Valid)
    (reads : ∃ meanings, interpretation.Reads whole before meanings) :
    ∃ meanings, interpretation.Reads whole after meanings := by
  induction steps with
  | refl => exact reads
  | tail earlier step induction =>
      rcases induction with ⟨meanings, reads⟩
      exact reads.step sound step (Request.Steps.valid earlier valid)

/-- The meaning of all data spans those of the top-level fields. -/
def SpansRoot (interpretation : Interpretation Meaning) (request : Request)
    (rootValue : FieldValue) (whole : Meaning) : Prop :=
  interpretation.Spans whole none
    (request.rootSlots.map (interpretation.slot request.rootName rootValue []))
    (objectOf request.rootSlots)

private theorem initial_reads (sound : interpretation.Sound request allowed)
    {rootValue : FieldValue}
    {whole : Meaning} (spans : interpretation.SpansRoot request rootValue whole) :
    ∃ meanings, interpretation.Reads whole (request.initial rootValue).progress meanings := by
  have beside : interpretation.ReadsBeside whole ({} : Draft).tree Tree.rootId 0
      (fun _ => whole) :=
    { agrees := by
        intro other node different found
        exact absurd (Nat.lt_one_iff.mp (Tree.node?_lt found)) different
      duties := by simp
      root := rfl
      lost := nofun }
  have known : Tree.rootId < ({} : Draft).tree.nodes.size := Nat.one_pos
  have spansRoot : interpretation.Spans ((fun _ : NodeId => whole) Tree.rootId)
      (Node.type ⟨.root [], none, none, []⟩) _ _ := spans
  rw [Request.initial_progress]
  exact ⟨_, beside.attach Request.initial_taken rfl request.initial_fits
    (assigns_slots sound _ request.rootName rootValue _ _) (spansRoot.agrees_slots known true) []⟩

/-- Once nothing is left to do, the meanings of nodes that are not discarded admit what the nodes
show. -/
private theorem Reads.shows {whole : Meaning} {draft : Draft} {meanings : NodeId → Meaning}
    (reads : interpretation.Reads whole (draft, 0) meanings) (valid : Progress.Valid (draft, 0)) :
    ∀ (steps : Nat) {id : Nat} {node : Node}, draft.tree.nodes.size ≤ steps + id →
      draft.tree.node? id = some node →
      (draft.tree.isDiscarded id = false ∨ node.content = .null) →
      interpretation.admits (meanings id) (draft.tree.json id) := by
  intro steps
  induction steps with
  | zero =>
      intro id node enough found
      have known : id < draft.tree.nodes.size := Tree.node?_lt found
      exact absurd known (by omega)
  | succ steps induction =>
      intro id node enough found state
      rw [valid.formed.json_eq found]
      apply (reads.agrees found).admits
      · intro isPending
        have live := state.resolve_right (by simp [isPending])
        rcases valid.covered found isPending live with ⟨duty, member, _⟩
        exact absurd member (Multiset.notMem_zero duty)
      · intro segment child listed
        rcases valid.formed.child found listed with ⟨inner, foundChild, isParent, _⟩
        have live : draft.tree.isDiscarded id = false := by
          apply state.resolve_right
          intro isNull
          rw [isNull] at listed
          cases listed
        have greater : id < (show Nat from child) := valid.formed.lt_child found listed
        have remaining : draft.tree.nodes.size ≤ steps + (show Nat from child) := by omega
        apply induction remaining foundChild
        cases lost : draft.tree.isDiscarded child with
        | false => exact .inl rfl
        | true =>
            refine .inr ?_
            rcases (valid.formed.isDiscarded_iff foundChild).mp lost with allNull | isNull |
                ⟨parent, sameParent, above⟩
            · rw [(valid.formed.isLive found live).data] at allNull
              cases allNull
            · exact isNull
            · rw [isParent, Option.some.injEq] at sameParent
              rw [← sameParent, live] at above
              cases above

/-- What a finished run shows is what the meaning of all data admits, or it is null that may have
come from there. -/
theorem data_admitted (sound : interpretation.Sound request allowed) {rootValue : FieldValue}
    {whole : Meaning} (spans : interpretation.SpansRoot request rootValue whole) {draft : Draft}
    (runs : request.Runs allowed (request.initial rootValue) (draft, 0)) :
    (draft.tree.data = .null ∧ interpretation.yields whole none) ∨
      interpretation.admits whole draft.tree.data := by
  have valid := request.initial_valid rootValue
  have finished : Progress.Valid (draft, 0) := runs.valid
  rcases Reads.steps sound (runs.steps valid) valid (initial_reads sound spans) with
    ⟨meanings, reads⟩
  rw [Tree.data_eq]
  cases allNull : draft.tree.dataIsNull with
  | true => exact .inl ⟨rfl, reads.lost allNull⟩
  | false =>
      refine .inr ?_
      rcases finished.formed.root with ⟨fields, foundRoot⟩
      have live : draft.tree.isDiscarded Tree.rootId = false := by
        cases lost : draft.tree.isDiscarded Tree.rootId with
        | false => rfl
        | true =>
            rcases (finished.formed.isDiscarded_iff foundRoot).mp lost with isLost | isNull |
                ⟨parent, isParent, _⟩
            · rw [allNull] at isLost
              cases isLost
            · cases isNull
            · cases isParent
      have root := reads.shows finished draft.tree.nodes.size (Nat.le_add_right _ _) foundRoot
        (.inl live)
      rw [reads.root] at root
      exact root

end Interpretation

end GraphQL
