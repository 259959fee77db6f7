import GraphQL.Proofs.Execution.Completion
import Mathlib.Algebra.Order.Group.Multiset
import Mathlib.Data.Multiset.UnionInter
import Mathlib.Logic.Relation

/-!
The executor of fields in small steps. A state is a draft with the duties that are left: fields to
resolve, and values to complete at nodes. Each step takes up one duty, in any order. Finishing a
task takes such steps, so what they keep holds however tasks are scheduled.
-/

namespace GraphQL

/-- A piece of work at a pending node. -/
inductive Duty where
  | resolve (task : FieldTask)
  | complete (task : FieldTask) (type : TypeRef) (node : NodeId) (value : FieldValue)

namespace Duty

def task : Duty → FieldTask
  | .resolve task => task
  | .complete task _ _ _ => task

def node : Duty → NodeId
  | .resolve task => task.node
  | .complete _ _ node _ => node

/-- The type of the node. -/
def type : Duty → TypeRef
  | .resolve task => task.definition.type
  | .complete _ type _ _ => type

/-- The value to complete, if there is one yet. -/
def value : Duty → FieldValue
  | .resolve _ => .null
  | .complete _ _ _ value => value

end Duty

/-- The error of a field whose resolver gave no value. -/
def Resolution.refusal? : Resolution → Option ResponseError
  | .outcome (.value _) => none
  | .outcome (.error error) => some error.toResponse
  | .outcome (.panic reason) => some (unhandledError reason)
  | .invalidArguments error => some (Request.argumentError error)

/-- How fields may be resolved at their paths. -/
abbrev Answering := FieldCall → Path → Resolution → Prop

/-- A draft and what is left to do. -/
abbrev Progress := Draft × Multiset Duty

namespace Request

/-- What a duty may come to at a path. -/
inductive Comes (request : Request) (allowed : Answering) (path : Path) : Duty → Verdict → Prop
  | refused {task : FieldTask} {resolution : Resolution} {error : ResponseError}
      (answered : allowed task.toFieldCall path resolution)
      (refusal : resolution.refusal? = some error) :
      Comes request allowed path (.resolve task) (.failure error)
  | described {task : FieldTask} {value : FieldValue}
      (answered : allowed task.toFieldCall path (.outcome (.value value)))
      (isMeta : task.isMeta = true) :
      Comes request allowed path (.resolve task) (.leaf (metaJson value))
  | judged {task : FieldTask} {type : TypeRef} {node : NodeId} {value : FieldValue}
      {verdict : Verdict} (judged : request.Judged type value verdict)
      (isVerdict : request.judge task.toFieldCall type value = verdict) :
      Comes request allowed path (.complete task type node value) verdict

/-- Write down what a duty came to. -/
def perform (request : Request) (duty : Duty) (draft : Draft) : Verdict → Draft × List Duty
  | .failure error => (draft.fail duty.task duty.node error, [])
  | .null => (draft.set duty.node .null, [])
  | .leaf json => (draft.set duty.node (.leaf json), [])
  | .items item values =>
      let nodes := List.range' draft.tree.nodes.size values.length
      ({ draft with
          tree :=
            draft.tree.attach duty.node (.array nodes) (Tree.itemSprouts item 0 values.length) },
        (nodes.zip values).map fun entry => .complete duty.task item entry.1 entry.2)
  | .object object =>
      let (draft, tasks) := withSlots duty.node false object.name duty.value draft
        (request.slots object duty.task.selectionSets)
      (draft, tasks.map .resolve)

/-- One duty is taken up. Those at discarded nodes are dropped. -/
inductive Step (request : Request) (allowed : Answering) : Progress → Progress → Prop
  | skip {draft : Draft} {duty : Duty} {duties : Multiset Duty}
      (lost : draft.tree.isDiscarded duty.node = true) :
      Step request allowed (draft, duty ::ₘ duties) (draft, duties)
  | answer {draft : Draft} {task : FieldTask} {value : FieldValue} {duties : Multiset Duty}
      (live : draft.tree.isDiscarded task.node = false)
      (answered : allowed task.toFieldCall (draft.tree.path task.node) (.outcome (.value value)))
      (notMeta : task.isMeta = false) :
      Step request allowed (draft, .resolve task ::ₘ duties)
        (draft, .complete task task.definition.type task.node value ::ₘ duties)
  | perform {draft : Draft} {duty : Duty} {verdict : Verdict} {duties : Multiset Duty}
      (live : draft.tree.isDiscarded duty.node = false)
      (comes : request.Comes allowed (draft.tree.path duty.node) duty verdict) :
      Step request allowed (draft, duty ::ₘ duties)
        ((request.perform duty draft verdict).1,
          ((request.perform duty draft verdict).2 : Multiset Duty) + duties)

/-- Any number of steps. -/
abbrev Steps (request : Request) (allowed : Answering) : Progress → Progress → Prop :=
  Relation.ReflTransGen (request.Step allowed)

/-- A property of duties that is passed on to all duties which one with it leads to. -/
structure PassesOn (request : Request) (allowed : Answering) (holds : Duty → Prop) : Prop where
  answered : ∀ {task : FieldTask} (value : FieldValue), holds (.resolve task) →
    task.isMeta = false → holds (.complete task task.definition.type task.node value)
  items : ∀ {task type node value item values}, holds (.complete task type node value) →
    request.Judged type value (.items item values) →
    ∀ child inside, holds (.complete task item child inside)
  object : ∀ {duty path object}, holds duty → request.Comes allowed path duty (.object object) →
    ∀ slot ∈ request.slots object duty.task.selectionSets, ∀ node,
      holds (.resolve ⟨slot.call object.name duty.value, node⟩)

end Request

/-! ## Valid states -/

/-- The duties are those of the pending nodes, but for nodes that are discarded. -/
structure Progress.Valid (progress : Progress) : Prop where
  formed : progress.1.tree.WellFormed
  pending : ∀ duty ∈ progress.2, ∃ node, progress.1.tree.node? duty.node = some node ∧
    node.content = .pending ∧ node.type = some duty.type
  distinct : (progress.2.map Duty.node).Nodup
  covered : ∀ {id node}, progress.1.tree.node? id = some node → node.content = .pending →
    progress.1.tree.isDiscarded id = false → ∃ duty ∈ progress.2, duty.node = id

/-- A state is valid but for one node, whose duty was taken up. -/
structure Taken (tree : Tree) (id : NodeId) (duties : Multiset Duty) : Prop where
  formed : tree.WellFormed
  pending : ∀ duty ∈ duties, ∃ node, tree.node? duty.node = some node ∧
    node.content = .pending ∧ node.type = some duty.type
  distinct : (duties.map Duty.node).Nodup
  apart : ∀ duty ∈ duties, duty.node ≠ id
  covered : ∀ {other node}, other ≠ id → tree.node? other = some node → node.content = .pending →
    tree.isDiscarded other = false → ∃ duty ∈ duties, duty.node = other

theorem Progress.Valid.taken {draft : Draft} {duty : Duty} {duties : Multiset Duty}
    (valid : Progress.Valid (draft, duty ::ₘ duties)) : Taken draft.tree duty.node duties where
  formed := valid.formed
  pending other member := valid.pending other (Multiset.mem_cons_of_mem member)
  distinct := by
    have distinct := valid.distinct
    rw [Multiset.map_cons] at distinct
    exact (Multiset.nodup_cons.mp distinct).2
  apart := by
    have distinct := valid.distinct
    rw [Multiset.map_cons] at distinct
    intro other member same
    exact (Multiset.nodup_cons.mp distinct).1 (same ▸ Multiset.mem_map_of_mem Duty.node member)
  covered := by
    intro other node different found isPending live
    rcases valid.covered found isPending live with ⟨holder, member, holds⟩
    rcases Multiset.mem_cons.mp member with equal | member
    · exact absurd (equal ▸ holds).symm different
    · exact ⟨holder, member, holds⟩

/-- New duties stand for the new children that are pending. -/
structure Serves (tree : Tree) (sprouts : List Tree.Sprout) (duties : List Duty) : Prop where
  stands : ∀ duty ∈ duties, ∃ index sprout, sprouts[index]? = some sprout ∧
    duty.node = tree.nodes.size + index ∧ sprout.content = .pending ∧ sprout.type = duty.type
  served : ∀ {index sprout}, sprouts[index]? = some sprout → sprout.content = .pending →
    ∃ duty ∈ duties, duty.node = tree.nodes.size + index
  distinct : (duties.map Duty.node).Nodup

/-- The node of a new duty. -/
theorem Serves.node? {tree : Tree} {sprouts : List Tree.Sprout} {duties : List Duty}
    (serves : Serves tree sprouts duties) {id : NodeId} (known : id < tree.nodes.size)
    (content : NodeContent) {duty : Duty} (member : duty ∈ duties) :
    ∃ sprout, (tree.attach id content sprouts).node? duty.node = some (tree.grow id sprout) ∧
      sprout ∈ sprouts ∧ sprout.content = .pending ∧ sprout.type = duty.type := by
  rcases serves.stands duty member with ⟨index, sprout, stands, isNode, isPending, isType⟩
  refine ⟨sprout, ?_, List.mem_of_getElem? stands, isPending, isType⟩
  rw [isNode, Tree.node?_attach_new known, stands]
  rfl

private theorem Serves.nil (tree : Tree) : Serves tree [] [] :=
  ⟨by simp, by simp, List.nodup_nil⟩

namespace Taken

variable {draft : Draft} {id : NodeId} {duties : Multiset Duty}

/-- The node is given content, and its new children have duties of their own. -/
private theorem attach (taken : Taken draft.tree id duties) {node : Node} {content : NodeContent}
    {sprouts : List Tree.Sprout} {added : List Duty} (found : draft.tree.node? id = some node)
    (fits : draft.tree.Fits node content sprouts) (filled : content ≠ .pending)
    (serves : Serves draft.tree sprouts added) (failures : List Failure) :
    Progress.Valid
      (⟨draft.tree.attach id content sprouts, failures⟩, (added : Multiset Duty) + duties) where
  formed := taken.formed.attach found fits
  pending := by
    intro duty member
    rcases Multiset.mem_add.mp member with isNew | isOld
    · rcases serves.node? (Tree.node?_lt found) content (Multiset.mem_coe.mp isNew) with
        ⟨sprout, foundNew, _, isPending, isType⟩
      exact ⟨draft.tree.grow id sprout, foundNew, isPending, congrArg some isType⟩
    · rcases taken.pending duty isOld with ⟨other, foundOther, isPending, isType⟩
      exact ⟨other, Tree.node?_attach_old foundOther (taken.apart duty isOld) _ _, isPending,
        isType⟩
  distinct := by
    rw [Multiset.map_add, Multiset.nodup_add]
    refine ⟨serves.distinct, taken.distinct, ?_⟩
    rw [Multiset.disjoint_left]
    intro other isNew isOld
    rcases List.mem_map.mp (Multiset.mem_coe.mp isNew) with ⟨added, member, isAdded⟩
    rcases Multiset.mem_map.mp isOld with ⟨old, isOldDuty, isNode⟩
    rcases serves.stands added member with ⟨index, _, _, isFresh, _⟩
    rcases taken.pending old isOldDuty with ⟨_, foundOld, _⟩
    have known := Tree.node?_lt foundOld
    rw [isNode, ← isAdded, isFresh] at known
    exact absurd known (Nat.not_lt.mpr (Nat.le_add_right _ _))
  covered := by
    intro other above foundOther isPending live
    have formed := taken.formed.attach found fits
    rcases Tree.node?_attach_cases found foundOther with ⟨different, foundOld⟩ | ⟨isHere, equal⟩ |
        ⟨index, sprout, isNew, stands, equal⟩
    · have growth : draft.tree.Extends (draft.tree.attach id content sprouts) :=
        Tree.attach_extends found fits.isOpen.ne_null
      rcases taken.covered different foundOld isPending
        (growth.live taken.formed formed live) with ⟨duty, member, holds⟩
      exact ⟨duty, Multiset.mem_add.mpr (.inr member), holds⟩
    · rw [equal] at isPending
      exact absurd isPending filled
    · rw [equal] at isPending
      rcases serves.served stands isPending with ⟨duty, member, holds⟩
      exact ⟨duty, Multiset.mem_add.mpr (.inl (Multiset.mem_coe.mpr member)), isNew ▸ holds⟩

private theorem set (taken : Taken draft.tree id duties) {node : Node} {content : NodeContent}
    (found : draft.tree.node? id = some node) (isPending : node.content = .pending)
    (childless : content.children = []) (filled : content ≠ .pending) :
    Progress.Valid (draft.set id content, duties) := by
  have valid := taken.attach found (.ofChildless isPending childless) filled (Serves.nil _)
    draft.failures
  rw [Tree.attach_nil, Multiset.coe_nil, zero_add] at valid
  exact valid

/-- The node is discarded, or it is left alone because it is. -/
private theorem settle {tree : Tree} (taken : Taken tree id duties) {later : Tree}
    (formed : later.WellFormed) (growth : tree.Extends later)
    (kept : ∀ {other node}, later.node? other = some node → node.content = .pending →
      tree.node? other = some node)
    (stays : ∀ duty ∈ duties, later.node? duty.node = tree.node? duty.node)
    (lost : later.isDiscarded id = true) (failures : List Failure) :
    Progress.Valid (⟨later, failures⟩, duties) where
  formed := formed
  pending duty member := by
    rcases taken.pending duty member with ⟨node, found, known⟩
    exact ⟨node, (stays duty member).trans found, known⟩
  distinct := taken.distinct
  covered := by
    intro other node found isPending live
    have different : other ≠ id := by
      intro equal
      rw [equal, lost] at live
      cases live
    have before := kept found isPending
    exact taken.covered different before isPending
      (growth.live taken.formed formed live)

private theorem skip (taken : Taken draft.tree id duties)
    (lost : draft.tree.isDiscarded id = true) :
    Progress.Valid (draft, duties) :=
  taken.settle taken.formed (Tree.Extends.refl _) (fun found _ => found) (fun _ _ => rfl) lost
    draft.failures

private theorem fail (taken : Taken draft.tree id duties) {node : Node}
    (found : draft.tree.node? id = some node) (task : FieldTask) (error : ResponseError) :
    Progress.Valid (draft.fail task id error, duties) := by
  have moves := taken.formed.nullPosition_movesUp found
  have formed : (draft.tree.propagateNull id).WellFormed := taken.formed.nullAt moves
  refine taken.settle formed (draft.tree.nullAt_extends _) ?_ ?_ (moves.discards taken.formed) _
  · intro other after foundAfter isPending
    rcases Tree.nullAt_cases foundAfter with ⟨_, foundBefore⟩ | ⟨_, before, _, equal⟩
    · exact foundBefore
    · rw [equal] at isPending
      cases isPending
  · intro duty member
    rcases taken.pending duty member with ⟨held, foundHeld, isPending, _⟩
    have untouched : draft.tree.nullPosition id ≠ some duty.node := by
      intro isTarget
      rcases moves.stays_or_parent duty.node isTarget with same |
          ⟨child, below, foundChild, isParent⟩
      · exact taken.apart duty member same
      · exact taken.formed.not_parent_of_open foundHeld (isPending ▸ .pending) foundChild isParent
    rw [Tree.propagateNull]
    cases isTarget : draft.tree.nullPosition id with
    | none => rfl
    | some top =>
        rw [isTarget] at untouched
        exact Tree.node?_set_of_ne _ (fun equal => untouched (congrArg some equal.symm)) _

end Taken

/-! ## What a step does -/

/-- The duties of the items of a list are numbered like the items. -/
theorem mem_itemDuties {task : FieldTask} {item : TypeRef} {values : List FieldValue} {size : Nat}
    {duty : Duty}
    (member : duty ∈ ((List.range' size values.length).zip values).map fun entry =>
      Duty.complete task item entry.1 entry.2) :
    ∃ index value, values[index]? = some value ∧
      duty = .complete task item (size + index) value := by
  rcases List.mem_map.mp member with ⟨⟨id, value⟩, zipped, rfl⟩
  rcases List.mem_iff_getElem?.mp zipped with ⟨index, stands⟩
  have parts := List.getElem?_zip_eq_some.mp stands
  have inside : index < values.length := (List.getElem?_eq_some_iff.mp parts.2).1
  have number := parts.1
  rw [List.getElem?_range' inside, Option.some.injEq, Nat.one_mul] at number
  exact ⟨index, value, parts.2, number ▸ rfl⟩

/-- So are the duties of the fields of an object, of which the type name has none. -/
theorem mem_slotDuties {slots : List Slot} {size : Nat} {objectName : String} {parent : FieldValue}
    {duty : Duty}
    (member : duty ∈ ((slots.zipIdx size).filterMap (Slot.task? objectName parent)).map
      Duty.resolve) :
    ∃ index slot, slots[index]? = some slot ∧ ¬slot.isTypeName = true ∧
      duty = .resolve ⟨slot.call objectName parent, size + index⟩ := by
  rcases List.mem_map.mp member with ⟨task, isTask, rfl⟩
  rcases List.mem_filterMap.mp isTask with ⟨⟨slot, id⟩, numbered, given⟩
  have place := List.mk_mem_zipIdx_iff_le_and_getElem?_sub.mp numbered
  rw [Slot.task?] at given
  split at given
  · cases given
  · rename_i notTypeName
    cases given
    refine ⟨id - size, slot, place.2, notTypeName, ?_⟩
    rw [Nat.add_sub_of_le place.1]

theorem getElem?_itemSprouts (item : TypeRef) {count index : Nat} (inside : index < count) :
    (Tree.itemSprouts item 0 count)[index]? = some ⟨.index index, item, .pending⟩ := by
  rw [Tree.itemSprouts, List.getElem?_map, List.getElem?_range' inside]
  simp

theorem serves_items (tree : Tree) (task : FieldTask) (item : TypeRef) (values : List FieldValue) :
    Serves tree (Tree.itemSprouts item 0 values.length)
      (((List.range' tree.nodes.size values.length).zip values).map fun entry =>
        .complete task item entry.1 entry.2) where
  stands := by
    intro duty member
    rcases mem_itemDuties member with ⟨index, value, isValue, rfl⟩
    have inside : index < values.length := (List.getElem?_eq_some_iff.mp isValue).1
    exact ⟨index, _, getElem?_itemSprouts item inside, rfl, rfl, rfl⟩
  served := by
    intro index sprout stands _
    have inside : index < values.length := by
      have known := (List.getElem?_eq_some_iff.mp stands).1
      rwa [Tree.itemSprouts, List.length_map, List.length_range'] at known
    refine ⟨.complete task item (tree.nodes.size + index) values[index], ?_, rfl⟩
    refine List.mem_map.mpr ⟨(tree.nodes.size + index, values[index]), ?_, rfl⟩
    apply List.mem_iff_getElem?.mpr
    refine ⟨index, List.getElem?_zip_eq_some.mpr ⟨?_, List.getElem?_eq_getElem inside⟩⟩
    rw [List.getElem?_range' inside, Nat.one_mul]
  distinct := by
    rw [List.map_map]
    have numbers : ((List.range' tree.nodes.size values.length).zip values).map
        (Duty.node ∘ fun entry => Duty.complete task item entry.1 entry.2) =
        List.range' tree.nodes.size values.length :=
      List.map_fst_zip (Nat.le_of_eq List.length_range')
    rw [numbers]
    exact List.nodup_range'

theorem serves_slots (tree : Tree) (objectName : String) (parent : FieldValue)
    (slots : List Slot) :
    Serves tree (slots.map (Slot.sprout objectName))
      (((slots.zipIdx tree.nodes.size).filterMap (Slot.task? objectName parent)).map .resolve) where
  stands := by
    intro duty member
    rcases mem_slotDuties member with ⟨index, slot, isSlot, notTypeName, rfl⟩
    refine ⟨index, slot.sprout objectName, ?_, rfl, ?_, rfl⟩
    · rw [List.getElem?_map, isSlot]
      rfl
    · rw [Slot.sprout, if_neg notTypeName]
  served := by
    intro index sprout stands isPending
    rw [List.getElem?_map] at stands
    rcases Option.map_eq_some_iff.mp stands with ⟨slot, isSlot, equal⟩
    subst equal
    have notTypeName : ¬slot.isTypeName = true := by
      intro isTypeName
      rw [Slot.sprout, if_pos isTypeName] at isPending
      cases isPending
    refine ⟨.resolve ⟨slot.call objectName parent, tree.nodes.size + index⟩, ?_, rfl⟩
    refine List.mem_map.mpr
      ⟨_, List.mem_filterMap.mpr ⟨(slot, tree.nodes.size + index), ?_, ?_⟩, rfl⟩
    · exact List.mk_add_mem_zipIdx_iff_getElem?.mpr isSlot
    · rw [Slot.task?, if_neg notTypeName]
  distinct := by
    rw [List.map_map]
    have numbers : ∀ (start : Nat), (((slots.zipIdx start).filterMap
        (Slot.task? objectName parent)).map (Duty.node ∘ Duty.resolve)).Sublist
          (List.range' start slots.length) := by
      induction slots with
      | nil => exact fun _ => List.Sublist.slnil
      | cons slot slots induction =>
          intro start
          rw [List.zipIdx_cons, List.filterMap_cons, List.length_cons, List.range'_succ, Slot.task?]
          by_cases isTypeName : slot.isTypeName = true
          · rw [if_pos isTypeName]
            exact (induction (start + 1)).cons _
          · rw [if_neg isTypeName]
            exact (induction (start + 1)).cons_cons _
    exact List.Nodup.sublist (numbers _) List.nodup_range'

namespace Request

variable {request : Request} {allowed : Answering}

namespace PassesOn

variable {holds : Duty → Prop}

private theorem step (passes : request.PassesOn allowed holds) {before after : Progress}
    (step : request.Step allowed before after) (each : ∀ duty ∈ before.2, holds duty) :
    ∀ duty ∈ after.2, holds duty := by
  cases step with
  | skip lost => exact fun duty member => each duty (Multiset.mem_cons_of_mem member)
  | @answer draft task value duties live answered notMeta =>
      intro duty member
      rcases Multiset.mem_cons.mp member with rfl | other
      · exact passes.answered value (each _ (Multiset.mem_cons_self _ _)) notMeta
      · exact each duty (Multiset.mem_cons_of_mem other)
  | @perform draft duty verdict duties live comes =>
      have here := each duty (Multiset.mem_cons_self _ _)
      intro other member
      rcases Multiset.mem_add.mp member with isNew | isOld
      · have isNew := Multiset.mem_coe.mp isNew
        cases verdict with
        | failure | null | leaf => cases isNew
        | object object =>
            rcases mem_slotDuties isNew with ⟨index, slot, isSlot, _, rfl⟩
            exact passes.object here comes slot (List.mem_of_getElem? isSlot) _
        | items item values =>
            cases comes with
            | judged judged =>
                rcases mem_itemDuties isNew with ⟨index, value, _, rfl⟩
                exact passes.items here judged _ _
      · exact each other (Multiset.mem_cons_of_mem isOld)

theorem steps (passes : request.PassesOn allowed holds) {before after : Progress}
    (steps : request.Steps allowed before after) (each : ∀ duty ∈ before.2, holds duty) :
    ∀ duty ∈ after.2, holds duty := by
  induction steps with
  | refl => exact each
  | tail _ step induction => exact passes.step step induction

end PassesOn

private theorem perform_valid {draft : Draft} {duty : Duty} {duties : Multiset Duty} {node : Node}
    (taken : Taken draft.tree duty.node duties) (found : draft.tree.node? duty.node = some node)
    (isPending : node.content = .pending) (verdict : Verdict) :
    Progress.Valid ((request.perform duty draft verdict).1,
      ((request.perform duty draft verdict).2 : Multiset Duty) + duties) := by
  have nothing : ((([] : List Duty) : Multiset Duty) + duties) = duties := zero_add duties
  cases verdict with
  | failure error =>
      rw [perform, nothing]
      exact taken.fail found duty.task error
  | null =>
      rw [perform, nothing]
      exact taken.set found isPending rfl (fun equal => by cases equal)
  | leaf json =>
      rw [perform, nothing]
      exact taken.set found isPending rfl (fun equal => by cases equal)
  | items item values =>
      exact taken.attach found (Tree.addItems_fits isPending item values.length)
        (fun equal => by cases equal) (serves_items _ _ item values) draft.failures
  | object object =>
      exact taken.attach found
        (Tree.attachSlots_fits false isPending object.name
          (request.slots_distinct object duty.task.selectionSets))
        (fun equal => by cases equal) (serves_slots _ object.name duty.value _) draft.failures

theorem perform_extends {draft : Draft} {duty : Duty} {node : Node}
    (found : draft.tree.node? duty.node = some node) (isPending : node.content = .pending)
    (verdict : Verdict) :
    draft.tree.Extends (request.perform duty draft verdict).1.tree := by
  have notNull : node.content ≠ .null := by
    rw [isPending]
    intro equal
    cases equal
  cases verdict with
  | failure error => exact draft.tree.nullAt_extends _
  | null => exact Tree.set_extends found notNull
  | leaf json => exact Tree.set_extends found notNull
  | items item values => exact Tree.attach_extends found notNull
  | object object => exact Tree.attach_extends found notNull

theorem Step.valid {before after : Progress} (step : request.Step allowed before after)
    (valid : before.Valid) : after.Valid := by
  cases step with
  | skip lost => exact valid.taken.skip lost
  | @answer draft task value duties live answered notMeta =>
      have sameNodes : ((Duty.resolve task ::ₘ duties).map Duty.node) =
          ((Duty.complete task task.definition.type task.node value ::ₘ duties).map Duty.node) := by
        rw [Multiset.map_cons, Multiset.map_cons]
        rfl
      refine ⟨valid.formed, ?_, sameNodes ▸ valid.distinct, ?_⟩
      · intro duty member
        rcases Multiset.mem_cons.mp member with equal | other
        · subst equal
          exact valid.pending (.resolve task) (Multiset.mem_cons_self _ _)
        · exact valid.pending duty (Multiset.mem_cons_of_mem other)
      · intro id node found isPending alive
        rcases valid.covered found isPending alive with ⟨duty, member, holds⟩
        rcases Multiset.mem_cons.mp member with equal | other
        · subst equal
          exact ⟨_, Multiset.mem_cons_self _ _, holds⟩
        · exact ⟨duty, Multiset.mem_cons_of_mem other, holds⟩
  | @perform draft duty verdict duties live comes =>
      rcases valid.pending duty (Multiset.mem_cons_self _ _) with ⟨node, found, isPending, _⟩
      exact perform_valid valid.taken found isPending verdict

private theorem Step.extends {before after : Progress} (step : request.Step allowed before after)
    (valid : before.Valid) : before.1.tree.Extends after.1.tree := by
  cases step with
  | skip lost => exact Tree.Extends.refl _
  | answer live answered notMeta => exact Tree.Extends.refl _
  | @perform draft duty verdict duties live comes =>
      rcases valid.pending duty (Multiset.mem_cons_self _ _) with ⟨node, found, isPending, _⟩
      exact perform_extends found isPending verdict

theorem Steps.valid {before after : Progress} (steps : request.Steps allowed before after)
    (valid : before.Valid) : after.Valid := by
  induction steps with
  | refl => exact valid
  | tail _ step induction => exact step.valid induction

theorem Steps.extends {before after : Progress} (steps : request.Steps allowed before after)
    (valid : before.Valid) : before.1.tree.Extends after.1.tree := by
  induction steps with
  | refl => exact Tree.Extends.refl _
  | tail earlier step induction => exact induction.trans (step.extends (Steps.valid earlier valid))

/-! ## Finishing a task takes such steps -/

private theorem steps_skip {draft : Draft} {duties : Multiset Duty} :
    ∀ lost : List Duty, (∀ duty ∈ lost, draft.tree.isDiscarded duty.node = true) →
      request.Steps allowed (draft, (lost : Multiset Duty) + duties) (draft, duties)
  | [], _ => by
      rw [Multiset.coe_nil, zero_add]
  | duty :: lost, discarded => by
      rw [← Multiset.cons_coe, Multiset.cons_add]
      exact .head (.skip (discarded duty List.mem_cons_self))
        (steps_skip lost fun other member => discarded other (List.mem_cons_of_mem duty member))

/-- What completing a value has to do with steps. -/
private def CompletesInSteps (request : Request) (allowed : Answering) (task : FieldTask)
    (type : TypeRef) : Prop :=
  ∀ {node value draft} {duties : Multiset Duty},
    Progress.Valid (draft, Duty.complete task type node value ::ₘ duties) →
    draft.tree.isDiscarded node = false →
    request.Steps allowed (draft, Duty.complete task type node value ::ₘ duties)
      ((request.completeValue task type node value draft).1,
        (((request.completeValue task type node value draft).2.map .resolve : List Duty) :
          Multiset Duty) + duties)

/-- Items of one list are completed in order. Once one is discarded, all are. -/
private theorem completeItems_steps {task : FieldTask} {item : TypeRef} {list : NodeId}
    (inSteps : request.CompletesInSteps allowed task item) :
    ∀ (items : List (NodeId × FieldValue)) (draft : Draft) (duties : Multiset Duty),
      Progress.Valid (draft,
        ((items.map fun entry => Duty.complete task item entry.1 entry.2 : List Duty) :
          Multiset Duty) + duties) →
      (∀ entry ∈ items, ∃ node, draft.tree.node? entry.1 = some node ∧ node.parent = some list) →
      request.Steps allowed
        (draft, ((items.map fun entry => Duty.complete task item entry.1 entry.2 : List Duty) :
          Multiset Duty) + duties)
        ((completeItems (request.completeValue task item) items draft).1,
          (((completeItems (request.completeValue task item) items draft).2.map .resolve :
            List Duty) : Multiset Duty) + duties) := by
  intro items
  induction items with
  | nil =>
      intro draft duties _ _
      exact .refl
  | cons entry items induction =>
      intro draft duties valid siblings
      rcases siblings entry List.mem_cons_self with ⟨node, found, isParent⟩
      rw [completeItems]
      cases lost : draft.tree.isDiscarded entry.1 with
      | true =>
          simp only [if_true, List.map_nil, Multiset.coe_nil, zero_add]
          apply steps_skip
          have notNull : node.content ≠ .null := by
            rcases valid.pending (.complete task item entry.1 entry.2)
              (Multiset.mem_add.mpr (.inl (Multiset.mem_coe.mpr List.mem_cons_self))) with
              ⟨held, foundHeld, pending, _⟩
            rw [Option.some.inj (found.symm.trans foundHeld), pending]
            intro equal
            cases equal
          intro duty isItem
          rcases List.mem_map.mp isItem with ⟨other, member, equal⟩
          subst equal
          rcases siblings other member with ⟨below, foundBelow, belowParent⟩
          exact valid.formed.isDiscarded_beside found isParent notNull lost foundBelow belowParent
      | false =>
          simp only [Bool.false_eq_true, if_false, List.map_cons, List.map_append]
          rw [← Multiset.cons_coe, Multiset.cons_add]
          rw [List.map_cons, ← Multiset.cons_coe, Multiset.cons_add] at valid
          have first := inSteps valid lost
          rw [add_left_comm] at first
          have growth := Steps.extends first valid
          have rest := induction _ _ (Steps.valid first valid) (by
            intro other member
            rcases siblings other (List.mem_cons_of_mem entry member) with
              ⟨below, foundBelow, belowParent⟩
            rcases growth.node foundBelow with ⟨content, foundLater, _⟩
            exact ⟨_, foundLater, belowParent⟩)
          rw [← Multiset.coe_add, add_assoc, add_left_comm]
          exact first.trans rest

/-- A value is completed by performing what it comes to, and then its items if it is a list. -/
theorem completeValue_steps (task : FieldTask) (type : TypeRef) :
    request.CompletesInSteps allowed task type := by
  intro node value draft duties valid live
  have held : ∃ before, draft.tree.node? node = some before ∧ before.content = .pending ∧
      before.type = some type := valid.pending _ (Multiset.mem_cons_self _ _)
  rcases held with ⟨before, found, isPending, _⟩
  have judged := request.judge_judged task.toFieldCall type value
  have step : request.Step allowed (draft, Duty.complete task type node value ::ₘ duties) _ :=
    .perform live (.judged judged rfl)
  have later := step.valid valid
  rw [completeValue_eq]
  generalize request.judge task.toFieldCall type value = verdict at judged step later ⊢
  cases judged with
  | failure error => exact .single step
  | null => exact .single step
  | leaf => exact .single step
  | @object named object notNull isSingle registered runsAs =>
      have expanded : request.expandObject node object task.selectionSets value draft =
          withSlots node false object.name value draft
            (request.slots object task.selectionSets) :=
        request.expandObject_eq false (runsAs.registered registered) found isPending
      rw [complete, expanded]
      exact .single step
  | @items item values notNull isList iterable =>
      have smaller : sizeOf item < sizeOf type := TypeRef.sizeOf_listItem_lt isList
      rw [complete, Tree.addItems_eq found]
      refine .head step ?_
      apply completeItems_steps (completeValue_steps task item) _ _ duties later
      intro entry member
      rcases (serves_items draft.tree task item values).node? (Tree.node?_lt found)
          (.array (List.range' draft.tree.nodes.size values.length))
          (List.mem_map.mpr ⟨entry, member, rfl⟩) with ⟨sprout, foundItem, _⟩
      exact ⟨_, foundItem, rfl⟩
termination_by sizeOf type

/-- Finishing a task takes steps. -/
private theorem finish_steps {draft later : Draft} {task : FieldTask} {resolution : Resolution}
    {next : List FieldTask} {duties : Multiset Duty}
    (valid : Progress.Valid (draft, Duty.resolve task ::ₘ duties))
    (answered : allowed task.toFieldCall (draft.tree.path task.node) resolution)
    (finished : request.finish task resolution draft = .ok (later, next)) :
    request.Steps allowed (draft, Duty.resolve task ::ₘ duties)
      (later, ((next.map .resolve : List Duty) : Multiset Duty) + duties) := by
  unfold finish at finished
  cases live : draft.tree.isDiscarded task.node with
  | true =>
      rw [live, if_pos rfl] at finished
      cases finished
      rw [List.map_nil, Multiset.coe_nil, zero_add]
      exact .single (.skip live)
  | false =>
      have refused : ∀ error, resolution.refusal? = some error →
          request.Step allowed (draft, Duty.resolve task ::ₘ duties)
            (draft.fail task task.node error, 0 + duties) :=
        fun error refusal => .perform live (.refused answered refusal)
      rw [live, if_neg Bool.false_ne_true] at finished
      cases resolution with
      | invalidArguments error =>
          cases finished
          exact .single (refused _ rfl)
      | outcome outcome =>
          cases outcome with
          | error error =>
              cases finished
              exact .single (refused _ rfl)
          | panic reason =>
              simp only at finished
              split at finished
              · cases finished
              · cases finished
                exact .single (refused _ rfl)
          | value value =>
              simp only at finished
              split at finished
              · rename_i isMeta
                cases finished
                exact .single (.perform live (.described answered isMeta))
              · rename_i notMeta
                have step : request.Step allowed (draft, Duty.resolve task ::ₘ duties) _ :=
                  .answer live answered (Bool.eq_false_iff.mpr notMeta)
                have completed : request.Steps allowed _ _ :=
                  completeValue_steps task task.definition.type (step.valid valid) live
                rw [Except.ok.inj finished] at completed
                exact .head step completed

end Request

/-! ## Runs of the executor -/

/-- A draft and the tasks that were handed out and are not finished. -/
abbrev Outstanding := Draft × Multiset FieldTask

namespace Outstanding

/-- The tasks as duties. -/
def progress (outstanding : Outstanding) : Progress := (outstanding.1, outstanding.2.map .resolve)

end Outstanding

namespace Request

variable {request : Request} {allowed : Answering}

/-- Any outstanding task may be finished next, or dropped if its node is discarded. -/
inductive Finishes (request : Request) (allowed : Answering) : Outstanding → Outstanding → Prop
  | finish {draft later : Draft} {task : FieldTask} {tasks : Multiset FieldTask}
      {resolution : Resolution} {next : List FieldTask}
      (answered : allowed task.toFieldCall (draft.tree.path task.node) resolution)
      (finished : request.finish task resolution draft = .ok (later, next)) :
      Finishes request allowed (draft, task ::ₘ tasks) (later, (next : Multiset FieldTask) + tasks)
  | drop {draft : Draft} {task : FieldTask} {tasks : Multiset FieldTask}
      (lost : draft.tree.isDiscarded task.node = true) :
      Finishes request allowed (draft, task ::ₘ tasks) (draft, tasks)

/-- The states that tasks lead to, in whatever order they are finished. -/
abbrev Runs (request : Request) (allowed : Answering) : Outstanding → Outstanding → Prop :=
  Relation.ReflTransGen (request.Finishes allowed)

/-- The state before any task is finished. -/
def initial (request : Request) (rootValue : FieldValue) : Outstanding :=
  ((request.rootTasks rootValue).1, ((request.rootTasks rootValue).2 : Multiset FieldTask))

theorem Finishes.steps {before after : Outstanding}
    (finishes : request.Finishes allowed before after) (valid : before.progress.Valid) :
    request.Steps allowed before.progress after.progress := by
  cases finishes with
  | @finish draft later task tasks resolution next answered finished =>
      rw [Outstanding.progress, Multiset.map_cons] at valid ⊢
      have steps := finish_steps valid answered finished
      rw [Outstanding.progress, Multiset.map_add]
      exact steps
  | drop lost =>
      rw [Outstanding.progress, Multiset.map_cons]
      exact .single (.skip lost)

theorem Runs.steps {before after : Outstanding} (runs : request.Runs allowed before after)
    (valid : before.progress.Valid) : request.Steps allowed before.progress after.progress := by
  induction runs with
  | refl => exact .refl
  | tail _ finishes induction =>
      exact induction.trans (finishes.steps (Steps.valid induction valid))

/-- Only the root is there before its fields are attached. -/
theorem initial_taken : Taken ({} : Draft).tree Tree.rootId 0 where
  formed := Tree.empty_wellFormed
  pending := by simp
  distinct := by simp
  apart := by simp
  covered := by
    intro other node different found
    exact absurd (Nat.lt_one_iff.mp (Tree.node?_lt found)) different

theorem initial_fits (request : Request) :
    ({} : Draft).tree.Fits ⟨.root [], none, none, []⟩
      (Tree.fieldsContent true
        ((request.rootSlots.zipIdx ({} : Draft).tree.nodes.size).map fun slot =>
          (slot.1.key, slot.2)))
      (request.rootSlots.map (Slot.sprout request.rootName)) :=
  Tree.attachSlots_fits true rfl request.rootName request.rootSlots_distinct

theorem initial_progress (request : Request) (rootValue : FieldValue) :
    (request.initial rootValue).progress =
      (⟨({} : Draft).tree.attachSlots Tree.rootId true request.rootName request.rootSlots, []⟩,
        ((((request.rootSlots.zipIdx ({} : Draft).tree.nodes.size).filterMap
          (Slot.task? request.rootName rootValue)).map .resolve : List Duty) : Multiset Duty) +
            0) := by
  rw [Outstanding.progress, initial, rootTasks_eq, Multiset.map_coe, add_zero]
  rfl

/-- At first there is a duty for each top-level field. -/
theorem initial_duties {holds : Duty → Prop} {rootValue : FieldValue}
    (each : ∀ root, request.rootType? = some root →
      ∀ slot ∈ request.slots root [request.operation.selections], ∀ node,
        holds (.resolve ⟨slot.call root.name rootValue, node⟩)) :
    ∀ duty ∈ (request.initial rootValue).progress.2, holds duty := by
  rw [initial_progress, add_zero]
  intro duty member
  rw [Multiset.mem_coe, rootSlots, rootName] at member
  cases isRoot : request.rootType? with
  | none => simp [isRoot] at member
  | some root =>
      rw [isRoot] at member
      rcases mem_slotDuties member with ⟨index, slot, isSlot, _, rfl⟩
      exact each root isRoot slot (List.mem_of_getElem? isSlot) _

theorem initial_valid (request : Request) (rootValue : FieldValue) :
    (request.initial rootValue).progress.Valid := by
  rw [initial_progress]
  exact initial_taken.attach rfl request.initial_fits (fun equal => by cases equal)
    (serves_slots _ request.rootName rootValue _) []

/-- In every state that is reached the duties are those of the pending nodes. -/
theorem Runs.valid {rootValue : FieldValue} {outstanding : Outstanding}
    (runs : request.Runs allowed (request.initial rootValue) outstanding) :
    outstanding.progress.Valid :=
  Steps.valid (runs.steps (request.initial_valid rootValue)) (request.initial_valid rootValue)

end Request

end GraphQL
