import GraphQL.Proofs.Execution.Failures
import GraphQL.Proofs.Execution.Walks

/-!
The representation of a response by a tree. The executor changes its tree by five operations, each
at a node that exists. After each of them the nodes and their parents name each other, so the loops
over the tree come to an end, and a node is discarded just when a null is at it or above it.
-/

namespace GraphQL

/-- An operation that changes a tree. -/
inductive TreeCall where
  | makeObject (node : NodeId)
  | addField (parent : NodeId) (name : String) (type : TypeRef)
  | addItems (parent : NodeId) (item : TypeRef) (count : Nat)
  | set (node : NodeId) (content : NodeContent)
  | propagateNull (node : NodeId)

/-- The node that an operation is about. -/
def TreeCall.node : TreeCall → NodeId
  | .makeObject node => node
  | .addField parent _ _ => parent
  | .addItems parent _ _ => parent
  | .set node _ => node
  | .propagateNull node => node

namespace Tree

/-- The tree after an operation. -/
def call (tree : Tree) : TreeCall → Tree
  | .makeObject node => tree.makeObject node
  | .addField parent name type => (tree.addField parent name type).2
  | .addItems parent item count => (tree.addItems parent item count).2
  | .set node content => tree.set node content
  | .propagateNull node => tree.propagateNull node

/-- Operations at nodes that exist lead from one tree to another. What holds, holds of all trees on
the way. -/
inductive Leads (holds : Tree → Prop) : Tree → Tree → Prop
  | start {tree : Tree} (first : holds tree) : Leads holds tree tree
  | call {before tree : Tree} (leads : Leads holds before tree) (call : TreeCall)
      (known : call.node < tree.nodes.size) (kept : holds (tree.call call)) :
      Leads holds before (tree.call call)

namespace Leads

variable {holds : Tree → Prop} {first second third : Tree}

private theorem last (leads : Leads holds first second) : holds second := by
  cases leads with
  | start here => exact here
  | call _ _ _ kept => exact kept

private theorem trans (leads : Leads holds first second) (further : Leads holds second third) :
    Leads holds first third := by
  induction further with
  | start _ => exact leads
  | call _ call known kept induction => exact .call induction call known kept

private theorem next (leads : Leads holds first second) (call : TreeCall)
    (known : call.node < second.nodes.size) (same : second.call call = third)
    (kept : holds third) : Leads holds first third := by
  subst same
  exact .call leads call known kept

private theorem mono {weaker : Tree → Prop} (implies : ∀ tree, holds tree → weaker tree)
    (leads : Leads holds first second) : Leads weaker first second := by
  induction leads with
  | start here => exact .start (implies _ here)
  | call _ call known kept induction => exact .call induction call known (implies _ kept)

end Leads

/-! ## Trees that represent responses -/

/-- One node lists another under a segment. -/
def Lists (tree : Tree) (id : NodeId) (segment : PathSegment) (child : NodeId) : Prop :=
  ∃ node, tree.node? id = some node ∧ (segment, child) ∈ node.content.children

/-- Every node but the root comes after its parent, one segment further down, and is listed by it
unless it is discarded. Every node that is listed names its parent and is listed once. -/
structure Represents (tree : Tree) : Prop where
  root : ∃ fields, tree.node? rootId = some ⟨.root fields, none, none, []⟩
  parent : ∀ {id}, id < tree.nodes.size → id ≠ rootId → ∃ parent segment,
    tree.HasParent id parent ∧ parent < id ∧ tree.path id = tree.path parent ++ [segment]
  child : ∀ {id segment child}, tree.Lists id segment child →
    tree.HasParent child id ∧ tree.path child = tree.path id ++ [segment]
  elsewhere : ∀ {id other segment otherSegment child}, tree.Lists id segment child →
    tree.Lists other otherSegment child → id = other ∧ segment = otherSegment
  once : ∀ {id node}, tree.node? id = some node → node.content.children.Nodup
  listed : ∀ {id parent}, tree.HasParent id parent → tree.isDiscarded id = false →
    ∃ segment, tree.Lists parent segment id

/-- The loops over a tree end, with what the functions on trees answer. Discarded are the nodes at
or below a null, among them those that a null was just moved up from. -/
structure Walkable (tree : Tree) : Prop where
  asks : ∀ {id answer}, id < tree.nodes.size →
    (tree.AsksDiscarded id answer ↔ answer = tree.isDiscarded id)
  sends : ∀ {id after}, id < tree.nodes.size →
    (tree.SendsNull id after ↔ after = tree.propagateNull id)
  renders : ∀ {id json}, id < tree.nodes.size → (tree.Renders id json ↔ json = tree.json id)
  rendersData : ∀ {data}, tree.RendersData data ↔ data = tree.data
  discarded : ∀ {id}, id < tree.nodes.size →
    (tree.isDiscarded id = true ↔ tree.dataIsNull = true ∨ tree.NullAtOrAbove id)
  nulled : ∀ {id}, id < tree.nodes.size → (tree.propagateNull id).isDiscarded id = true

namespace WellFormed

variable {tree : Tree} (formed : tree.WellFormed)

include formed

private theorem child_of_lists {id child : NodeId} {segment : PathSegment}
    (lists : tree.Lists id segment child) :
    tree.HasParent child id ∧ tree.path child = tree.path id ++ [segment] := by
  rcases lists with ⟨node, found, listed⟩
  rcases formed.child found listed with ⟨below, foundChild, isParent, isPath⟩
  exact ⟨⟨below, foundChild, isParent⟩, by rw [path_eq foundChild, path_eq found, isPath]⟩

private theorem represents : tree.Represents where
  root := formed.root
  parent known notRoot := by
    rcases exists_node known with ⟨node, found⟩
    rcases formed.hangs notRoot found with ⟨parent, above, segment, type, hanging⟩
    exact ⟨parent, segment, ⟨node, found, hanging.isParent⟩, hanging.smaller,
      by rw [path_eq found, path_eq hanging.foundAbove, hanging.path]⟩
  child lists := formed.child_of_lists lists
  elsewhere lists again := by
    rcases formed.child_of_lists lists with ⟨⟨below, found, isParent⟩, isPath⟩
    rcases formed.child_of_lists again with ⟨⟨same, foundSame, otherParent⟩, otherPath⟩
    cases found.symm.trans foundSame
    cases isParent.symm.trans otherParent
    exact ⟨rfl, List.singleton_inj.mp (List.append_cancel_left (isPath.symm.trans otherPath))⟩
  once found := .of_map Prod.fst (formed.distinct found)
  listed hasParent live := by
    rcases hasParent with ⟨node, found, isParent⟩
    have notRoot := formed.ne_root_of_parent found isParent
    rcases formed.hangs notRoot found with ⟨top, above, segment, type, hanging⟩
    cases hanging.isParent.symm.trans isParent
    refine ⟨segment, above, hanging.foundAbove, hanging.listed.resolve_right fun isNull => ?_⟩
    have aboveLive := (formed.isLive found live).parent _ isParent
    exact (formed.isLive hanging.foundAbove aboveLive).notNull isNull

private theorem walkable : tree.Walkable where
  asks known := formed.asksDiscarded_iff known
  sends known := formed.sendsNull_iff known
  renders known := formed.renders_iff known
  rendersData := formed.rendersData_iff
  discarded known := formed.isDiscarded_iff_nullAtOrAbove known
  nulled known := by
    rcases exists_node known with ⟨node, found⟩
    exact (formed.nullPosition_movesUp found).discards formed

end WellFormed

/-! ## Objects, one field after another -/

/-- Other children fit if they have the same segments. -/
private theorem Fits.replant {tree : Tree} {node : Node} {content : NodeContent}
    {sprouts others : List Sprout} (fits : tree.Fits node content sprouts)
    (sameSegments : others.map Sprout.segment = sprouts.map Sprout.segment)
    (childless : ∀ sprout ∈ others, sprout.content.children = []) :
    tree.Fits node content others where
  isOpen := fits.isOpen
  isRoot := fits.isRoot
  lists := by
    have numbered : ∀ sprouts : List Sprout,
        (sprouts.zipIdx tree.nodes.size).map (fun sprout => (sprout.1.segment, sprout.2)) =
          (sprouts.map Sprout.segment).zipIdx tree.nodes.size := by
      intro sprouts
      rw [List.zipIdx_map]
      rfl
    rw [fits.lists, numbered, numbered, sameSegments]
  distinct := sameSegments ▸ fits.distinct
  childless := childless

section Objects

variable {tree : Tree} (formed : tree.WellFormed) {id : NodeId} {node : Node}
  (found : tree.node? id = some node) (isRoot : Bool)
  (isOpen : node.content = if isRoot then .root [] else .pending) (objectName : String)

include formed found isOpen

private theorem attachSlots_wellFormed {slots : List Slot} (distinct : (Named.names slots).Nodup) :
    (tree.attachSlots id isRoot objectName slots).WellFormed :=
  formed.attach found (attachSlots_fits isRoot isOpen objectName distinct)

private theorem attachNext_wellFormed {slots : List Slot} {slot : Slot}
    (distinct : (Named.names (slots ++ [slot])).Nodup) {content : NodeContent}
    (childless : content.children = []) :
    (tree.attachNext isRoot objectName slots id slot content).WellFormed := by
  have fits : tree.Fits node _ _ := attachSlots_fits isRoot isOpen objectName distinct
  simp only [List.zipIdx_append, List.map_append] at fits
  refine formed.attach found (fits.replant (by simp [Slot.sprout]) fun sprout member => ?_)
  rcases List.mem_append.mp member with earlier | last
  · exact fits.childless sprout (List.mem_append_left _ earlier)
  · rw [List.mem_singleton.mp last]
    exact childless

private theorem attachSlots_concat_leads {slots : List Slot} {slot : Slot}
    (distinct : (Named.names (slots ++ [slot])).Nodup) :
    Leads WellFormed (tree.attachSlots id isRoot objectName slots)
      (tree.attachSlots id isRoot objectName (slots ++ [slot])) := by
  have known := node?_lt found
  have apart := Named.names_concat_nodup distinct
  have added : Leads WellFormed (tree.attachSlots id isRoot objectName slots)
      (tree.attachNext isRoot objectName slots id slot .pending) := by
    refine Leads.next
      (.start (attachSlots_wellFormed formed found isRoot isOpen objectName apart.1))
      (.addField id slot.key slot.definition.type) ?_ ?_
      (attachNext_wellFormed formed found isRoot isOpen objectName distinct rfl)
    · rw [attachSlots, attach_size]
      exact Nat.lt_add_right _ known
    · rw [call, tree.addField_attachSlots isRoot objectName slots known slot apart.2]
  rw [attachSlots_concat, Slot.sprout]
  by_cases isTypeName : slot.isTypeName = true
  · rw [if_pos isTypeName]
    refine added.next (.set (tree.nodes.size + slots.length) (.leaf (.string objectName))) ?_
      (tree.set_attachNext isRoot objectName slots known slot _ _)
      (attachNext_wellFormed formed found isRoot isOpen objectName distinct rfl)
    rw [attachNext, attach_size]
    simp [TreeCall.node]
  · rw [if_neg isTypeName]
    exact added

private theorem attachSlots_leads {slots : List Slot} (distinct : (Named.names slots).Nodup) :
    Leads WellFormed tree (tree.attachSlots id isRoot objectName slots) := by
  induction slots using List.reverseRecOn with
  | nil =>
      exact Leads.next (.start formed) (.makeObject id) (node?_lt found)
        (makeObject_eq found isOpen)
        (attachSlots_wellFormed formed found isRoot isOpen objectName distinct)
  | append_singleton slots slot induction =>
      exact (induction (Named.names_concat_nodup distinct).1).trans
        (attachSlots_concat_leads formed found isRoot isOpen objectName distinct)

end Objects

end Tree

namespace Request

variable {request : Request} {allowed : Answering}

/-! ## What the executor does to its tree -/

private theorem perform_leads {draft : Draft} {duty : Duty} {node : Node}
    (formed : draft.tree.WellFormed)
    (found : draft.tree.node? duty.node = some node) (isPending : node.content = .pending)
    (verdict : Verdict) :
    Tree.Leads Tree.WellFormed draft.tree (request.perform duty draft verdict).1.tree := by
  have known := Tree.node?_lt found
  have childless : ∀ content : NodeContent, content.children = [] →
      Tree.Leads Tree.WellFormed draft.tree (draft.tree.set duty.node content) := by
    intro content none
    have attached := formed.attach found (.ofChildless isPending none)
    rw [Tree.attach_nil] at attached
    exact .call (.start formed) (.set duty.node content) known attached
  cases verdict with
  | failure error =>
      exact .call (.start formed) (.propagateNull duty.node) known
        (formed.nullAt (formed.nullPosition_movesUp found))
  | null => exact childless .null rfl
  | leaf json => exact childless (.leaf json) rfl
  | items item values =>
      refine Tree.Leads.next (.start formed) (.addItems duty.node item values.length) known ?_
        (formed.attach found (Tree.addItems_fits isPending item values.length))
      rw [Tree.call, Tree.addItems_eq found]
      rfl
  | object object =>
      exact Tree.attachSlots_leads formed found false isPending object.name
        (request.slots_distinct object duty.task.selectionSets)

private theorem Step.leads {before after : Progress} (step : request.Step allowed before after)
    (valid : before.Valid) : Tree.Leads Tree.WellFormed before.1.tree after.1.tree := by
  cases step with
  | skip lost => exact .start valid.formed
  | answer live answered notMeta => exact .start valid.formed
  | @perform draft duty verdict duties live comes =>
      rcases valid.pending duty (Multiset.mem_cons_self _ _) with ⟨node, found, isPending, _⟩
      exact perform_leads valid.formed found isPending verdict

private theorem Steps.leads {before after : Progress} (steps : request.Steps allowed before after)
    (valid : before.Valid) : Tree.Leads Tree.WellFormed before.1.tree after.1.tree := by
  induction steps with
  | refl => exact .start valid.formed
  | tail earlier step induction => exact induction.trans (step.leads (Steps.valid earlier valid))

private theorem initial_leads (request : Request) (rootValue : FieldValue) :
    Tree.Leads Tree.WellFormed .empty (request.initial rootValue).1.tree := by
  have found : Tree.empty.node? Tree.rootId = some ⟨.root [], none, none, []⟩ := rfl
  have attached := Tree.attachSlots_leads Tree.empty_wellFormed found true rfl request.rootName
    request.rootSlots_distinct
  rw [initial, rootTasks_eq]
  exact attached

/-- Whatever tasks are finished, in any order and with any answers, and however far the completion
of their values has come, the tree comes from the empty one by operations at nodes that exist, and
after each of them it represents a response and can be walked. The nodes of what is left to do
exist. -/
theorem runs_represent (request : Request) (rootValue : FieldValue) :
    (∀ outstanding, request.Runs anyAnswer (request.initial rootValue) outstanding →
      request.Steps anyAnswer (request.initial rootValue).progress outstanding.progress) ∧
    ∀ progress, request.Steps anyAnswer (request.initial rootValue).progress progress →
      Tree.Leads (fun tree => tree.Represents ∧ tree.Walkable) .empty progress.1.tree ∧
        ∀ duty ∈ progress.2, duty.node < progress.1.tree.nodes.size := by
  have begins := request.initial_valid rootValue
  refine ⟨fun outstanding runs => runs.steps begins, fun progress steps => ⟨?_, ?_⟩⟩
  · have leads := (request.initial_leads rootValue).trans (Steps.leads steps begins)
    exact leads.mono fun tree formed => ⟨formed.represents, formed.walkable⟩
  · intro duty member
    rcases (Steps.valid steps begins).pending duty member with ⟨node, found, _⟩
    exact Tree.node?_lt found

end Request

namespace Greeter

private def friend : FieldValue := .json (.object [])

private def greetingTask (parent : FieldValue) (node : NodeId) : FieldTask :=
  ⟨⟨"Greeter", { name := "greeting", type := .nonNull (.named "String") },
    [⟨⟨1, 3⟩, none, "greeting", [], [], []⟩], parent⟩, node⟩

private def friendTask : FieldTask :=
  ⟨⟨"Greeter", { name := "friend", type := .named "Greeter" },
    [⟨⟨1, 12⟩, none, "friend", [], [], [greeting]⟩], root⟩, 2⟩

private theorem reached : ∃ draft : Draft,
    request.Runs Request.anyAnswer (request.initial root) (draft, 0) ∧
      draft.tree.nodes.size = 4 ∧ draft.tree.isDiscarded 3 = true := by
  have finished : ∃ first second third : Draft,
      request.finish (greetingTask root 1) (.outcome (.value (.json (.string "Hello"))))
        (request.rootTasks root).1 = .ok (first, []) ∧
      request.finish friendTask (.outcome (.value friend)) first =
        .ok (second, [greetingTask friend 3]) ∧
      request.finish (greetingTask friend 3) (.outcome (.value .null)) second = .ok (third, []) ∧
      third.tree.nodes.size = 4 ∧ third.tree.isDiscarded 3 = true :=
    ⟨_, _, _, rfl, rfl, rfl, rfl, rfl⟩
  rcases finished with ⟨first, second, third, greeted, befriended, ungreeted, size, lost⟩
  have finishes : ∀ {before after : Draft} {task : FieldTask} {resolution : Resolution}
      {next : List FieldTask} (others : List FieldTask),
      request.finish task resolution before = .ok (after, next) →
      request.Finishes Request.anyAnswer (before, ((task :: others : List FieldTask) : Multiset _))
        (after, ((next ++ others : List FieldTask) : Multiset _)) := by
    intro before after task resolution next others finished
    rw [← Multiset.cons_coe, ← Multiset.coe_add]
    exact .finish trivial finished
  exact ⟨third, .head (finishes [friendTask] greeted)
    (.head (finishes [] befriended) (.single (finishes [] ungreeted))), size, lost⟩

end Greeter

/-- The greeting of the friend is discarded, so a null is at it or above it. -/
theorem Request.runs_represent_of_greeter :
    ∃ draft : Draft,
      Greeter.request.Runs Request.anyAnswer (Greeter.request.initial Greeter.root) (draft, 0) ∧
        draft.tree.Represents ∧ draft.tree.isDiscarded 3 = true ∧
        (draft.tree.dataIsNull = true ∨ draft.tree.NullAtOrAbove 3) := by
  rcases Greeter.reached with ⟨draft, runs, size, lost⟩
  have holds := Request.runs_represent Greeter.request Greeter.root
  rcases (holds.2 _ (holds.1 _ runs)).1.last with ⟨represents, walkable⟩
  have known : 3 < draft.tree.nodes.size := by
    rw [size]
    decide
  exact ⟨draft, runs, represents, lost, (walkable.discarded known).mp lost⟩

end GraphQL
