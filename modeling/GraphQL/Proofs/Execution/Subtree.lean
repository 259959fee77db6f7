import GraphQL.Proofs.Execution.Failures

/-!
What a task does stays under its node: the tasks that finishing it leads to, and the failures that
arise. A null that moves up to the root comes from under a top-level field that excludes null.
-/

namespace GraphQL

namespace Tree

/-- A node whose path starts with the scope and has at least some length. -/
def Under (tree : Tree) (scope : Path) (least : Nat) (id : NodeId) : Prop :=
  ∃ node, tree.node? id = some node ∧ scope <+: node.path ∧ least ≤ node.path.length

namespace Under

variable {tree : Tree} {scope : Path} {least : Nat} {id : NodeId}

theorem mono {after : Tree} (under : tree.Under scope least id) (growth : tree.Extends after) :
    after.Under scope least id := by
  rcases under with ⟨node, found, inScope, deep⟩
  rcases growth.node found with ⟨content, foundAfter, _⟩
  exact ⟨_, foundAfter, inScope, deep⟩

private theorem weaken {fewer : Nat} (under : tree.Under scope least id) (enough : fewer ≤ least) :
    tree.Under scope fewer id := by
  rcases under with ⟨node, found, inScope, deep⟩
  exact ⟨node, found, inScope, enough.trans deep⟩

theorem path (under : tree.Under scope least id) :
    scope <+: tree.path id ∧ least ≤ (tree.path id).length := by
  rcases under with ⟨node, found, inScope, deep⟩
  rw [path_eq found]
  exact ⟨inScope, deep⟩

private theorem child (under : tree.Under scope least id) (content : NodeContent)
    {sprouts : List Sprout} {duties : List Duty} (serves : Serves tree sprouts duties) {duty : Duty}
    (member : duty ∈ duties) :
    (tree.attach id content sprouts).Under scope (least + 1) duty.node := by
  rcases under with ⟨node, found, inScope, deep⟩
  rcases serves.node? (node?_lt found) content member with ⟨sprout, foundChild, _⟩
  have isPath : (tree.grow id sprout).path = node.path ++ [sprout.segment] := by
    rw [grow, path_eq found]
  refine ⟨_, foundChild, ?_, ?_⟩
  · rw [isPath]
    exact inScope.trans (List.prefix_append _ _)
  · rw [isPath, List.length_append]
    exact Nat.add_le_add_right deep 1

end Under

end Tree

/-- All failures beside those that were known arose under the scope. -/
def Draft.Confined (draft : Draft) (known : List Failure) (scope : Path) : Prop :=
  ∀ failure ∈ draft.failures, failure ∈ known ∨ draft.tree.Under scope 0 failure.node

namespace Draft.Confined

variable {draft : Draft} {known : List Failure} {scope : Path}

private theorem grow {after : Draft} (confined : draft.Confined known scope)
    (growth : draft.tree.Extends after.tree) (sameFailures : after.failures = draft.failures) :
    after.Confined known scope := by
  intro failure member
  rw [sameFailures] at member
  exact (confined failure member).imp_right fun under => under.mono growth

private theorem fail (confined : draft.Confined known scope) {node : NodeId} {least : Nat}
    (under : draft.tree.Under scope least node) (task : FieldTask) (error : ResponseError) :
    (draft.fail task node error).Confined known scope := by
  have growth : draft.tree.Extends (draft.fail task node error).tree :=
    draft.tree.nullAt_extends _
  intro failure member
  rcases List.mem_append.mp member with earlier | last
  · exact (confined failure earlier).imp_right fun under => under.mono growth
  · rw [List.mem_singleton.mp last]
    exact .inr ((under.mono growth).weaken (Nat.zero_le _))

end Draft.Confined

/-! ## What completing a value leads to -/

/-- A value to complete is under the scope. So is a field to resolve, one level further down, unless
it waits elsewhere. -/
private def Duty.Under (tree : Tree) (scope : Path) (least : Nat) (elsewhere : Multiset FieldTask) :
    Duty → Prop
  | .resolve task => task ∈ elsewhere ∨ tree.Under scope (least + 1) task.node
  | .complete _ _ node _ => tree.Under scope least node

private theorem Duty.Under.mono {before after : Tree} {scope : Path} {least : Nat}
    {elsewhere : Multiset FieldTask} {duty : Duty} (under : duty.Under before scope least elsewhere)
    (growth : before.Extends after) : duty.Under after scope least elsewhere := by
  cases duty with
  | resolve task => exact Or.imp_right (fun under => Tree.Under.mono under growth) under
  | complete task type node value => exact Tree.Under.mono under growth

private theorem Duty.Under.of_node {tree : Tree} {scope : Path} {least : Nat}
    {elsewhere : Multiset FieldTask} {duty : Duty}
    (under : tree.Under scope (least + 1) duty.node) :
    duty.Under tree scope least elsewhere := by
  cases duty with
  | resolve task => exact .inr under
  | complete task type node value => exact under.weaken (Nat.le_succ least)

namespace Request

variable {request : Request} {scope : Path} {least : Nat} {known : List Failure}
  {elsewhere : Multiset FieldTask}

/-- No field is resolved. -/
private def noAnswer : Answering := fun _ _ _ => False

/-- While no field is resolved, all that is done is done under the scope. -/
structure Stays (scope : Path) (least : Nat) (known : List Failure)
    (elsewhere : Multiset FieldTask) (progress : Progress) : Prop where
  duties : ∀ duty ∈ progress.2, duty.Under progress.1.tree scope least elsewhere
  confined : progress.1.Confined known scope

private theorem perform_stays {draft : Draft} {duty : Duty} {duties : Multiset Duty}
    (stays : Stays scope least known elsewhere (draft, duty ::ₘ duties))
    (valid : Progress.Valid (draft, duty ::ₘ duties))
    (under : draft.tree.Under scope least duty.node) (verdict : Verdict) :
    Stays scope least known elsewhere ((request.perform duty draft verdict).1,
      ((request.perform duty draft verdict).2 : Multiset Duty) + duties) := by
  rcases valid.pending duty (Multiset.mem_cons_self _ _) with ⟨node, found, isPending, _⟩
  have growth : draft.tree.Extends (request.perform duty draft verdict).1.tree :=
    perform_extends found isPending verdict
  have confined : draft.Confined known scope := stays.confined
  have added : ∀ next ∈ (request.perform duty draft verdict).2,
      (request.perform duty draft verdict).1.tree.Under scope (least + 1) next.node := by
    intro next member
    cases verdict with
    | failure error => cases member
    | null => cases member
    | leaf json => cases member
    | items item values => exact under.child _ (serves_items _ _ item values) member
    | object object => exact under.child _ (serves_slots _ object.name duty.value _) member
  refine ⟨?_, ?_⟩
  · intro next member
    rcases Multiset.mem_add.mp member with isNew | isOld
    · exact .of_node (added next (Multiset.mem_coe.mp isNew))
    · exact (stays.duties next (Multiset.mem_cons_of_mem isOld)).mono growth
  · cases verdict with
    | failure error => exact confined.fail under duty.task error
    | null => exact confined.grow growth rfl
    | leaf json => exact confined.grow growth rfl
    | items item values => exact confined.grow growth rfl
    | object object => exact confined.grow growth rfl

private theorem Step.stays {before after : Progress} (step : request.Step noAnswer before after)
    (valid : before.Valid) (stays : Stays scope least known elsewhere before) :
    Stays scope least known elsewhere after := by
  cases step with
  | skip lost =>
      exact ⟨fun duty member => stays.duties duty (Multiset.mem_cons_of_mem member),
        stays.confined⟩
  | answer live answered notMeta => exact answered.elim
  | perform live comes =>
      have under := stays.duties _ (Multiset.mem_cons_self _ _)
      cases comes with
      | refused answered refusal => exact answered.elim
      | described answered isMeta => exact answered.elim
      | judged judged isVerdict => exact perform_stays stays valid under _

private theorem Steps.stays {before after : Progress} (steps : request.Steps noAnswer before after)
    (valid : before.Valid) (stays : Stays scope least known elsewhere before) :
    Stays scope least known elsewhere after := by
  induction steps with
  | refl => exact stays
  | tail earlier step induction => exact step.stays (Steps.valid earlier valid) induction

private theorem not_elsewhere {draft : Draft} {next : List FieldTask} {task : FieldTask}
    (valid : Progress.Valid (draft,
      ((next.map .resolve : List Duty) : Multiset Duty) + elsewhere.map .resolve))
    (member : task ∈ next) : task ∉ elsewhere := by
  intro waits
  have distinct := valid.distinct
  rw [Multiset.map_add, Multiset.nodup_add] at distinct
  have isNew : task.node ∈ ((next.map .resolve : List Duty) : Multiset Duty).map Duty.node :=
    Multiset.mem_map_of_mem Duty.node (Multiset.mem_coe.mpr (List.mem_map_of_mem member))
  have isOld : task.node ∈ (elsewhere.map Duty.resolve).map Duty.node :=
    Multiset.mem_map_of_mem Duty.node (Multiset.mem_map_of_mem Duty.resolve waits)
  exact Multiset.disjoint_left.mp distinct.2.2 isNew isOld

/-- The other tasks wait while a value is completed, for no field is resolved meanwhile. -/
private theorem completeValue_under {draft later : Draft} {task : FieldTask} {value : FieldValue}
    {next : List FieldTask}
    (valid : Progress.Valid (draft, Duty.resolve task ::ₘ elsewhere.map .resolve))
    (live : draft.tree.isDiscarded task.node = false) (notMeta : task.isMeta = false)
    (under : draft.tree.Under scope least task.node) (confined : draft.Confined known scope)
    (completed : request.completeValue task task.definition.type task.node value draft =
      (later, next)) :
    (∀ other ∈ next, later.tree.Under scope (least + 1) other.node) ∧
      later.Confined known scope := by
  have answer : request.Step anyAnswer (draft, Duty.resolve task ::ₘ elsewhere.map .resolve)
      (draft, Duty.complete task task.definition.type task.node value ::ₘ elsewhere.map .resolve) :=
    .answer live trivial notMeta
  have started := answer.valid valid
  have steps : request.Steps noAnswer _ _ :=
    completeValue_steps task task.definition.type started live
  rw [completed] at steps
  have before : Stays scope least known elsewhere (draft,
      Duty.complete task task.definition.type task.node value ::ₘ elsewhere.map .resolve) := by
    refine ⟨?_, confined⟩
    intro duty member
    rcases Multiset.mem_cons.mp member with isHere | isElsewhere
    · rw [isHere]
      exact under
    · rcases Multiset.mem_map.mp isElsewhere with ⟨other, waits, rfl⟩
      exact .inl waits
  have stays := Steps.stays steps started before
  refine ⟨?_, stays.confined⟩
  intro other member
  have below := stays.duties (.resolve other) (Multiset.mem_add.mpr
    (.inl (Multiset.mem_coe.mpr (List.mem_map_of_mem member))))
  exact below.resolve_left (not_elsewhere (Steps.valid steps started) member)

/-- Finishing a task under the scope leads to tasks under it, one level further down. -/
theorem finish_under {draft later : Draft} {task : FieldTask} {resolution : Resolution}
    {next : List FieldTask}
    (valid : (Outstanding.progress (draft, task ::ₘ elsewhere)).Valid)
    (under : draft.tree.Under scope least task.node) (confined : draft.Confined known scope)
    (finished : request.finish task resolution draft = .ok (later, next)) :
    (∀ other ∈ next, later.tree.Under scope (least + 1) other.node) ∧
      later.Confined known scope := by
  rw [Outstanding.progress, Multiset.map_cons] at valid
  unfold finish at finished
  cases live : draft.tree.isDiscarded task.node with
  | true =>
      rw [live, if_pos rfl] at finished
      cases finished
      exact ⟨by simp, confined⟩
  | false =>
      rw [live, if_neg Bool.false_ne_true] at finished
      have failed : ∀ error, Except.ok (ε := Option String) (draft.fail task task.node error, []) =
          .ok (later, next) → (∀ other ∈ next, later.tree.Under scope (least + 1) other.node) ∧
            later.Confined known scope := by
        intro error equal
        cases equal
        exact ⟨by simp, confined.fail under task error⟩
      rcases valid.pending (.resolve task) (Multiset.mem_cons_self _ _) with
        ⟨node, found, isPending, isType⟩
      cases resolution with
      | invalidArguments error => exact failed _ finished
      | outcome outcome =>
          cases outcome with
          | error error => exact failed _ finished
          | panic reason =>
              simp only at finished
              split at finished
              · cases finished
              · exact failed _ finished
          | value value =>
              simp only at finished
              split at finished
              · cases finished
                refine ⟨by simp, confined.grow (Tree.set_extends found ?_) rfl⟩
                rw [isPending]
                exact fun equal => by cases equal
              · rename_i notMeta
                exact completeValue_under valid live (Bool.eq_false_iff.mpr notMeta) under confined
                  (Except.ok.inj finished)

end Request

/-! ## Nulls that reach the root -/

namespace Tree

/-- The node of a top-level field. -/
structure IsTop (tree : Tree) (id : NodeId) (node : Node) (segment : PathSegment) : Prop where
  found : tree.node? id = some node
  isParent : node.parent = some rootId
  path : node.path = [segment]

namespace WellFormed

variable {tree : Tree}

private theorem path_ne_nil (formed : tree.WellFormed) {id : NodeId} {node : Node}
    (notRoot : id ≠ rootId) (found : tree.node? id = some node) : node.path ≠ [] := by
  rcases formed.hangs notRoot found with ⟨top, above, segment, type, hanging⟩
  rw [hanging.path]
  exact List.append_ne_nil_of_right_ne_nil _ (List.cons_ne_nil _ _)

private theorem eq_root (formed : tree.WellFormed) {id : NodeId} {node : Node}
    (found : tree.node? id = some node) (isEmpty : node.path = []) : id = rootId := by
  by_contra notRoot
  exact formed.path_ne_nil notRoot found isEmpty

theorem isTop (formed : tree.WellFormed) {id : NodeId} {node : Node} {segment : PathSegment}
    (found : tree.node? id = some node) (isPath : node.path = [segment]) :
    tree.IsTop id node segment := by
  refine ⟨found, ?_, isPath⟩
  have notRoot : id ≠ rootId := by
    intro isRoot
    rcases formed.root with ⟨fields, foundRoot⟩
    rw [isRoot, foundRoot, Option.some.injEq] at found
    rw [← found] at isPath
    cases isPath
  rcases formed.hangs notRoot found with ⟨top, above, last, type, hanging⟩
  have atRoot : above.path = [] := by
    have lengths := congrArg List.length (isPath.symm.trans hanging.path)
    rw [List.length_append] at lengths
    exact List.length_eq_zero_iff.mp (Nat.succ_inj.mp lengths).symm
  rw [hanging.isParent, formed.eq_root hanging.foundAbove atRoot]

private theorem eq_of_isTop (formed : tree.WellFormed) {first second : NodeId} {left right : Node}
    {segment : PathSegment} (isFirst : tree.IsTop first left segment)
    (isSecond : tree.IsTop second right segment) : first = second := by
  rcases formed.root with ⟨fields, foundRoot⟩
  have listed : ∀ {id node}, tree.IsTop id node segment →
      (segment, id) ∈ (NodeContent.root fields).children := by
    intro id node isTop
    have notRoot := formed.ne_root_of_parent isTop.found isTop.isParent
    rcases formed.hangs notRoot isTop.found with ⟨top, above, last, type, hanging⟩
    have sameParent : top = rootId := Option.some.inj (hanging.isParent.symm.trans isTop.isParent)
    have isRoot := hanging.foundAbove
    rw [sameParent, foundRoot, Option.some.injEq] at isRoot
    have path := hanging.path
    rw [isTop.path, ← isRoot, List.nil_append, List.cons.injEq] at path
    rcases hanging.listed with listed | isNull
    · rwa [← path.1, ← isRoot] at listed
    · rw [← isRoot] at isNull
      cases isNull
  have distinct := formed.distinct foundRoot
  have same := List.inj_on_of_nodup_map distinct (listed isFirst) (listed isSecond) rfl
  exact congrArg Prod.snd same

end WellFormed

/-- A null that moves up to the root passes a top-level field that excludes null. -/
private theorem MovesUp.passes_top {tree : Tree} (formed : tree.WellFormed) {id : NodeId}
    {target : Option NodeId} (moves : tree.MovesUp id target) (isRoot : target = none)
    {node : Node} (found : tree.node? id = some node) {segment : PathSegment} {path : Path}
    (isPath : node.path = segment :: path) :
    ∃ top above type, tree.IsTop top above segment ∧ above.type = some type ∧
      type.isNonNull = true := by
  induction moves generalizing node path with
  | stays _ _ _ => cases isRoot
  | @climbs id parent known type target foundKnown typed required isParent further induction =>
      obtain rfl : node = known := Option.some.inj (found.symm.trans foundKnown)
      have notRoot := formed.ne_root_of_parent found isParent
      rcases formed.hangs notRoot found with ⟨top, above, last, _, hanging⟩
      have sameParent : top = parent := Option.some.inj (hanging.isParent.symm.trans isParent)
      cases isAbove : above.path with
      | nil =>
          have isLast := hanging.path
          rw [isAbove, List.nil_append, isPath, List.cons.injEq] at isLast
          refine ⟨id, node, type, formed.isTop found ?_, typed, required⟩
          rw [isPath, isLast.2]
      | cons first rest =>
          have isFirst := hanging.path
          rw [isAbove, List.cons_append, isPath, List.cons.injEq] at isFirst
          exact induction isRoot (sameParent ▸ hanging.foundAbove) (isFirst.1 ▸ isAbove)
  | reachesRoot =>
      rcases formed.root with ⟨fields, foundRoot⟩
      rw [foundRoot, Option.some.injEq] at found
      rw [← found] at isPath
      cases isPath

end Tree

/-- A failure under a top-level field nulls all data only if the field excludes null. -/
theorem Draft.Accounts.excludes_null {draft : Draft} (accounts : draft.Accounts)
    (formed : draft.tree.WellFormed) {failure : Failure} (member : failure ∈ draft.failures)
    (isRoot : failure.nulled = none) {segment : PathSegment}
    (under : draft.tree.Under [segment] 0 failure.node) {id : NodeId} {node : Node}
    {type : TypeRef} (found : draft.tree.node? id = some node) (isPath : node.path = [segment])
    (typed : node.type = some type) :
    type.isNonNull = true ∧ draft.tree.path id <+: draft.tree.path failure.node := by
  rcases under with ⟨low, foundLow, inScope, _⟩
  refine ⟨?_, by rwa [Tree.path_eq found, Tree.path_eq foundLow, isPath]⟩
  rcases inScope with ⟨path, isLow⟩
  rcases (accounts.explained failure member).moves.passes_top formed isRoot foundLow isLow.symm with
    ⟨top, above, type', isTop, typedTop, required⟩
  have sameNode := isTop.found
  rw [formed.eq_of_isTop isTop (formed.isTop found isPath), found, Option.some.injEq] at sameNode
  rw [← sameNode, typed, Option.some.injEq] at typedTop
  exact typedTop ▸ required

end GraphQL
