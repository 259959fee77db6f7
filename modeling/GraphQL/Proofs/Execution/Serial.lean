import GraphQL.Proofs.Execution.Dispatching
import GraphQL.Proofs.Execution.Refinement
import Mathlib.Data.List.NodupEquivFin

/-!
The order in which the resolvers of a serial execution are started and answer. An application
decides when each of its resolvers answers, so what holds for all applications holds for all orders.
-/

namespace GraphQL

variable {σ : Type}

/-! ## Logs of top-level fields -/

/-- What a log shows of top-level fields with these names, in this order: each occurrence belongs to
one of them, those of an earlier field come before those of a later one, and no field is started
twice. -/
structure Serialized (names : List String) (log : List Occurrence) : Prop where
  belongs : ∀ occurrence ∈ log, ∃ name ∈ names, [PathSegment.key name] <+: occurrence.path
  ordered : ∀ {first second : String}, [first, second].Sublist names →
    ∀ {earlier later : Nat} {left right : Occurrence},
      log[earlier]? = some left → [PathSegment.key first] <+: left.path →
      log[later]? = some right → [PathSegment.key second] <+: right.path → earlier < later
  once : ∀ {name : String}, .start [.key name] ∈ log → log.count (.start [.key name]) = 1

private theorem eq_of_keys {first second : String} {path : Path}
    (isFirst : [PathSegment.key first] <+: path) (isSecond : [PathSegment.key second] <+: path) :
    first = second := by
  rcases isFirst with ⟨_, rfl⟩
  rw [List.singleton_append, List.cons_prefix_cons] at isSecond
  exact (PathSegment.key.inj isSecond.1).symm

namespace Serialized

variable {name : String} {names : List String} {segment log : List Occurrence}

private theorem nil (names : List String) : Serialized names [] where
  belongs := by simp
  ordered := by simp
  once := by simp

/-- An occurrence of another field stands after the segment of a field. -/
private theorem after_segment
    (within : ∀ occurrence ∈ segment, [PathSegment.key name] <+: occurrence.path) {other : String}
    (different : other ≠ name) {index : Nat} {occurrence : Occurrence}
    (stands : (segment ++ log)[index]? = some occurrence)
    (isOther : [PathSegment.key other] <+: occurrence.path) :
    segment.length ≤ index ∧ log[index - segment.length]? = some occurrence := by
  have after : segment.length ≤ index := by
    by_contra inside
    rw [List.getElem?_append_left (Nat.lt_of_not_le inside)] at stands
    exact different (eq_of_keys isOther (within _ (List.mem_of_getElem? stands)))
  rw [List.getElem?_append_right after] at stands
  exact ⟨after, stands⟩

/-- The log of a field comes before the logs of the others. -/
private theorem cons (fresh : name ∉ names)
    (within : ∀ occurrence ∈ segment, [PathSegment.key name] <+: occurrence.path)
    (atMostOnce : segment.count (.start [.key name]) ≤ 1) (others : Serialized names log) :
    Serialized (name :: names) (segment ++ log) where
  belongs := by
    intro occurrence member
    rcases List.mem_append.mp member with here | there
    · exact ⟨name, List.mem_cons_self, within occurrence here⟩
    · rcases others.belongs occurrence there with ⟨other, listed, isOther⟩
      exact ⟨other, List.mem_cons_of_mem name listed, isOther⟩
  ordered := by
    intro first second inOrder earlier later left right isLeft underFirst isRight underSecond
    have apart : ∀ {other}, other ∈ names → other ≠ name :=
      fun listed equal => fresh (equal ▸ listed)
    cases inOrder with
    | cons _ both =>
        have isFirst := both.subset List.mem_cons_self
        have isSecond := both.subset (List.mem_cons_of_mem first List.mem_cons_self)
        rcases after_segment within (apart isFirst) isLeft underFirst with ⟨_, standsLeft⟩
        rcases after_segment within (apart isSecond) isRight underSecond with ⟨_, standsRight⟩
        have := others.ordered both standsLeft underFirst standsRight underSecond
        omega
    | cons_cons _ rest =>
        have isSecond := rest.subset List.mem_cons_self
        have standsRight := (after_segment within (apart isSecond) isRight underSecond).1
        apply Nat.lt_of_lt_of_le _ standsRight
        by_contra outside
        rw [List.getElem?_append_right (Nat.le_of_not_lt outside)] at isLeft
        rcases others.belongs left (List.mem_of_getElem? isLeft) with ⟨other, listed, isOther⟩
        exact fresh (eq_of_keys isOther underFirst ▸ listed)
  once := by
    intro other started
    rw [List.count_append]
    by_cases same : other = name
    · have absent : Occurrence.start [.key other] ∉ log := by
        intro member
        rcases others.belongs _ member with ⟨third, listed, isThird⟩
        exact fresh (same ▸ eq_of_keys isThird (List.prefix_refl _) ▸ listed)
      rw [List.count_eq_zero.mpr absent, Nat.add_zero]
      have present := (List.mem_append.mp started).resolve_right absent
      exact Nat.le_antisymm (same ▸ atMostOnce) (List.count_pos_iff.mpr present)
    · have absent : Occurrence.start [.key other] ∉ segment := by
        intro member
        exact same (eq_of_keys (List.prefix_refl _) (within _ member))
      rw [List.count_eq_zero.mpr absent, Nat.zero_add]
      exact others.once ((List.mem_append.mp started).resolve_left absent)

private theorem sublist {part : List Occurrence} (serialized : Serialized names log)
    (isPart : part.Sublist log) : Serialized names part where
  belongs occurrence member := serialized.belongs occurrence (isPart.subset member)
  ordered := by
    intro first second inOrder earlier later left right isLeft underFirst isRight underSecond
    rcases List.sublist_iff_exists_orderEmbedding_getElem?_eq.mp isPart with ⟨embedding, same⟩
    rw [same] at isLeft isRight
    exact embedding.lt_iff_lt.mp
      (serialized.ordered inOrder isLeft underFirst isRight underSecond)
  once := by
    intro name member
    have atMostOnce : part.count (.start [.key name]) ≤ 1 :=
      (isPart.count_le _).trans_eq (serialized.once (isPart.subset member))
    exact Nat.le_antisymm atMostOnce (List.count_pos_iff.mpr member)

end Serialized

/-- What a log shows of a call. -/
def Call.occurrence? : Call → Option Occurrence
  | .listener _ _ => none
  | .resolver _ path => some (.start path)
  | .wake path => some (.completion path)
  | .subscriber _ _ => none

private theorem TraceEvent.calls_sublist (trace : List TraceEvent) :
    ((TraceEvent.calls trace).filterMap Call.occurrence?).Sublist
      (trace.filterMap TraceEvent.occurrence?) := by
  induction trace with
  | nil => exact .slnil
  | cons event trace induction =>
      rcases event with _ | ⟨path, _ | number⟩ | ⟨path, _ | _⟩ | _
      · exact induction
      · exact .cons _ induction
      · exact .cons_cons _ induction
      · exact .cons _ induction
      · exact .cons_cons _ induction
      · exact induction

/-! ## Serial executions -/

/-- Tasks of top-level fields with these names. -/
def Queued (tree : Tree) (names : List String) (tasks : List FieldTask) : Prop :=
  List.Forall₂ (fun name task =>
    ∃ node, tree.node? task.node = some node ∧ node.path = [.key name]) names tasks

private theorem Queued.mono {before after : Tree} {names : List String} {tasks : List FieldTask}
    (queued : Queued before names tasks) (growth : before.Extends after) :
    Queued after names tasks := by
  refine List.Forall₂.imp ?_ queued
  rintro name task ⟨node, found, isPath⟩
  rcases growth.node found with ⟨content, foundAfter, _⟩
  exact ⟨_, foundAfter, isPath⟩

namespace Request

variable {request : Request} {application : Application σ}

private theorem runLevels_any {rest : Multiset FieldTask} {run later : Run σ}
    {tasks : List FieldTask}
    {levels : Nat} (valid : (Outstanding.progress (run.draft, tasks + rest)).Valid)
    (done : request.runLevels application levels run tasks = (later, none)) :
    request.Runs anyAnswer (run.draft, tasks + rest) (later.draft, rest) := by
  have runs := runLevels_runs (Conditions.any_holds request application) (Layers.any request)
    levels run tasks trivial valid fun _ _ => trivial
  rw [done] at runs
  exact runs.1

private theorem eachLog_serialized {names : List String} {tasks : List FieldTask} {run : Run σ}
    (valid : (Outstanding.progress (run.draft, (tasks : Multiset FieldTask))).Valid)
    (distinct : names.Nodup) (queued : Queued run.draft.tree names tasks) :
    Serialized names (request.eachLog application tasks run) := by
  induction tasks generalizing names run with
  | nil => exact .nil names
  | cons task tasks induction =>
      cases queued with
      | @cons name _ names _ isTask queued =>
          rw [split_cons] at valid
          have parts := List.nodup_cons.mp distinct
          rcases isTask with ⟨node, found, isPath⟩
          have under : run.draft.tree.Under [.key name] 1 task.node :=
            ⟨node, found, isPath ▸ List.prefix_refl _, by rw [isPath]; rfl⟩
          have confined : run.draft.Confined run.draft.failures [.key name] :=
            fun failure member => .inl member
          have segment : (∀ occurrence ∈ request.levelsLog application request.depth run [task],
              occurrence.Under [.key name] 1) ∧ _ :=
            runLevels_leaves request.depth valid (by simpa using under) confined
          have atMostOnce : (request.levelsLog application request.depth run [task]).count
              (.start [.key name]) ≤ 1 := count_levelsLog request.depth valid under confined
          rw [eachLog_cons]
          refine .cons parts.1 (fun occurrence member => (segment.1 occurrence member).1)
            atMostOnce ?_
          cases done : request.runLevels application request.depth run [task] with
          | mk later abort =>
              cases abort with
              | some abort => exact .nil names
              | none =>
                  have runs := runLevels_any valid done
                  have steps := runs.steps valid
                  exact induction (Steps.valid steps valid) parts.2
                    (Queued.mono queued (Steps.extends steps valid))

private theorem eachLog_append (before after : List FieldTask) (run : Run σ) :
    request.eachLog application (before ++ after) run =
      request.eachLog application before run ++
        match request.runEach application before run with
        | (later, none) => request.eachLog application after later
        | (_, some _) => [] := by
  induction before generalizing run with
  | nil => rfl
  | cons task before induction =>
      rw [List.cons_append, eachLog_cons, eachLog_cons, runEach]
      cases request.runLevels application request.depth run [task] with
      | mk later abort =>
          cases abort with
          | some abort => simp
          | none => simp only [induction, List.append_assoc]

/-- The next field is started if its place is not lost and the request is not interrupted. -/
private theorem start_mem_levelsLog {run : Run σ} {task : FieldTask} {levels : Nat}
    (live : run.draft.tree.isDiscarded task.node = false)
    (quiet : (run.world.check request.token).1 = none) (positive : 0 < levels) :
    .start (run.draft.tree.path task.node) ∈
      request.levelsLog application levels run [task] := by
  have dispatched : Occurrence.start (run.draft.tree.path task.node) ∈
      Level.dispatchLog request application run task := by
    rw [Level.dispatchLog_eq]
    cases checked : run.world.check request.token with
    | mk interruption world =>
        obtain rfl : interruption = none := by rw [← quiet, checked]
        simp only [live, Bool.false_eq_true, if_false]
        split <;> exact List.mem_cons_self
  have room : ([] : List (InFlight σ)).length < request.inFlightBound :=
    Nat.lt_of_lt_of_le Nat.one_pos (Nat.le_max_left _ _)
  cases levels with
  | zero => exact absurd positive (Nat.lt_irrefl 0)
  | succ levels =>
      have first : ({ waiting := [task] } : Level σ).stepLog request application run =
          Level.dispatchLog request application run task := by
        rw [Level.stepLog_eq]
        simp only
        rw [if_pos room]
      have steps : Level.runLog request application run [task] =
          ({ waiting := [task] } : Level σ).runStepsLog request application 3 run := rfl
      rw [levelsLog_succ, steps, Level.runStepsLog_succ, first]
      exact List.mem_append_left _ (List.mem_append_left _ dispatched)

/-- An earlier field excludes null, and a null from under it moved up to the root. -/
def NulledBy (draft : Draft) (tasks : List FieldTask) : Prop :=
  ∃ task ∈ tasks, task.definition.type.isNonNull = true ∧
    ∃ failure ∈ draft.failures, failure.nulled = none ∧
      draft.tree.path task.node <+: draft.tree.path failure.node

/-- All data becomes null while a top-level field is run only if the field excludes null. -/
private theorem nulledBy_of_runLevels {rest : Multiset FieldTask} {run later : Run σ}
    {task : FieldTask} {name : String} {node : Node}
    (valid : (Outstanding.progress (run.draft, ([task] : List FieldTask) + rest)).Valid)
    (accounts : run.draft.Accounts) (found : run.draft.tree.node? task.node = some node)
    (isPath : node.path = [.key name])
    (done : request.runLevels application request.depth run [task] = (later, none))
    (notYet : run.draft.tree.dataIsNull = false) (allNull : later.draft.tree.dataIsNull = true) :
    NulledBy later.draft [task] := by
  have under : run.draft.tree.Under [.key name] 1 task.node :=
    ⟨node, found, isPath ▸ List.prefix_refl _, by rw [isPath]; rfl⟩
  have confined : run.draft.Confined run.draft.failures [.key name] :=
    fun failure member => .inl member
  have leaves : (∀ occurrence ∈ request.levelsLog application request.depth run [task],
      occurrence.Under [.key name] 1) ∧ _ :=
    runLevels_leaves request.depth valid (by simpa using under) confined
  rw [done] at leaves
  have steps := (runLevels_any valid done).steps valid
  have growth : run.draft.tree.Extends later.draft.tree := Steps.extends steps valid
  have formed : later.draft.tree.WellFormed := (Steps.valid steps valid).formed
  have laterAccounts : later.draft.Accounts := Steps.accounts steps valid accounts
  rcases List.mem_map.mp (laterAccounts.data.mp allNull) with ⟨failure, member, isRoot⟩
  have isNew : failure ∉ run.draft.failures := by
    intro isOld
    rw [accounts.data.mpr (List.mem_map.mpr ⟨failure, isOld, isRoot⟩)] at notYet
    cases notYet
  rcases growth.node found with ⟨content, foundLater, _⟩
  have isType : node.type = some task.definition.type := by
    rcases valid.pending (.resolve task) (Multiset.mem_map_of_mem _ (Multiset.mem_add.mpr
      (.inl (Multiset.mem_coe.mpr List.mem_cons_self)))) with ⟨held, foundHeld, _, typed⟩
    rw [Option.some.inj (found.symm.trans foundHeld)]
    exact typed
  rcases laterAccounts.excludes_null formed member isRoot
    ((leaves.2 failure member).resolve_left isNew) foundLater isPath isType with ⟨required, below⟩
  exact ⟨task, List.mem_cons_self, required, failure, member, isRoot, below⟩

private theorem nulledBy_of_runEach {names : List String} {before : List FieldTask}
    {rest : Multiset FieldTask} {run later : Run σ}
    (valid : (Outstanding.progress (run.draft, before + rest)).Valid)
    (accounts : run.draft.Accounts) (queued : Queued run.draft.tree names before)
    (done : request.runEach application before run = (later, none))
    (notYet : run.draft.tree.dataIsNull = false) (allNull : later.draft.tree.dataIsNull = true) :
    NulledBy later.draft before := by
  induction before generalizing names run with
  | nil =>
      cases done
      rw [notYet] at allNull
      cases allNull
  | cons task before induction =>
      cases queued with
      | @cons name _ names _ isTask queued =>
          rcases isTask with ⟨node, found, isPath⟩
          rw [split_cons, add_assoc] at valid
          rw [runEach] at done
          cases isRun : request.runLevels application request.depth run [task] with
          | mk middle abort =>
              rw [isRun] at done
              cases abort with
              | some abort => cases done
              | none =>
                  simp only at done
                  have steps := (runLevels_any valid isRun).steps valid
                  cases early : middle.draft.tree.dataIsNull with
                  | true =>
                      have sameDraft : later.draft = middle.draft := by
                        rw [← (runEach_null early before).2, done]
                      rcases nulledBy_of_runLevels valid accounts found isPath isRun notYet early
                        with ⟨other, isTask, nulls⟩
                      rw [List.mem_singleton.mp isTask] at nulls
                      exact sameDraft ▸ ⟨task, List.mem_cons_self, nulls⟩
                  | false =>
                      rcases induction (Steps.valid steps valid)
                        (Steps.accounts steps valid accounts)
                        (Queued.mono queued (Steps.extends steps valid)) done early with
                        ⟨other, isEarlier, nulls⟩
                      exact ⟨other, List.mem_cons_of_mem task isEarlier, nulls⟩

/-- What may abort a request: an interruption, a panic that is to be passed on, or fields that are
nested too deep, which takes a cycle of fragments. No field that fails does. -/
def Aborts (request : Request) : Abort → Prop
  | .interrupted _ => True
  | .panicked _ => request.throwOnUnhandled = true
  | .tooDeep =>
      ¬(request.document.Acyclic ∧ request.operation ∈ request.document.operations ∧
        request.document.selectionCount ≤ request.depth)

theorem aborts_layers (request : Request) :
    request.Layers (.abortedBy request.Aborts : Conditions σ) fun levels task =>
      request.document.Acyclic ∧ request.operation ∈ request.document.operations ∧
        request.document.selectionCount ≤ request.depth → request.fitsLevels levels task where
  depths levels :=
    { leads := fun fits finished task member bounded =>
        (fitsLevels_depths bounded.1 levels).leads (fits bounded) finished task member }
  bottom _ fits bounded := absurd (fits bounded) (Nat.not_lt_zero _)

/-- The names of the top-level fields that have a resolver, in the order of the document. -/
def topLevelNames (request : Request) : List String :=
  (request.rootSlots.filter fun slot => !slot.isTypeName).map Slot.key

private theorem topLevelNames_distinct (request : Request) : request.topLevelNames.Nodup :=
  List.Nodup.sublist (List.Sublist.map _ List.filter_sublist) request.rootSlots_distinct

private theorem queued_slots {tree : Tree} (objectName : String) (parent : FieldValue)
    (slots : List Slot) (start : Nat) (placed : ∀ index slot, slots[index]? = some slot →
      ∃ node, tree.node? (start + index) = some node ∧ node.path = [.key slot.key]) :
    Queued tree ((slots.filter fun slot => !slot.isTypeName).map Slot.key)
      ((slots.zipIdx start).filterMap (Slot.task? objectName parent)) := by
  induction slots generalizing start with
  | nil => exact .nil
  | cons slot slots induction =>
      have first := placed 0 slot rfl
      have others := induction (start + 1) (by
        intro index other stands
        rcases placed (index + 1) other stands with ⟨node, found, isPath⟩
        exact ⟨node, by rwa [Nat.add_assoc, Nat.add_comm 1], isPath⟩)
      rw [List.zipIdx_cons, List.filterMap_cons, Slot.task?, List.filter_cons]
      cases isTypeName : slot.isTypeName with
      | true => exact others
      | false => exact .cons first others

private theorem rootTasks_queued (request : Request) (rootValue : FieldValue) :
    Queued (request.rootTasks rootValue).1.tree request.topLevelNames
      (request.rootTasks rootValue).2 := by
  rw [rootTasks_eq]
  apply queued_slots
  intro index slot stands
  have known : Tree.rootId < ({} : Draft).tree.nodes.size := Nat.one_pos
  refine ⟨({} : Draft).tree.grow Tree.rootId (slot.sprout request.rootName), ?_, rfl⟩
  rw [withSlots, Tree.attachSlots, Tree.node?_attach_new known, List.getElem?_map, stands]
  rfl

private theorem live_of_waiting {draft : Draft} {tasks : Multiset FieldTask} {task : FieldTask}
    {name : String} {node : Node} (valid : (Outstanding.progress (draft, task ::ₘ tasks)).Valid)
    (found : draft.tree.node? task.node = some node) (isPath : node.path = [.key name])
    (notNull : draft.tree.dataIsNull = false) : draft.tree.isDiscarded task.node = false := by
  have formed : draft.tree.WellFormed := valid.formed
  have isPending : node.content = .pending := by
    rcases valid.pending (.resolve task) (Multiset.mem_map_of_mem _ (Multiset.mem_cons_self _ _))
      with ⟨held, foundHeld, isPending, _⟩
    rwa [Option.some.inj (found.symm.trans foundHeld)]
  rcases formed.root with ⟨fields, foundRoot⟩
  rw [← Bool.not_eq_true]
  intro lost
  rcases (formed.isDiscarded_iff found).mp lost with allNull | isNull | ⟨parent, isParent, above⟩
  · rw [notNull] at allNull
    cases allNull
  · rw [isPending] at isNull
    cases isNull
  · have isRoot : parent = Tree.rootId :=
      Option.some.inj (isParent.symm.trans (formed.isTop found isPath).isParent)
    rcases (formed.isDiscarded_iff foundRoot).mp (isRoot ▸ above) with
      allNull | isNull | ⟨_, none, _⟩
    · rw [notNull] at allNull
      cases allNull
    · cases isNull
    · cases none

/-- How a serial execution goes on once the earlier top-level fields are done. If they were aborted,
or all data became null, nothing happens any more; the latter takes a field among them that excludes
null. Else the next field is started, unless the request is interrupted. -/
def GoesOn (request : Request) (application : Application σ) (start : Run σ)
    (before : List FieldTask) (task : FieldTask) (log : List Occurrence) : Prop :=
  match request.runEach application before start with
  | (_, some abort) => log = request.eachLog application before start ∧ request.Aborts abort
  | (run, none) =>
      (run.draft.tree.dataIsNull = true →
        log = request.eachLog application before start ∧ NulledBy run.draft before) ∧
      (run.draft.tree.dataIsNull = false → (run.world.check request.token).1 = none →
        0 < request.depth → .start (run.draft.tree.path task.node) ∈ log)

private theorem eachLog_goesOn {names : List String} {start : Run σ} {before after : List FieldTask}
    {task : FieldTask}
    (valid : (Outstanding.progress (start.draft,
      ((before ++ task :: after : List FieldTask) : Multiset FieldTask))).Valid)
    (accounts : start.draft.Accounts) (notNull : start.draft.tree.dataIsNull = false)
    (queued : Queued start.draft.tree names (before ++ task :: after))
    (fits : ∀ task ∈ before, request.document.Acyclic ∧
      request.operation ∈ request.document.operations ∧
        request.document.selectionCount ≤ request.depth → request.fitsLevels request.depth task) :
    request.GoesOn application start before task
      (request.eachLog application (before ++ task :: after) start) := by
  rw [← Multiset.coe_add] at valid
  have runs := runEach_runs (Conditions.abortedBy_holds (fun _ => trivial) (fun throws _ => throws)
    application) request.aborts_layers before start trivial valid fits
  have queuedBefore := List.forall₂_take_append names before (task :: after) queued
  have queuedAfter := List.forall₂_drop_append names before (task :: after) queued
  rcases List.forall₂_cons_right_iff.mp queuedAfter with ⟨name, _, ⟨node, found, isPath⟩, _⟩
  rw [GoesOn, eachLog_append]
  cases done : request.runEach application before start with
  | mk run abort =>
      rw [done] at runs
      cases abort with
      | some abort => exact ⟨List.append_nil _, runs⟩
      | none =>
          have steps := runs.1.steps valid
          have growth : start.draft.tree.Extends run.draft.tree := Steps.extends steps valid
          refine ⟨?_, ?_⟩
          · intro allNull
            simp only
            rw [(runEach_null allNull (task :: after)).1, List.append_nil]
            exact ⟨rfl, nulledBy_of_runEach valid accounts queuedBefore done notNull allNull⟩
          · intro stillData quiet positive
            rcases growth.node found with ⟨content, foundLater, _⟩
            have waiting : (Outstanding.progress
                (run.draft, task ::ₘ (after : Multiset FieldTask))).Valid := Steps.valid steps valid
            have live := live_of_waiting waiting foundLater isPath stillData
            apply List.mem_append_right
            simp only [eachLog_cons]
            exact List.mem_append_left _ (start_mem_levelsLog live quiet positive)

/-- Top-level fields are executed one after another, each with all that is under it, whatever
resolvers answer and in whatever order. Each is started once at most, and it is started unless the
request is aborted or a null that an earlier field excludes has moved up to the root. The log tells
what the execution does: it is that of a schedule with the same response, and its resolvers are
those that the application is called for, which are called one field after another as well. -/
theorem top_level_fields_serialized (request : Request) (application : Application σ)
    (rootValue : FieldValue) (world : World σ) :
    Queued (request.rootTasks rootValue).1.tree request.topLevelNames
        (request.rootTasks rootValue).2 ∧
      Serialized request.topLevelNames (request.serialLog application rootValue world) ∧
      (∀ before task after, (request.rootTasks rootValue).2 = before ++ task :: after →
        request.GoesOn application ⟨(request.rootTasks rootValue).1, world⟩ before task
          (request.serialLog application rootValue world)) ∧
      request.PlaysOut
        (.initial (request.rootTasks rootValue).1
          ((request.rootTasks rootValue).2.map fun task => [task]))
        (request.serialLog application rootValue world)
        (request.executeSerial application rootValue world) ∧
      (∀ notes, request.executeSerial application.noted rootValue (world.noting notes) =
        Level.ran (request.executeSerial application rootValue world)
          (notes ++ TraceEvent.calls (request.serialTrace application rootValue world))) ∧
      Serialized request.topLevelNames
        ((request.executeSerial application.noted rootValue
          (world.noting [])).1.world.notes.filterMap Call.occurrence?) := by
  have queued := request.rootTasks_queued rootValue
  have valid := request.initial_valid rootValue
  have accounts : (request.rootTasks rootValue).1.Accounts := request.initial_accounts rootValue
  have notNull : (request.rootTasks rootValue).1.tree.dataIsNull = false := by
    rw [rootTasks_eq]
    rfl
  have isLog : request.serialLog application rootValue world =
      request.eachLog application (request.rootTasks rootValue).2
        ⟨(request.rootTasks rootValue).1, world⟩ := rfl
  have serialized : Serialized request.topLevelNames
      (request.serialLog application rootValue world) :=
    eachLog_serialized valid request.topLevelNames_distinct queued
  have noted := request.executeSerial_noted application rootValue world
  refine ⟨queued, serialized, ?_, executeSerial_playsOut application rootValue world, noted, ?_⟩
  · intro before task after split
    have fits : ∀ task ∈ before, request.document.Acyclic ∧
        request.operation ∈ request.document.operations ∧
          request.document.selectionCount ≤ request.depth →
        request.fitsLevels request.depth task := by
      rintro other member ⟨acyclic, known, deep⟩
      exact rootTasks_fitLevels acyclic known deep rootValue other
        (split ▸ List.mem_append_left _ member)
    rw [initial, split] at valid
    rw [split] at queued
    rw [isLog, split]
    exact eachLog_goesOn valid accounts notNull queued fits
  · rw [noted [], Level.notes_ran, List.nil_append]
    exact serialized.sublist (TraceEvent.calls_sublist _)

end Request

namespace Bank

/-! A deposit that takes its time, and one that does not. -/

private def account : NamedType where
  key := .custom 0
  name := "Account"
  shape := .object { fields := [{ name := "balance", type := .named "Int" }] }

def mutation : NamedType where
  key := .custom 1
  name := "Mutation"
  shape := .object
    { fields := [{ name := "deposit", type := .named "Account", resolver := some 0 }] }

private def selected (key : String) : Selection :=
  .field ⟨⟨1, 1⟩, some key, "deposit", [], [], [.field ⟨⟨1, 1⟩, none, "balance", [], [], []⟩]⟩

def request : Request where
  registry := ⟨Scalar.all ++ [account, mutation], account, some mutation, none, [], []⟩
  document := ⟨[]⟩
  operation := ⟨⟨1, 1⟩, .mutation, none, [], [], [selected "first", selected "second"]⟩
  variableValues := []
  token := ⟨0, none⟩
  depth := 2

/-- The first deposit is suspended. -/
def application : Application Unit where
  resolve _ invocation world :=
    if invocation.path = [.key "first"] then
      (.suspended 30 fun world => (.value (.json (.object [])), world), world)
    else (.ready (.value (.json (.object []))), world)
  subscribe _ _ world := (.panic none, world)

end Bank

example : Bank.request.serialLog Bank.application .null { state := () } =
    [.start [.key "first"], .completion [.key "first"],
      .start [.key "first", .key "balance"], .completion [.key "first", .key "balance"],
      .start [.key "second"], .completion [.key "second"],
      .start [.key "second", .key "balance"], .completion [.key "second", .key "balance"]] := by
  cbv

end GraphQL
