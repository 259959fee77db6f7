import GraphQL.Proofs.Execution.Failures
import Mathlib.Tactic.Abel

/-!
The scheduling of tasks in steps. The next task that waits is started if there is room, or dropped
if its node is discarded; any task in flight may finish; and a level gives way to the next one when
nothing waits and nothing is in flight. On the way no task is lost or repeated.
-/

namespace GraphQL

namespace Tree

private theorem Extends.size_le {before after : Tree} (growth : before.Extends after) :
    before.nodes.size ≤ after.nodes.size := by
  by_contra smaller
  rcases Tree.exists_node (Nat.lt_of_not_le smaller) with ⟨node, found⟩
  rcases growth.node found with ⟨content, foundAfter, _⟩
  exact Nat.lt_irrefl _ (Tree.node?_lt foundAfter)

end Tree

/-! ## New tasks have new nodes -/

namespace Request

variable {request : Request} {allowed : Answering}

private theorem Step.fresh {before after : Progress} (step : request.Step allowed before after)
    {task : FieldTask} (left : .resolve task ∈ after.2) :
    .resolve task ∈ before.2 ∨ before.1.tree.nodes.size ≤ task.node := by
  cases step with
  | skip lost => exact .inl (Multiset.mem_cons_of_mem left)
  | answer live answered notMeta =>
      rcases Multiset.mem_cons.mp left with impossible | other
      · cases impossible
      · exact .inl (Multiset.mem_cons_of_mem other)
  | @perform draft duty verdict duties live comes =>
      rcases Multiset.mem_add.mp left with isNew | other
      · have listed := Multiset.mem_coe.mp isNew
        cases verdict with
        | failure error => cases listed
        | null => cases listed
        | leaf json => cases listed
        | items item values =>
            rcases List.mem_map.mp listed with ⟨entry, _, impossible⟩
            cases impossible
        | object object =>
            rcases (serves_slots draft.tree object.name duty.value
              (request.slots object duty.task.selectionSets)).stands _ listed with
              ⟨index, _, _, isNode, _⟩
            exact .inr ((Nat.le_add_right _ index).trans (Nat.le_of_eq isNode.symm))
      · exact .inl (Multiset.mem_cons_of_mem other)

private theorem Steps.fresh {before after : Progress} (steps : request.Steps allowed before after)
    (valid : before.Valid) {task : FieldTask} (left : .resolve task ∈ after.2) :
    .resolve task ∈ before.2 ∨ before.1.tree.nodes.size ≤ task.node := by
  induction steps with
  | refl => exact .inl left
  | tail earlier step induction =>
      rcases step.fresh left with before | isNew
      · exact induction before
      · exact .inr ((Steps.extends earlier valid).size_le.trans isNew)

/-- Only a value has fields of its own. -/
private theorem finish_next {draft later : Draft} {task : FieldTask} {resolution : Resolution}
    {next : List FieldTask} (finished : request.finish task resolution draft = .ok (later, next)) :
    next = [] ∨ draft.tree.isDiscarded task.node = false ∧ task.isMeta = false ∧
      ∃ value, request.completeValue task task.definition.type task.node value draft =
        (later, next) := by
  unfold finish at finished
  cases live : draft.tree.isDiscarded task.node with
  | true =>
      rw [live, if_pos rfl] at finished
      cases finished
      exact .inl rfl
  | false =>
      rw [live, if_neg Bool.false_ne_true] at finished
      cases resolution with
      | invalidArguments error =>
          cases finished
          exact .inl rfl
      | outcome outcome =>
          cases outcome with
          | error error =>
              cases finished
              exact .inl rfl
          | panic reason =>
              simp only at finished
              split at finished
              · cases finished
              · cases finished
                exact .inl rfl
          | value value =>
              simp only at finished
              split at finished
              · cases finished
                exact .inl rfl
              · rename_i notMeta
                exact .inr ⟨rfl, Bool.eq_false_iff.mpr notMeta, value, Except.ok.inj finished⟩

/-- The tasks that a task leads to have nodes that were not there before. -/
private theorem finish_fresh {draft later : Draft} {task : FieldTask} {resolution : Resolution}
    {next : List FieldTask} {duties : Multiset Duty}
    (valid : Progress.Valid (draft, .resolve task ::ₘ duties))
    (finished : request.finish task resolution draft = .ok (later, next)) :
    ∀ other ∈ next, draft.tree.nodes.size ≤ other.node := by
  intro other listed
  rcases finish_next finished with nothing | ⟨live, notMeta, value, completed⟩
  · rw [nothing] at listed
    cases listed
  · have answered : anyAnswer task.toFieldCall (draft.tree.path task.node)
        (.outcome (.value value)) := trivial
    have step : request.Step anyAnswer (draft, .resolve task ::ₘ duties) _ :=
      .answer live answered notMeta
    have steps : request.Steps anyAnswer _ _ :=
      completeValue_steps task task.definition.type (step.valid valid) live
    rw [completed] at steps
    have isNew : Duty.resolve other ∈ ((next.map .resolve : List Duty) : Multiset Duty) :=
      Multiset.mem_coe.mpr (List.mem_map_of_mem listed)
    rcases Steps.fresh steps (step.valid valid) (Multiset.mem_add.mpr (.inl isNew)) with
      before | isFresh
    · rcases Multiset.mem_cons.mp before with impossible | isOld
      · cases impossible
      · have distinct := (Steps.valid steps (step.valid valid)).distinct
        rw [Multiset.map_add] at distinct
        exact absurd (Multiset.mem_map_of_mem Duty.node isOld)
          (Multiset.disjoint_left.mp (Multiset.nodup_add.mp distinct).2.2
            (Multiset.mem_map_of_mem Duty.node isNew))
    · exact isFresh

end Request

/-! ## Schedules -/

/-- What happens to a task at some level. -/
inductive ScheduleEvent where
  | start (level : Nat) (task : FieldTask)
  /-- A task is finished and leads to others. -/
  | finish (level : Nat) (task : FieldTask) (next : List FieldTask)
  /-- A task is not started, since its node is discarded. -/
  | drop (level : Nat) (task : FieldTask)

namespace ScheduleEvent

def level : ScheduleEvent → Nat
  | .start level _ => level
  | .finish level _ _ => level
  | .drop level _ => level

def started? : ScheduleEvent → Option FieldTask
  | .start _ task => some task
  | _ => none

def finished? : ScheduleEvent → Option FieldTask
  | .finish _ task _ => some task
  | _ => none

def dropped? : ScheduleEvent → Option FieldTask
  | .drop _ task => some task
  | _ => none

/-- The tasks that finishing a task leads to. -/
def next : ScheduleEvent → List FieldTask
  | .finish _ _ next => next
  | _ => []

end ScheduleEvent

/-- A schedule on its way: the draft, what is left to do, and what has been done. -/
structure Schedule where
  draft : Draft
  /-- The tasks that are run later, batch after batch, each batch with everything under it. -/
  batches : List (List FieldTask)
  waiting : List FieldTask := []
  inFlight : Multiset FieldTask := 0
  /-- The tasks of the next level. -/
  next : List FieldTask := []
  /-- The number of the level, counted over all batches. -/
  level : Nat := 0
  events : List ScheduleEvent := []

namespace Schedule

def started (schedule : Schedule) : List FieldTask :=
  schedule.events.filterMap ScheduleEvent.started?

def finished (schedule : Schedule) : List FieldTask :=
  schedule.events.filterMap ScheduleEvent.finished?

def dropped (schedule : Schedule) : List FieldTask :=
  schedule.events.filterMap ScheduleEvent.dropped?

/-- All tasks that finished tasks have led to. -/
def produced (schedule : Schedule) : List FieldTask := schedule.events.flatMap ScheduleEvent.next

/-- The tasks whose turn has not come. -/
def unstarted (schedule : Schedule) : List FieldTask :=
  schedule.waiting ++ schedule.next ++ schedule.batches.flatten

/-- The tasks that are not finished. -/
def pending (schedule : Schedule) : Multiset FieldTask :=
  schedule.inFlight + (schedule.unstarted : Multiset FieldTask)

/-- Nothing is left to do. -/
structure Done (schedule : Schedule) : Prop where
  batches : schedule.batches = []
  waiting : schedule.waiting = []
  inFlight : schedule.inFlight = 0
  next : schedule.next = []

/-- The next task is taken up, and the others wait. -/
def drop (schedule : Schedule) (task : FieldTask) (waiting : List FieldTask) : Schedule :=
  { schedule with
    waiting := waiting
    events := schedule.events ++ [.drop schedule.level task] }

def start (schedule : Schedule) (task : FieldTask) (waiting : List FieldTask) : Schedule :=
  { schedule with
    waiting := waiting
    inFlight := task ::ₘ schedule.inFlight
    events := schedule.events ++ [.start schedule.level task] }

/-- A task is finished, and the others stay in flight. -/
def finish (schedule : Schedule) (draft : Draft) (task : FieldTask) (others : Multiset FieldTask)
    (next : List FieldTask) : Schedule :=
  { schedule with
    draft := draft
    inFlight := others
    next := schedule.next ++ next
    events := schedule.events ++ [.finish schedule.level task next] }

def descend (schedule : Schedule) : Schedule :=
  { schedule with waiting := schedule.next, next := [], level := schedule.level + 1 }

def takeUp (schedule : Schedule) (batch : List FieldTask) (batches : List (List FieldTask)) :
    Schedule :=
  { schedule with waiting := batch, batches := batches, level := schedule.level + 1 }

section

variable (schedule : Schedule) (draft : Draft) (task : FieldTask) (others : Multiset FieldTask)
  (waiting next : List FieldTask)

@[simp] theorem started_drop : (schedule.drop task waiting).started = schedule.started := by
  simp [drop, started, ScheduleEvent.started?, List.filterMap_cons]

@[simp] theorem finished_drop : (schedule.drop task waiting).finished = schedule.finished := by
  simp [drop, finished, ScheduleEvent.finished?, List.filterMap_cons]

@[simp] theorem dropped_drop :
    (schedule.drop task waiting).dropped = schedule.dropped ++ [task] := by
  simp [drop, dropped, ScheduleEvent.dropped?]

@[simp] theorem produced_drop : (schedule.drop task waiting).produced = schedule.produced := by
  simp [drop, produced, ScheduleEvent.next]

@[simp] theorem started_start :
    (schedule.start task waiting).started = schedule.started ++ [task] := by
  simp [start, started, ScheduleEvent.started?]

@[simp] theorem finished_start : (schedule.start task waiting).finished = schedule.finished := by
  simp [start, finished, ScheduleEvent.finished?, List.filterMap_cons]

@[simp] theorem dropped_start : (schedule.start task waiting).dropped = schedule.dropped := by
  simp [start, dropped, ScheduleEvent.dropped?, List.filterMap_cons]

@[simp] theorem produced_start : (schedule.start task waiting).produced = schedule.produced := by
  simp [start, produced, ScheduleEvent.next]

@[simp] theorem started_finish :
    (schedule.finish draft task others next).started = schedule.started := by
  simp [finish, started, ScheduleEvent.started?, List.filterMap_cons]

@[simp] theorem finished_finish :
    (schedule.finish draft task others next).finished = schedule.finished ++ [task] := by
  simp [finish, finished, ScheduleEvent.finished?]

@[simp] theorem dropped_finish :
    (schedule.finish draft task others next).dropped = schedule.dropped := by
  simp [finish, dropped, ScheduleEvent.dropped?, List.filterMap_cons]

@[simp] theorem produced_finish :
    (schedule.finish draft task others next).produced = schedule.produced ++ next := by
  simp [finish, produced, ScheduleEvent.next]

end

end Schedule

namespace Request

/-- One step of a schedule. -/
inductive Moves (request : Request) (schedule : Schedule) : Schedule → Prop
  | drop {task : FieldTask} {waiting : List FieldTask}
      (isNext : schedule.waiting = task :: waiting)
      (room : schedule.inFlight.card < request.inFlightBound)
      (lost : schedule.draft.tree.isDiscarded task.node = true) :
      Moves request schedule (schedule.drop task waiting)
  | start {task : FieldTask} {waiting : List FieldTask}
      (isNext : schedule.waiting = task :: waiting)
      (room : schedule.inFlight.card < request.inFlightBound)
      (live : schedule.draft.tree.isDiscarded task.node = false) :
      Moves request schedule (schedule.start task waiting)
  | finish {task : FieldTask} {others : Multiset FieldTask} {resolution : Resolution}
      {draft : Draft} {next : List FieldTask} (flying : schedule.inFlight = task ::ₘ others)
      (finished : request.finish task resolution schedule.draft = .ok (draft, next)) :
      Moves request schedule (schedule.finish draft task others next)
  | descend (waiting : schedule.waiting = []) (inFlight : schedule.inFlight = 0)
      (more : schedule.next ≠ []) : Moves request schedule schedule.descend
  | takeUp {batch : List FieldTask} {batches : List (List FieldTask)}
      (waiting : schedule.waiting = []) (inFlight : schedule.inFlight = 0)
      (next : schedule.next = []) (isNext : schedule.batches = batch :: batches) :
      Moves request schedule (schedule.takeUp batch batches)

/-- Any number of steps. -/
abbrev Schedules (request : Request) : Schedule → Schedule → Prop :=
  Relation.ReflTransGen request.Moves

end Request

namespace Schedule

variable {request : Request} {roots waiting next : List FieldTask} {schedule later : Schedule}
  {task : FieldTask} {others : Multiset FieldTask} {draft : Draft} {resolution : Resolution}

/-! ## No task is lost or repeated -/

private theorem unstarted_of_waiting (isNext : schedule.waiting = task :: waiting) :
    schedule.unstarted = task :: (waiting ++ schedule.next ++ schedule.batches.flatten) := by
  rw [unstarted, isNext]
  rfl

private theorem unstarted_descend (nothing : schedule.waiting = []) :
    schedule.descend.unstarted = schedule.unstarted := by
  simp [descend, unstarted, nothing]

private theorem unstarted_takeUp {batch : List FieldTask} {batches : List (List FieldTask)}
    (waiting : schedule.waiting = []) (next : schedule.next = [])
    (isNext : schedule.batches = batch :: batches) :
    (schedule.takeUp batch batches).unstarted = schedule.unstarted := by
  simp [takeUp, unstarted, waiting, next, isNext]

private theorem pending_finish :
    (schedule.finish draft task others next).pending =
      (next : Multiset FieldTask) + (others + (schedule.unstarted : Multiset FieldTask)) := by
  simp only [pending, finish, unstarted, ← Multiset.coe_add]
  abel

/-- A move of a schedule is a step of the executor, or none. -/
theorem runs_of_move (move : request.Moves schedule later) :
    request.Runs Request.anyAnswer (schedule.draft, schedule.pending)
      (later.draft, later.pending) := by
  cases move with
  | @drop task waiting isNext room lost =>
      have same : schedule.pending = task ::ₘ (schedule.drop task waiting).pending := by
        rw [pending, unstarted_of_waiting isNext, ← Multiset.cons_coe, Multiset.add_cons]
        rfl
      rw [same]
      exact .single (.drop lost)
  | @start task waiting isNext room live =>
      have same : schedule.pending = (schedule.start task waiting).pending := by
        rw [pending, unstarted_of_waiting isNext, ← Multiset.cons_coe, Multiset.add_cons,
          ← Multiset.cons_add]
        rfl
      rw [same]
      exact .refl
  | @finish task others resolution draft next flying finished =>
      have before : schedule.pending =
          task ::ₘ (others + (schedule.unstarted : Multiset FieldTask)) := by
        rw [pending, flying, Multiset.cons_add]
      rw [before, pending_finish]
      exact .single (.finish trivial finished)
  | descend waiting inFlight more =>
      rw [pending, pending, unstarted_descend waiting]
      exact .refl
  | takeUp waiting inFlight next isNext =>
      rw [pending, pending, unstarted_takeUp waiting next isNext]
      exact .refl

/-- The books of a schedule: what has become of the tasks that were given or produced. -/
structure Accounts (request : Request) (roots : List FieldTask) (schedule : Schedule) : Prop where
  valid : (Outstanding.progress (schedule.draft, schedule.pending)).Valid
  room : schedule.inFlight.card ≤ request.inFlightBound
  given : ((roots ++ schedule.produced : List FieldTask) : Multiset FieldTask) =
    schedule.started + (schedule.dropped + (schedule.unstarted : Multiset FieldTask))
  flying : (schedule.started : Multiset FieldTask) = schedule.finished + schedule.inFlight
  distinct : ((roots ++ schedule.produced).map FieldTask.node).Nodup
  known : ∀ task ∈ roots ++ schedule.produced, task.node < schedule.draft.tree.nodes.size

private theorem distinct_pending
    (valid : (Outstanding.progress (schedule.draft, schedule.pending)).Valid) :
    (schedule.pending.map FieldTask.node).Nodup := by
  have distinct := valid.distinct
  rwa [Outstanding.progress, Multiset.map_map] at distinct

private theorem node_lt_of_pending
    (valid : (Outstanding.progress (schedule.draft, schedule.pending)).Valid)
    (isPending : task ∈ schedule.pending) : task.node < schedule.draft.tree.nodes.size := by
  rcases valid.pending (.resolve task) (Multiset.mem_map_of_mem _ isPending) with ⟨node, found, _⟩
  exact Tree.node?_lt found

private theorem Accounts.fresh (accounts : schedule.Accounts request roots)
    (flying : schedule.inFlight = task ::ₘ others)
    (finished : request.finish task resolution schedule.draft = .ok (draft, next)) :
    ∀ other ∈ next, schedule.draft.tree.nodes.size ≤ other.node := by
  have valid := accounts.valid
  rw [pending, flying, Multiset.cons_add, Outstanding.progress, Multiset.map_cons] at valid
  exact Request.finish_fresh valid finished

private theorem Accounts.finish (accounts : schedule.Accounts request roots)
    (flying : schedule.inFlight = task ::ₘ others)
    (finished : request.finish task resolution schedule.draft = .ok (draft, next))
    (valid : (Outstanding.progress
      (draft, (schedule.finish draft task others next).pending)).Valid)
    (growth : schedule.draft.tree.Extends draft.tree) :
    (schedule.finish draft task others next).Accounts request roots := by
  have fresh := accounts.fresh flying finished
  have distinct : ((schedule.finish draft task others next).pending.map FieldTask.node).Nodup :=
    distinct_pending valid
  have room := accounts.room
  rw [flying, Multiset.card_cons] at room
  refine ⟨valid, Nat.le_of_succ_le room, ?_, ?_, ?_, ?_⟩
  · have given := accounts.given
    rw [← Multiset.coe_add] at given
    rw [produced_finish, ← List.append_assoc, ← Multiset.coe_add, ← Multiset.coe_add, given,
      started_finish, dropped_finish]
    simp only [Schedule.finish, unstarted, ← Multiset.coe_add]
    abel
  · rw [started_finish, finished_finish, accounts.flying, flying, ← Multiset.coe_add,
      ← Multiset.singleton_add, ← Multiset.coe_singleton, ← add_assoc]
    rfl
  · rw [pending_finish, Multiset.map_add, Multiset.map_coe] at distinct
    rw [produced_finish, ← List.append_assoc, List.map_append]
    refine accounts.distinct.append (Multiset.coe_nodup.mp (Multiset.nodup_add.mp distinct).1) ?_
    intro node isOld isNew
    rcases List.mem_map.mp isOld with ⟨old, listed, isNode⟩
    rcases List.mem_map.mp isNew with ⟨new, added, isFresh⟩
    have below := Nat.lt_of_lt_of_le (accounts.known old listed) (fresh new added)
    rw [isNode, isFresh] at below
    exact Nat.lt_irrefl _ below
  · rw [produced_finish, ← List.append_assoc]
    intro other listed
    rcases List.mem_append.mp listed with old | new
    · exact Nat.lt_of_lt_of_le (accounts.known other old) growth.size_le
    · have isPending : other ∈ (schedule.finish draft task others next).pending := by
        rw [pending_finish]
        exact Multiset.mem_add.mpr (.inl (Multiset.mem_coe.mpr new))
      exact node_lt_of_pending valid isPending

theorem Accounts.move (accounts : schedule.Accounts request roots)
    (move : request.Moves schedule later) : later.Accounts request roots := by
  have runs := runs_of_move move
  have valid : (Outstanding.progress (later.draft, later.pending)).Valid :=
    Request.Steps.valid (runs.steps accounts.valid) accounts.valid
  have growth : schedule.draft.tree.Extends later.draft.tree :=
    Request.Steps.extends (runs.steps accounts.valid) accounts.valid
  have given := accounts.given
  cases move with
  | @drop task waiting isNext room lost =>
      rw [unstarted_of_waiting isNext, ← Multiset.cons_coe] at given
      refine ⟨valid, accounts.room, ?_, ?_, ?_, ?_⟩
      · rw [produced_drop, started_drop, dropped_drop, given, ← Multiset.coe_add schedule.dropped,
          add_assoc]
        rfl
      · rw [started_drop, finished_drop, accounts.flying]
        rfl
      · rw [produced_drop]
        exact accounts.distinct
      · rw [produced_drop]
        exact accounts.known
  | @start task waiting isNext room live =>
      rw [unstarted_of_waiting isNext, ← Multiset.cons_coe] at given
      refine ⟨valid, ?_, ?_, ?_, ?_, ?_⟩
      · rw [start, Multiset.card_cons]
        exact room
      · rw [produced_start, started_start, dropped_start, given, Multiset.add_cons,
          Multiset.add_cons, ← Multiset.cons_add, ← Multiset.coe_add schedule.started,
          add_comm (schedule.started : Multiset FieldTask) ([task] : List FieldTask)]
        rfl
      · rw [started_start, finished_start, ← Multiset.coe_add, accounts.flying, add_assoc,
          Multiset.coe_singleton, add_comm schedule.inFlight, Multiset.singleton_add]
        rfl
      · rw [produced_start]
        exact accounts.distinct
      · rw [produced_start]
        exact accounts.known
  | finish flying finished => exact accounts.finish flying finished valid growth
  | descend waiting inFlight more =>
      exact ⟨valid, accounts.room, unstarted_descend waiting ▸ given, accounts.flying,
        accounts.distinct, accounts.known⟩
  | takeUp waiting inFlight next isNext =>
      exact ⟨valid, accounts.room, unstarted_takeUp waiting next isNext ▸ given, accounts.flying,
        accounts.distinct, accounts.known⟩

/-! ## One level after another -/

/-- A task was finished on a level. -/
def Finished (events : List ScheduleEvent) (level : Nat) (task : FieldTask) : Prop :=
  ∃ next, .finish level task next ∈ events

private theorem Finished.append {events : List ScheduleEvent} {level : Nat}
    (isFinished : Finished events level task) (more : List ScheduleEvent) :
    Finished (events ++ more) level task := by
  rcases isFinished with ⟨next, listed⟩
  exact ⟨next, List.mem_append_left more listed⟩

/-- Before a task is started, all that was started on lower levels is finished. -/
private def Settled (events : List ScheduleEvent) : Prop :=
  ∀ before after number task, events = before ++ .start number task :: after →
    ∀ level other, level < number → .start level other ∈ events → Finished before level other

private theorem Settled.concat {events : List ScheduleEvent} {last : ScheduleEvent}
    (settled : Settled events)
    (highest : ∀ number task, last = .start number task → ∀ event ∈ events, event.level ≤ number)
    (now : ∀ number task, last = .start number task → ∀ level other, level < number →
      .start level other ∈ events → Finished events level other) :
    Settled (events ++ [last]) := by
  intro before after number task split level other lower isStart
  rcases List.eq_nil_or_concat after with nothing | ⟨rest, added, isAfter⟩
  · subst nothing
    rcases List.append_inj' split rfl with ⟨sameEvents, sameLast⟩
    have isLast : last = .start number task := List.singleton_inj.mp sameLast
    subst sameEvents
    rcases List.mem_append.mp isStart with listed | same
    · exact now number task isLast level other lower listed
    · have equal := (List.mem_singleton.mp same).trans isLast
      injection equal with sameLevel
      exact absurd sameLevel (Nat.ne_of_lt lower)
  · subst isAfter
    rw [List.concat_eq_append, ← List.cons_append, ← List.append_assoc] at split
    rcases List.append_inj' split rfl with ⟨sameEvents, _⟩
    have listed : .start number task ∈ events := by
      rw [sameEvents]
      exact List.mem_append_right _ List.mem_cons_self
    rcases List.mem_append.mp isStart with known | same
    · exact settled before rest number task sameEvents level other lower known
    · have bounded := highest level other (List.mem_singleton.mp same).symm _ listed
      exact absurd lower (Nat.not_lt.mpr bounded)

/-- What holds of the levels of a schedule between two steps. -/
structure Layered (schedule : Schedule) : Prop where
  past : ∀ event ∈ schedule.events, event.level ≤ schedule.level
  flying : ∀ level task, .start level task ∈ schedule.events →
    Finished schedule.events level task ∨ level = schedule.level ∧ task ∈ schedule.inFlight
  ahead : ∀ parent next, .finish schedule.level parent next ∈ schedule.events →
    ∀ task ∈ next, task ∈ schedule.next
  settled : Settled schedule.events
  later : ∀ level parent next, .finish level parent next ∈ schedule.events →
    ∀ task ∈ next, ∀ number, .start number task ∈ schedule.events → level < number

namespace Layered

variable (layered : schedule.Layered)

include layered

private theorem past_concat {event : ScheduleEvent} (isCurrent : event.level = schedule.level) :
    ∀ other ∈ schedule.events ++ [event], other.level ≤ schedule.level := by
  intro other listed
  rcases List.mem_append.mp listed with known | added
  · exact layered.past other known
  · rw [List.mem_singleton.mp added]
    exact Nat.le_of_eq isCurrent

private theorem drop (task : FieldTask) (waiting : List FieldTask) :
    (schedule.drop task waiting).Layered := by
  have starts : ∀ {level other}, ScheduleEvent.start level other ∈
      schedule.events ++ [.drop schedule.level task] → .start level other ∈ schedule.events := by
    intro level other listed
    simpa using listed
  have finishes : ∀ {level parent next}, ScheduleEvent.finish level parent next ∈
      schedule.events ++ [.drop schedule.level task] →
        .finish level parent next ∈ schedule.events := by
    intro level parent next listed
    simpa using listed
  refine ⟨layered.past_concat rfl, ?_,
    fun parent next listed => layered.ahead parent next (finishes listed), ?_,
    fun level parent next listed other isNext number isStart =>
      layered.later level parent next (finishes listed) other isNext number (starts isStart)⟩
  · intro level other listed
    exact (layered.flying level other (starts listed)).imp_left fun done => done.append _
  · exact layered.settled.concat nofun nofun

private theorem start (accounts : schedule.Accounts request roots)
    (isNext : schedule.waiting = task :: waiting) : (schedule.start task waiting).Layered := by
  have finishes : ∀ {level parent next}, ScheduleEvent.finish level parent next ∈
      schedule.events ++ [.start schedule.level task] →
        .finish level parent next ∈ schedule.events := by
    intro level parent next listed
    simpa using listed
  have notAhead : task ∉ schedule.next := by
    intro isAhead
    have distinct := distinct_pending accounts.valid
    rw [pending, unstarted_of_waiting isNext, ← Multiset.cons_coe, Multiset.add_cons,
      Multiset.map_cons] at distinct
    refine (Multiset.nodup_cons.mp distinct).1 (Multiset.mem_map_of_mem _ ?_)
    simp [isAhead]
  refine ⟨layered.past_concat rfl, ?_,
    fun parent next listed => layered.ahead parent next (finishes listed), ?_, ?_⟩
  · intro level other listed
    rcases List.mem_append.mp listed with known | added
    · exact (layered.flying level other known).imp (·.append _)
        fun ⟨same, isFlying⟩ => ⟨same, Multiset.mem_cons_of_mem isFlying⟩
    · injection List.mem_singleton.mp added with same isTask
      exact .inr ⟨same, isTask ▸ Multiset.mem_cons_self _ _⟩
  · refine layered.settled.concat ?_ ?_
    · intro number other isLast
      injection isLast with same
      exact same ▸ layered.past
    · intro number other isLast level before lower listed
      injection isLast with same
      rcases layered.flying level before listed with done | ⟨isCurrent, _⟩
      · exact done
      · exact absurd (same ▸ isCurrent) (Nat.ne_of_lt lower)
  · intro level parent next listed other isNext number isStart
    have known := finishes listed
    rcases List.mem_append.mp isStart with before | added
    · exact layered.later level parent next known other isNext number before
    · injection List.mem_singleton.mp added with same isTask
      rw [same]
      refine Nat.lt_of_le_of_ne (layered.past _ known) fun isCurrent => notAhead ?_
      have onLevel : level = schedule.level := isCurrent
      exact isTask ▸ layered.ahead parent next (onLevel ▸ known) other isNext

private theorem finish (accounts : schedule.Accounts request roots)
    (flying : schedule.inFlight = task ::ₘ others)
    (finished : request.finish task resolution schedule.draft = .ok (draft, next)) :
    (schedule.finish draft task others next).Layered := by
  have starts : ∀ {level other}, ScheduleEvent.start level other ∈
      schedule.events ++ [.finish schedule.level task next] →
        .start level other ∈ schedule.events := by
    intro level other listed
    simpa using listed
  have fresh := accounts.fresh flying finished
  refine ⟨layered.past_concat rfl, ?_, ?_, layered.settled.concat nofun nofun, ?_⟩
  · intro level other listed
    rcases layered.flying level other (starts listed) with done | ⟨same, isFlying⟩
    · exact .inl (done.append _)
    · rw [flying] at isFlying
      rcases Multiset.mem_cons.mp isFlying with isTask | isOther
      · subst isTask
        subst same
        exact .inl ⟨next, List.mem_append_right _ List.mem_cons_self⟩
      · exact .inr ⟨same, isOther⟩
  · intro parent produced listed other isProduced
    rcases List.mem_append.mp listed with known | added
    · exact List.mem_append_left _ (layered.ahead parent produced known other isProduced)
    · injection List.mem_singleton.mp added with _ _ same
      exact List.mem_append_right _ (same ▸ isProduced)
  · intro level parent produced listed other isProduced number isStart
    have before := starts isStart
    rcases List.mem_append.mp listed with known | added
    · exact layered.later level parent produced known other isProduced number before
    · injection List.mem_singleton.mp added with _ _ same
      have isStarted : other ∈ schedule.started := List.mem_filterMap.mpr ⟨_, before, rfl⟩
      have isGiven : other ∈ roots ++ schedule.produced := by
        rw [← Multiset.mem_coe, accounts.given]
        exact Multiset.mem_add.mpr (.inl (Multiset.mem_coe.mpr isStarted))
      have below := accounts.known other isGiven
      exact absurd (fresh other (same ▸ isProduced)) (Nat.not_le.mpr below)

private theorem leave (landed : schedule.inFlight = 0) (waiting next : List FieldTask)
    (batches : List (List FieldTask)) :
    { schedule with
      waiting := waiting
      next := next
      batches := batches
      level := schedule.level + 1 }.Layered := by
  refine ⟨fun event listed => (layered.past event listed).trans (Nat.le_succ _), ?_, ?_,
    layered.settled, layered.later⟩
  · intro level other listed
    rcases layered.flying level other listed with done | ⟨_, isFlying⟩
    · exact .inl done
    · rw [landed] at isFlying
      cases isFlying
  · intro parent produced listed
    exact absurd (layered.past _ listed) (Nat.not_succ_le_self _)

private theorem move (accounts : schedule.Accounts request roots)
    (move : request.Moves schedule later) :
    later.Layered := by
  cases move with
  | drop isNext room lost => exact layered.drop _ _
  | start isNext room live => exact layered.start accounts isNext
  | finish flying finished => exact layered.finish accounts flying finished
  | descend waiting inFlight more => exact layered.leave inFlight _ _ _
  | takeUp waiting inFlight next isNext => exact layered.leave inFlight _ _ _

end Layered

/-- What a level leads to is started after all that was started on the level is finished. -/
def Levelled (events : List ScheduleEvent) : Prop :=
  ∀ before after number task, events = before ++ .start number task :: after →
    ∀ level parent next, .finish level parent next ∈ events → task ∈ next →
      ∀ other, .start level other ∈ events → Finished before level other

theorem Layered.levelled (layered : schedule.Layered) : Levelled schedule.events := by
  intro before after number task split level parent next isFinish isNext other isStart
  have listed : .start number task ∈ schedule.events := by
    rw [split]
    exact List.mem_append_right _ List.mem_cons_self
  exact layered.settled before after number task split level other
    (layered.later level parent next isFinish task isNext number listed) isStart

/-! ## Whole schedules -/

/-- Nothing has been done yet. -/
def initial (draft : Draft) (batches : List (List FieldTask)) : Schedule :=
  { draft := draft, batches := batches }

theorem initial_layered (draft : Draft) (batches : List (List FieldTask)) :
    (initial draft batches).Layered := by
  refine ⟨nofun, nofun, nofun, ?_, nofun⟩
  intro before after number task split
  rcases List.append_eq_nil_iff.mp split.symm with ⟨_, impossible⟩
  cases impossible

theorem initial_accounts {rootValue : FieldValue} {batches : List (List FieldTask)}
    (divided : batches.flatten = (request.rootTasks rootValue).2) :
    (initial (request.rootTasks rootValue).1 batches).Accounts request
      (request.rootTasks rootValue).2 := by
  have unstarted : (initial (request.rootTasks rootValue).1 batches).unstarted =
      (request.rootTasks rootValue).2 := divided
  have pending : (initial (request.rootTasks rootValue).1 batches).pending =
      ((request.rootTasks rootValue).2 : Multiset FieldTask) := by
    rw [Schedule.pending, unstarted]
    exact zero_add _
  have valid : (Outstanding.progress ((initial (request.rootTasks rootValue).1 batches).draft,
      (initial (request.rootTasks rootValue).1 batches).pending)).Valid := by
    rw [pending]
    exact request.initial_valid rootValue
  have produced : (request.rootTasks rootValue).2 ++
      (initial (request.rootTasks rootValue).1 batches).produced =
        (request.rootTasks rootValue).2 := List.append_nil _
  refine ⟨valid, Nat.zero_le _, ?_, rfl, ?_, ?_⟩
  · rw [produced, unstarted]
    exact ((zero_add _).trans (zero_add _)).symm
  · have distinct := distinct_pending valid
    rw [pending, Multiset.map_coe, Multiset.coe_nodup] at distinct
    rwa [produced]
  · rw [produced]
    intro task listed
    exact node_lt_of_pending valid (pending ▸ Multiset.mem_coe.mpr listed)

end Schedule

namespace Request

open Schedule

variable {request : Request} {roots : List FieldTask} {first last : Schedule}

theorem Schedules.accounts (schedules : request.Schedules first last)
    (accounts : first.Accounts request roots) : last.Accounts request roots := by
  induction schedules with
  | refl => exact accounts
  | tail _ move induction => exact induction.move move

theorem Schedules.layered (schedules : request.Schedules first last)
    (accounts : first.Accounts request roots) (layered : first.Layered) : last.Layered := by
  induction schedules with
  | refl => exact layered
  | tail earlier move induction => exact induction.move (Schedules.accounts earlier accounts) move

/-- When its turn came, there was room for the task, but its node was discarded. -/
def Drops (request : Request) (first : Schedule) (task : FieldTask) (last : Schedule) : Prop :=
  ∃ schedule waiting, request.Schedules first schedule ∧ schedule.waiting = task :: waiting ∧
    schedule.inFlight.card < request.inFlightBound ∧
      schedule.draft.tree.isDiscarded task.node = true ∧
        request.Schedules (schedule.drop task waiting) last

private theorem Drops.tail {task : FieldTask} {later : Schedule}
    (drops : request.Drops first task last)
    (move : request.Moves last later) : request.Drops first task later := by
  rcases drops with ⟨schedule, waiting, earlier, isNext, room, lost, rest⟩
  exact ⟨schedule, waiting, earlier, isNext, room, lost, rest.tail move⟩

theorem drops_of_dropped {task : FieldTask} (schedules : request.Schedules first last)
    (nothing : first.dropped = []) (isDropped : task ∈ last.dropped) :
    request.Drops first task last := by
  induction schedules with
  | refl =>
      rw [nothing] at isDropped
      cases isDropped
  | @tail schedule later earlier move induction =>
      cases move with
      | @drop head waiting isNext room lost =>
          rw [dropped_drop] at isDropped
          rcases List.mem_append.mp isDropped with before | now
          · exact (induction before).tail (.drop isNext room lost)
          · rw [List.mem_singleton.mp now]
            exact ⟨schedule, waiting, earlier, isNext, room, lost, .refl⟩
      | start isNext room live =>
          rw [dropped_start] at isDropped
          exact (induction isDropped).tail (.start isNext room live)
      | finish flying finished =>
          rw [dropped_finish] at isDropped
          exact (induction isDropped).tail (.finish flying finished)
      | descend waiting inFlight more =>
          exact (induction isDropped).tail (.descend waiting inFlight more)
      | takeUp waiting inFlight next isNext =>
          exact (induction isDropped).tail (.takeUp waiting inFlight next isNext)

end Request

namespace Schedule

variable {request : Request} {roots : List FieldTask} {schedule : Schedule}

namespace Accounts

variable (accounts : schedule.Accounts request roots)

include accounts

private theorem distinct_given :
    ((schedule.started ++ (schedule.dropped ++ schedule.unstarted)).map FieldTask.node).Nodup := by
  have same : (roots ++ schedule.produced).Perm
      (schedule.started ++ (schedule.dropped ++ schedule.unstarted)) :=
    Multiset.coe_eq_coe.mp accounts.given
  exact (same.map FieldTask.node).nodup_iff.mp accounts.distinct

theorem distinct_started : (schedule.started.map FieldTask.node).Nodup := by
  have distinct := accounts.distinct_given
  rw [List.map_append] at distinct
  exact (List.nodup_append.mp distinct).1

theorem distinct_finished : (schedule.finished.map FieldTask.node).Nodup := by
  have distinct := accounts.distinct_started
  rw [← Multiset.coe_nodup, ← Multiset.map_coe, accounts.flying, Multiset.map_add,
    Multiset.nodup_add] at distinct
  exact Multiset.coe_nodup.mp distinct.1

theorem not_started_of_dropped {task : FieldTask} (isDropped : task ∈ schedule.dropped) :
    task ∉ schedule.started := by
  intro isStarted
  have distinct := accounts.distinct_given
  rw [List.map_append] at distinct
  exact (List.nodup_append.mp distinct).2.2 _ (List.mem_map_of_mem isStarted) _
    (List.mem_map_of_mem (List.mem_append_left _ isDropped)) rfl

/-- In the end every task was started and finished, or dropped. -/
theorem settled_of_done (done : schedule.Done) {task : FieldTask}
    (isGiven : task ∈ roots ++ schedule.produced) :
    task ∈ schedule.started ∧ task ∈ schedule.finished ∨ task ∈ schedule.dropped := by
  have nothing : schedule.unstarted = [] := by
    simp [unstarted, done.waiting, done.next, done.batches]
  rw [← Multiset.mem_coe, accounts.given, nothing] at isGiven
  rcases Multiset.mem_add.mp isGiven with isStarted | others
  · have isFinished : task ∈ (schedule.started : Multiset FieldTask) := isStarted
    rw [accounts.flying, done.inFlight, add_zero] at isFinished
    exact .inl ⟨isStarted, isFinished⟩
  · rcases Multiset.mem_add.mp others with isDropped | impossible
    · exact .inr isDropped
    · cases impossible

end Accounts

end Schedule

end GraphQL
