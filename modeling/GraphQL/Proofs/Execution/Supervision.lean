import GraphQL.Proofs.Execution.Activity
import GraphQL.Proofs.Execution.Scheduling

/-!
Schedules under a token. The token is checked before a task is started, in every wait, and when a
resolver has answered; it may be cancelled or expire at any point between these steps. The first
check after that ends the schedule, and until then at most a task that has passed its own check is
finished.
-/

namespace GraphQL

variable {σ : Type}

/-! ## Stages -/

/-- What a supervised schedule does next. -/
inductive Phase where
  /-- No level is under way. -/
  | between
  /-- Tasks of a level are started, or waited for. -/
  | within
  /-- The resolver of a task in flight has answered. -/
  | woken (task : FieldTask)
  /-- A task is about to be finished. -/
  | answered (task : FieldTask) (resolution : Resolution)
  | ended (abort : Abort)

namespace Phase

/-- A level without tasks is over at once. -/
def entering : List FieldTask → Phase
  | [] => .between
  | _ :: _ => .within

/-- The interruption that has ended the schedule. -/
def interruption? : Phase → Option Interruption
  | .ended abort => abort.interruption?
  | _ => none

end Phase

/-- A schedule in a world. -/
structure Stage (σ : Type) where
  schedule : Schedule
  world : World σ
  phase : Phase := .between

namespace Stage

def path (stage : Stage σ) (task : FieldTask) : Path := stage.schedule.draft.tree.path task.node

/-- No task can be started, because none waits or there is no room. -/
def Waits (request : Request) (stage : Stage σ) : Prop :=
  stage.phase = .within ∧
    (stage.schedule.waiting = [] ∨ request.inFlightBound ≤ stage.schedule.inFlight.card)

/-- There is room for the next task. -/
structure Offers (request : Request) (stage : Stage σ) (task : FieldTask)
    (waiting : List FieldTask) : Prop where
  phase : stage.phase = .within
  isNext : stage.schedule.waiting = task :: waiting
  room : stage.schedule.inFlight.card < request.inFlightBound

/-- What is done next whether or not the token is interrupted. -/
def due (stage : Stage σ) : List Activity :=
  match stage.phase with
  | .answered task _ => [.finish (stage.path task)]
  | _ => []

end Stage

namespace Request

/-- One step of a supervised schedule, and what is done in it. Resolvers may answer anything, those
in flight in any order, and may move the world on in any way. -/
inductive Proceeds (request : Request) (stage : Stage σ) : List Activity → Stage σ → Prop
  | pass {world : World σ} (later : stage.world.Later world) :
      Proceeds request stage [] { stage with world := world }
  | takeUp {batch : List FieldTask} {batches : List (List FieldTask)}
      (phase : stage.phase = .between) (waiting : stage.schedule.waiting = [])
      (inFlight : stage.schedule.inFlight = 0) (next : stage.schedule.next = [])
      (isNext : stage.schedule.batches = batch :: batches) :
      Proceeds request stage []
        { stage with schedule := stage.schedule.takeUp batch batches, phase := .entering batch }
  | descend (phase : stage.phase = .between) (waiting : stage.schedule.waiting = [])
      (inFlight : stage.schedule.inFlight = 0) (more : stage.schedule.next ≠ []) :
      Proceeds request stage []
        { stage with schedule := stage.schedule.descend, phase := .within }
  | drop {task : FieldTask} {waiting : List FieldTask} (offers : stage.Offers request task waiting)
      (lost : stage.schedule.draft.tree.isDiscarded task.node = true) :
      Proceeds request stage [] { stage with schedule := stage.schedule.drop task waiting }
  | refuse {task : FieldTask} {waiting : List FieldTask} {interruption : Interruption}
      {world : World σ} (offers : stage.Offers request task waiting)
      (live : stage.schedule.draft.tree.isDiscarded task.node = false)
      (refused : stage.world.check request.token = (some interruption, world)) :
      Proceeds request stage [.check (some interruption)]
        { stage with world := world, phase := .ended (.interrupted interruption) }
  /-- The resolver of the next task is called and does not answer at once. -/
  | suspend {task : FieldTask} {waiting : List FieldTask} {cleared world : World σ}
      (offers : stage.Offers request task waiting)
      (live : stage.schedule.draft.tree.isDiscarded task.node = false)
      (clear : stage.world.check request.token = (none, cleared)) (later : cleared.Later world) :
      Proceeds request stage [.check none, .start (stage.path task)]
        { stage with schedule := stage.schedule.start task waiting, world := world }
  /-- The resolver of the next task is called and answers at once. -/
  | answer {task : FieldTask} {waiting : List FieldTask} {cleared world : World σ}
      {resolution : Resolution} (offers : stage.Offers request task waiting)
      (live : stage.schedule.draft.tree.isDiscarded task.node = false)
      (clear : stage.world.check request.token = (none, cleared)) (later : cleared.Later world) :
      Proceeds request stage [.check none, .start (stage.path task)]
        { stage with
          schedule := stage.schedule.start task waiting
          world := world
          phase := .answered task resolution }
  | finish {task : FieldTask} {others : Multiset FieldTask} {resolution : Resolution}
      {draft : Draft} {next : List FieldTask} (phase : stage.phase = .answered task resolution)
      (flying : stage.schedule.inFlight = task ::ₘ others)
      (finished : request.finish task resolution stage.schedule.draft = .ok (draft, next)) :
      Proceeds request stage [.finish (stage.path task)]
        { stage with schedule := stage.schedule.finish draft task others next, phase := .within }
  | panic {task : FieldTask} {resolution : Resolution} {reason : Option String}
      (phase : stage.phase = .answered task resolution)
      (failed : request.finish task resolution stage.schedule.draft = .error reason) :
      Proceeds request stage [.finish (stage.path task)]
        { stage with phase := .ended (.panicked reason) }
  | interrupt {interruption : Interruption} {world : World σ} (waits : stage.Waits request)
      (interrupted : stage.world.interrupted request.token = (some interruption, world)) :
      Proceeds request stage [.check (some interruption)]
        { stage with world := world, phase := .ended (.interrupted interruption) }
  /-- Nobody in flight has answered yet. -/
  | sleep {world : World σ} (waits : stage.Waits request) (busy : stage.schedule.inFlight ≠ 0)
      (undisturbed : stage.world.interrupted request.token = (none, world)) :
      Proceeds request stage [.check none] { stage with world := world }
  | wake {task : FieldTask} {others : Multiset FieldTask} {world : World σ}
      (waits : stage.Waits request) (flying : stage.schedule.inFlight = task ::ₘ others)
      (undisturbed : stage.world.interrupted request.token = (none, world)) :
      Proceeds request stage [.check none] { stage with world := world, phase := .woken task }
  /-- A level ends with a wait, though nothing is in flight. -/
  | leave {world : World σ} (waits : stage.Waits request) (waiting : stage.schedule.waiting = [])
      (inFlight : stage.schedule.inFlight = 0)
      (undisturbed : stage.world.interrupted request.token = (none, world)) :
      Proceeds request stage [.check none] { stage with world := world, phase := .between }
  | reject {task : FieldTask} {interruption : Interruption} {world : World σ}
      (phase : stage.phase = .woken task)
      (rejected : stage.world.check request.token = (some interruption, world)) :
      Proceeds request stage [.check (some interruption)]
        { stage with world := world, phase := .ended (.interrupted interruption) }
  | accept {task : FieldTask} {resolution : Resolution} {world : World σ}
      (phase : stage.phase = .woken task)
      (clear : stage.world.check request.token = (none, world)) :
      Proceeds request stage [.check none]
        { stage with world := world, phase := .answered task resolution }

/-- Any number of steps, and all that is done in them. -/
inductive Goes (request : Request) (first : Stage σ) : List Activity → Stage σ → Prop
  | refl : Goes request first [] first
  | tail {log done : List Activity} {middle last : Stage σ}
      (earlier : Goes request first log middle)
      (proceeds : request.Proceeds middle done last) : Goes request first (log ++ done) last

variable {request : Request} {first middle last stage : Stage σ} {log more done : List Activity}

theorem Goes.single (proceeds : request.Proceeds first done last) :
    request.Goes first done last :=
  .tail .refl proceeds

theorem Goes.trans (earlier : request.Goes first log middle)
    (later : request.Goes middle more last) : request.Goes first (log ++ more) last := by
  induction later with
  | refl =>
      rw [List.append_nil]
      exact earlier
  | tail _ proceeds induction =>
      rw [← List.append_assoc]
      exact induction.tail proceeds

/-- The world may go on in the end. -/
theorem Goes.passed {world : World σ} (goes : request.Goes first log last)
    (later : last.world.Later world) : request.Goes first log { last with world := world } := by
  have passes := goes.tail (.pass later)
  rwa [List.append_nil] at passes

/-! ## What steps keep -/

private theorem Proceeds.schedules (proceeds : request.Proceeds stage done last) :
    request.Schedules stage.schedule last.schedule := by
  cases proceeds with
  | pass | refuse | panic | interrupt | sleep | wake | leave | reject | accept => exact .refl
  | takeUp phase waiting inFlight next isNext =>
      exact .single (.takeUp waiting inFlight next isNext)
  | descend phase waiting inFlight more => exact .single (.descend waiting inFlight more)
  | drop offers lost => exact .single (.drop offers.isNext offers.room lost)
  | suspend offers live | answer offers live =>
      exact .single (.start offers.isNext offers.room live)
  | finish phase flying finished => exact .single (.finish flying finished)

private theorem Goes.schedules (goes : request.Goes first log last) :
    request.Schedules first.schedule last.schedule := by
  induction goes with
  | refl => exact .refl
  | tail _ proceeds induction => exact induction.trans proceeds.schedules

private theorem later_of_check {world : World σ} {found : Option Interruption}
    (checked : stage.world.check request.token = (found, world)) : stage.world.Later world := by
  have later := stage.world.check_later request.token
  rwa [checked] at later

private theorem later_of_interrupted {world : World σ} {found : Option Interruption}
    (checked : stage.world.interrupted request.token = (found, world)) :
    stage.world.Later world := by
  have later := stage.world.interrupted_later request.token
  rwa [checked] at later

private theorem Proceeds.later (proceeds : request.Proceeds stage done last) :
    stage.world.Later last.world := by
  cases proceeds with
  | pass later => exact later
  | takeUp | descend | drop | finish | panic => exact .refl _
  | refuse _ _ checked | reject _ checked | accept _ checked => exact later_of_check checked
  | suspend _ _ clear later | answer _ _ clear later => exact (later_of_check clear).trans later
  | interrupt _ checked | sleep _ _ checked | wake _ _ checked | leave _ _ _ checked =>
      exact later_of_interrupted checked

/-! ## What is done -/

private theorem Proceeds.of_ended {abort : Abort} (proceeds : request.Proceeds stage done last)
    (ended : stage.phase = .ended abort) : done = [] ∧ last.phase = .ended abort := by
  cases proceeds with
  | pass later => exact ⟨rfl, ended⟩
  | takeUp phase | descend phase | finish phase | panic phase | reject phase | accept phase =>
      rw [ended] at phase
      cases phase
  | drop offers | refuse offers | suspend offers | answer offers =>
      have phase := offers.phase
      rw [ended] at phase
      cases phase
  | interrupt waits | sleep waits | wake waits | leave waits =>
      have phase := waits.1
      rw [ended] at phase
      cases phase

private theorem interruption?_entering (tasks : List FieldTask) :
    (Phase.entering tasks).interruption? = none := by
  cases tasks <;> rfl

private theorem Proceeds.observed (proceeds : request.Proceeds stage done last)
    (goesOn : stage.phase.interruption? = none) :
    Activity.Observed done last.phase.interruption? := by
  cases proceeds with
  | pass | drop =>
      simp only [goesOn]
      exact .nil
  | takeUp =>
      rw [interruption?_entering]
      exact .nil
  | descend => exact .nil
  | refuse | interrupt | reject => exact .stop rfl
  | suspend =>
      simp only [goesOn]
      exact .cons rfl (.cons rfl .nil)
  | answer => exact .cons rfl (.cons rfl .nil)
  | sleep =>
      simp only [goesOn]
      exact .cons rfl .nil
  | finish | panic | wake | leave | accept => exact .cons rfl .nil

/-- The first check that finds an interruption is the last thing that is done. -/
theorem Goes.observed (goes : request.Goes first log last)
    (goesOn : first.phase.interruption? = none) :
    Activity.Observed log last.phase.interruption? := by
  induction goes with
  | refl =>
      rw [goesOn]
      exact .nil
  | @tail log done middle last _ proceeds induction =>
      cases found : middle.phase.interruption? with
      | none =>
          rw [found] at induction
          exact .after induction (proceeds.observed found)
      | some interruption =>
          cases phase : middle.phase with
          | ended abort =>
              rcases proceeds.of_ended phase with ⟨nothing, same⟩
              rw [nothing, List.append_nil, same, ← phase]
              exact induction
          | between | within | woken | answered =>
              rw [phase] at found
              cases found

end Request

/-! ## Once the token is interrupted -/

namespace Stage

/-- Between two stages no more is done than was due at the first, and perhaps the check that ends
the schedule. -/
def WindsDown (first : Stage σ) (log : List Activity) (last : Stage σ) : Prop :=
  log ++ last.due = first.due ∨
    ∃ interruption, log = first.due ++ [.check (some interruption)] ∧
      last.phase = .ended (.interrupted interruption)

variable {request : Request} {first middle last stage : Stage σ} {log done : List Activity}
  {task : FieldTask} {waiting : List FieldTask}

private theorem due_within (phase : stage.phase = .within) : stage.due = [] := by
  rw [due, phase]

private theorem due_woken (phase : stage.phase = .woken task) : stage.due = [] := by
  rw [due, phase]

private theorem due_between (phase : stage.phase = .between) : stage.due = [] := by
  rw [due, phase]

private theorem due_answered {resolution : Resolution}
    (phase : stage.phase = .answered task resolution) :
    stage.due = [.finish (stage.path task)] := by
  rw [due, phase]

private theorem WindsDown.stop {interruption : Interruption} (nothing : stage.due = [])
    (ended : last.phase = .ended (.interrupted interruption)) :
    stage.WindsDown [.check (some interruption)] last := by
  refine .inr ⟨interruption, ?_, ended⟩
  rw [nothing]
  rfl

end Stage

namespace Request

variable {request : Request} {first middle last stage : Stage σ} {log done : List Activity}

private theorem Proceeds.windsDown (proceeds : request.Proceeds stage done last)
    (interrupted : stage.world.isInterrupted request.token = true) :
    stage.WindsDown done last := by
  cases proceeds with
  | pass => exact .inl rfl
  | @takeUp batch _ phase =>
      rw [Stage.WindsDown, Stage.due_between phase]
      cases batch <;> exact .inl rfl
  | descend phase =>
      rw [Stage.WindsDown, Stage.due_between phase]
      exact .inl rfl
  | drop => exact .inl rfl
  | refuse offers => exact .stop (Stage.due_within offers.phase) rfl
  | suspend _ _ clear | answer _ _ clear | accept _ clear =>
      have live := (World.live_of_check clear).1
      rw [interrupted] at live
      cases live
  | finish phase | panic phase =>
      rw [Stage.WindsDown, Stage.due_answered phase]
      exact .inl rfl
  | interrupt waits => exact .stop (Stage.due_within waits.1) rfl
  | sleep _ _ undisturbed | wake _ _ undisturbed | leave _ _ _ undisturbed =>
      have live := (World.live_of_interrupted undisturbed).1
      rw [interrupted] at live
      cases live
  | reject phase => exact .stop (Stage.due_woken phase) rfl

theorem Goes.later (goes : request.Goes first log last) : first.world.Later last.world := by
  induction goes with
  | refl => exact .refl _
  | tail _ proceeds induction => exact induction.trans proceeds.later

/-- Once the token is interrupted no task is started. One whose answer has passed its check is
finished, and the next check ends the schedule. -/
theorem Goes.windsDown (goes : request.Goes first log last)
    (interrupted : first.world.isInterrupted request.token = true) : first.WindsDown log last := by
  induction goes with
  | refl => exact .inl rfl
  | @tail log done middle last earlier proceeds induction =>
      rcases induction with partly | ⟨interruption, isLog, ended⟩
      · rcases proceeds.windsDown (earlier.later.isInterrupted interrupted) with
          still | ⟨interruption, isDone, ended⟩
        · refine .inl ?_
          rw [List.append_assoc, still, partly]
        · refine .inr ⟨interruption, ?_, ended⟩
          rw [isDone, ← List.append_assoc, partly]
      · rcases proceeds.of_ended ended with ⟨nothing, same⟩
        refine .inr ⟨interruption, ?_, same⟩
        rw [nothing, List.append_nil, isLog]

/-! ## Whole schedules -/

end Request

namespace Stage

/-- The top-level tasks are handed out in batches. -/
def initial (request : Request) (rootValue : FieldValue) (batches : List (List FieldTask))
    (world : World σ) : Stage σ :=
  { schedule := .initial (request.rootTasks rootValue).1 batches, world := world }

/-- Every level is over. -/
structure Over (stage : Stage σ) : Prop where
  phase : stage.phase = .between
  done : stage.schedule.Done

/-- Every task was dropped, or started and finished, and what is left of the tree is complete. -/
structure Complete (stage : Stage σ) (roots : List FieldTask) : Prop where
  settled : ∀ task ∈ roots ++ stage.schedule.produced,
    task ∈ stage.schedule.started ∧ task ∈ stage.schedule.finished ∨
      task ∈ stage.schedule.dropped
  filled : ∀ {id node}, stage.schedule.draft.tree.node? id = some node →
    node.content = .pending → stage.schedule.draft.tree.isDiscarded id = true

end Stage

namespace Schedule

private theorem Accounts.filled {request : Request} {roots : List FieldTask} {schedule : Schedule}
    (accounts : schedule.Accounts request roots) (done : schedule.Done) {id : NodeId} {node : Node}
    (found : schedule.draft.tree.node? id = some node) (isPending : node.content = .pending) :
    schedule.draft.tree.isDiscarded id = true := by
  have nothing : schedule.pending = 0 := by
    simp [pending, unstarted, done.inFlight, done.waiting, done.next, done.batches]
  have valid := accounts.valid
  rw [nothing] at valid
  by_contra live
  rcases valid.covered found isPending (Bool.eq_false_iff.mpr live) with ⟨duty, impossible, _⟩
  cases impossible

end Schedule

namespace Request

variable {request : Request} {rootValue : FieldValue} {batches : List (List FieldTask)}
  {world : World σ} {last : Stage σ} {log : List Activity}

/-- A schedule that is over has found nothing on its way, and its tree is complete. -/
theorem Goes.complete (goes : request.Goes (.initial request rootValue batches world) log last)
    (divided : batches.flatten = (request.rootTasks rootValue).2) (isOver : last.Over) :
    (∀ activity ∈ log, activity.interruption? = none) ∧
      last.Complete (request.rootTasks rootValue).2 := by
  have observed := goes.observed rfl
  rw [isOver.phase] at observed
  have accounts := Schedules.accounts goes.schedules (Schedule.initial_accounts divided)
  exact ⟨observed, fun task isGiven => accounts.settled_of_done isOver.done isGiven,
    accounts.filled isOver.done⟩

end Request

end GraphQL
