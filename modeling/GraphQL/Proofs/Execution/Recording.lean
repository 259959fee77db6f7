import GraphQL.Proofs.Execution.Failures
import GraphQL.Proofs.Execution.Trace

/-!
Executions under observation. Every call of a listener, a resolver or a subscriber is noted beside
the state of the application, where the application cannot see it. An execution under observation
does what it does without, and the calls that it notes are those that its trace tells of.
-/

namespace GraphQL

variable {σ : Type}

/-! ## Notes -/

/-- The points at which listeners are told of a request. -/
inductive Hook where
  | beforeValidation
  | afterValidation
  | beforeExecution
  | afterExecution
deriving DecidableEq

/-- A call into the application: of a listener, by its place among them, or for a field. A resolver
that was suspended is called once more, to be woken. -/
inductive Call where
  | listener (hook : Hook) (place : Nat)
  | resolver (number : Nat) (path : Path)
  | wake (path : Path)
  | subscriber (number : Nat) (path : Path)
deriving DecidableEq

/-- The call is one of a resolver or subscriber. -/
def Call.isForField : Call → Bool
  | .listener _ _ => false
  | .resolver _ _ => true
  | .wake _ => true
  | .subscriber _ _ => true

namespace TraceEvent

/-- The call that is made into the application. -/
def call? : TraceEvent → Option Call
  | .start path (some number) => some (.resolver number path)
  | .answer path true => some (.wake path)
  | _ => none

def calls (trace : List TraceEvent) : List Call := trace.filterMap call?

@[simp] theorem calls_nil : calls [] = [] := rfl

@[simp] theorem calls_check (found : Option Interruption) (trace : List TraceEvent) :
    calls (.check found :: trace) = calls trace := rfl

private theorem calls_append (first second : List TraceEvent) :
    calls (first ++ second) = calls first ++ calls second := List.filterMap_append

end TraceEvent

namespace World

/-- The world with notes beside the state of the application. -/
def noting (world : World σ) (notes : List Call) : World (σ × List Call) where
  state := (world.state, notes)
  now := world.now
  signals := world.signals
  cancelAt := world.cancelAt
  extensions := world.extensions

/-- The world without its notes. -/
def bare (world : World (σ × List Call)) : World σ where
  state := world.state.1
  now := world.now
  signals := world.signals
  cancelAt := world.cancelAt
  extensions := world.extensions

def notes (world : World (σ × List Call)) : List Call := world.state.2

/-- Do something to the world by these calls. -/
def noted {α : Type} (calls : List Call) (act : World σ → α × World σ)
    (world : World (σ × List Call)) : α × World (σ × List Call) :=
  ((act world.bare).1, (act world.bare).2.noting (world.notes ++ calls))

/-- Do something to the world that does not call anything. -/
def unnoted {α : Type} (act : World σ → α × World σ) (world : World (σ × List Call)) :
    α × World (σ × List Call) :=
  ((act world.bare).1, (act world.bare).2.noting world.notes)

end World

/-! ## Applications under observation -/

def Reply.noted (path : Path) : Reply σ → Reply (σ × List Call)
  | .ready outcome => .ready outcome
  | .suspended delay wake => .suspended delay (World.noted [.wake path] wake)

def PendingEvent.noted (pending : PendingEvent σ) : PendingEvent (σ × List Call) :=
  ⟨pending.delay, World.unnoted pending.emit⟩

def EventSource.noted (source : EventSource σ) : EventSource (σ × List Call) :=
  fun number => (source number).map PendingEvent.noted

def sourceOutcome : Outcome (EventSource σ) → Outcome (EventSource (σ × List Call))
  | .value source => .value (EventSource.noted source)
  | .error error => .error error
  | .panic reason => .panic reason

def SubscriberReply.noted : SubscriberReply σ → SubscriberReply (σ × List Call)
  | .panic reason => .panic reason
  | .suspended delay wake =>
      .suspended delay fun world =>
        (sourceOutcome (World.unnoted wake world).1, (World.unnoted wake world).2)

/-- The application, with its calls noted. -/
def Application.noted (application : Application σ) : Application (σ × List Call) where
  resolve number invocation world :=
    let (reply, later) := application.resolve number invocation world.bare
    (reply.noted invocation.path,
      later.noting (world.notes ++ [.resolver number invocation.path]))
  subscribe number invocation world :=
    let (reply, later) := application.subscribe number invocation world.bare
    (reply.noted, later.noting (world.notes ++ [.subscriber number invocation.path]))

/-- The listener in its place, with its calls noted. -/
def Listener.noted (place : Nat) (listener : Listener σ) : Listener (σ × List Call) where
  beforeValidation document name world :=
    (listener.beforeValidation document name world.bare).noting
      (world.notes ++ [.listener .beforeValidation place])
  afterValidation check world :=
    (listener.afterValidation check world.bare).noting
      (world.notes ++ [.listener .afterValidation place])
  beforeExecution request world :=
    (listener.beforeExecution request world.bare).noting
      (world.notes ++ [.listener .beforeExecution place])
  afterExecution data errors world :=
    (listener.afterExecution data errors world.bare).noting
      (world.notes ++ [.listener .afterExecution place])

def Subscription.noted (subscription : Subscription σ) : Subscription (σ × List Call) where
  request := subscription.request
  application := subscription.application.noted
  source := EventSource.noted subscription.source
  position := subscription.position
  ended := subscription.ended

def ExecutionOutcome.noted : ExecutionOutcome σ → ExecutionOutcome (σ × List Call)
  | .failed error => .failed error
  | .panicked reason => .panicked reason
  | .completed result subscription => .completed result (subscription.map Subscription.noted)

namespace ExecutionOptions

/-- The options with all calls noted. -/
def noted (options : ExecutionOptions σ) : ExecutionOptions (σ × List Call) where
  schema := options.schema
  document := options.document
  operationName := options.operationName
  variableValues := options.variableValues
  rootValue := options.rootValue
  token := options.token
  maxParallelism := options.maxParallelism
  timeout := options.timeout
  throwOnUnhandled := options.throwOnUnhandled
  plan := options.plan
  listeners := options.listeners.mapIdx Listener.noted
  application := options.application.noted
  cyclicLevels := options.cyclicLevels

/-- All listeners are called in order. -/
def calls (options : ExecutionOptions σ) (hook : Hook) : List Call :=
  (List.range options.listeners.length).map (Call.listener hook)

end ExecutionOptions

/-! ## Levels under observation -/

namespace World

variable (world : World σ) (notes : List Call) (token : CancellationToken)

theorem check_noting : (world.noting notes).check token =
    ((world.check token).1, (world.check token).2.noting notes) := rfl

private theorem interrupted_noting : (world.noting notes).interrupted token =
    ((world.interrupted token).1, (world.interrupted token).2.noting notes) := rfl

private theorem waitUntil_noting (time : Nat) : (world.noting notes).waitUntil token time =
    ((world.waitUntil token time).1, (world.waitUntil token time).2.noting notes) := by
  have sameMoment : (world.noting notes).nextInterruption? token =
      world.nextInterruption? token := rfl
  rw [waitUntil, waitUntil, sameMoment]
  split
  · split <;> rfl
  · rfl

end World

def Run.noting (run : Run σ) (notes : List Call) : Run (σ × List Call) :=
  ⟨run.draft, run.world.noting notes⟩

namespace Request

private def Started.noted (path : Path) : Started σ → Started (σ × List Call)
  | .resolved resolution => .resolved resolution
  | .suspended delay wake => .suspended delay (World.noted [.wake path] wake)

private theorem invocation_path {request : Request} {path : Path} {call : FieldCall}
    {invocation : Invocation} (invoked : request.invocation path call = .ok invocation) :
    invocation.path = path := by
  rw [Request.invocation] at invoked
  cases coerced : request.registry.coerceArguments
      (((call.fields.head?).map Field.arguments).getD []) request.variableValues
      call.definition.arguments with
  | error error =>
      rw [coerced] at invoked
      cases invoked
  | ok arguments =>
      rw [coerced] at invoked
      cases invoked
      rfl

variable (request : Request) (application : Application σ)

private theorem start_noted (path : Path) (call : FieldCall) (world : World σ) (notes : List Call) :
    request.start application.noted path call (world.noting notes) =
      ((request.start application path call world).1.noted path,
        (request.start application path call world).2.noting
          (notes ++ TraceEvent.calls [.start path (request.resolver? path call)])) := by
  have kept : world.noting notes = world.noting (notes ++ []) := by rw [List.append_nil]
  rw [start, start, resolver?]
  split
  · exact congrArg (Prod.mk _) kept
  · cases invoked : request.invocation path call with
    | error error => exact congrArg (Prod.mk _) kept
    | ok invocation =>
        simp only
        cases call.definition.resolver with
        | none => exact congrArg (Prod.mk _) kept
        | some number =>
            have replied : application.noted.resolve number invocation (world.noting notes) =
                ((application.resolve number invocation world).1.noted invocation.path,
                  (application.resolve number invocation world).2.noting
                    (notes ++ [.resolver number invocation.path])) := rfl
            simp only [replied, invocation_path invoked]
            rcases application.resolve number invocation world with ⟨reply, later⟩
            cases reply <;> rfl

end Request

/-- The path of a task does not change while it is in flight. -/
private def InFlight.noted (tree : Tree) (flying : InFlight σ) : InFlight (σ × List Call) :=
  ⟨flying.task, flying.due, World.noted [.wake (tree.path flying.task.node)] flying.wake⟩

private theorem InFlight.takeFirst_noted (tree : Tree) (inFlight : List (InFlight σ)) :
    takeFirst (inFlight.map (InFlight.noted tree)) =
      (takeFirst inFlight).map fun taken =>
        (taken.1.noted tree, taken.2.map (InFlight.noted tree)) := by
  induction inFlight with
  | nil => rfl
  | cons head tail induction =>
      rw [List.map_cons, takeFirst, takeFirst, induction]
      cases takeFirst tail with
      | none => rfl
      | some taken =>
          rcases taken with ⟨first, others⟩
          simp only [Option.map_some]
          have sameDue : ((head.noted tree).due ≤ (first.noted tree).due) =
              (head.due ≤ first.due) := rfl
          simp only [sameDue]
          split <;> rfl

namespace Level

private def noted (tree : Tree) (level : Level σ) : Level (σ × List Call) :=
  ⟨level.waiting, level.inFlight.map (InFlight.noted tree), level.next⟩

private theorem noted_launch (tree : Tree) (level : Level σ) (flying : InFlight σ) :
    ({ level with inFlight := level.inFlight ++ [flying] } : Level σ).noted tree =
      { level.noted tree with inFlight := (level.noted tree).inFlight ++ [flying.noted tree] } := by
  rw [noted, List.map_append]
  rfl

private theorem noted_grown {before after : Tree} (growth : before.Extends after) {level : Level σ}
    (known : ∀ flying ∈ level.inFlight, ∃ node, before.node? flying.task.node = some node) :
    level.noted after = level.noted before := by
  have same : level.inFlight.map (InFlight.noted after) =
      level.inFlight.map (InFlight.noted before) := by
    refine List.map_congr_left fun flying member => ?_
    rcases known flying member with ⟨node, found⟩
    rw [InFlight.noted, InFlight.noted, growth.path_eq found]
  rw [noted, noted, same]

end Level

private def LevelStep.noted (tree : Tree) : LevelStep σ → LevelStep (σ × List Call)
  | .more level => .more (level.noted tree)
  | .done next => .done next
  | .stop abort => .stop abort

namespace Level

variable (request : Request) (application : Application σ)

/-- What a step of a level comes to, by the notes at its end. -/
abbrev stepped (step : Run σ × LevelStep σ) (notes : List Call) :
    Run (σ × List Call) × LevelStep (σ × List Call) :=
  (step.1.noting notes, step.2.noted step.1.draft.tree)

variable (run : Run σ) (level : Level σ) {rest : Multiset FieldTask}

private theorem finish_noted {task : FieldTask}
    (valid : (Outstanding.progress (run.draft, task ::ₘ level.tasks + rest)).Valid)
    (resolution : Resolution) (notes : List Call) :
    finish request (run.noting notes) (level.noted run.draft.tree) task resolution =
      stepped (finish request run level task resolution) notes := by
  have sameDraft : (run.noting notes).draft = run.draft := rfl
  rw [finish, finish, sameDraft]
  cases finished : request.finish task resolution run.draft with
  | error reason => rfl
  | ok expanded =>
      rcases expanded with ⟨draft, next⟩
      rw [Multiset.cons_add] at valid
      have finishes : request.Finishes Request.anyAnswer
          (run.draft, task ::ₘ (level.tasks + rest)) (draft, next + (level.tasks + rest)) :=
        .finish trivial finished
      have growth : run.draft.tree.Extends draft.tree :=
        Request.Steps.extends (finishes.steps valid) valid
      have known : ∀ flying ∈ level.inFlight,
          ∃ node, run.draft.tree.node? flying.task.node = some node := by
        intro flying member
        have isTask : flying.task ∈ task ::ₘ (level.tasks + rest) := by
          have listed := List.mem_map_of_mem (f := InFlight.task) member
          simp [Level.tasks, listed]
        rcases valid.pending (.resolve flying.task) (Multiset.mem_map_of_mem _ isTask) with
          ⟨node, found, _⟩
        exact ⟨node, found⟩
      have same : level.noted draft.tree = level.noted run.draft.tree := noted_grown growth known
      simp only [stepped, LevelStep.noted]
      rw [← same]
      rfl

private theorem dispatch_noted {task : FieldTask}
    (valid : (Outstanding.progress (run.draft, task ::ₘ level.tasks + rest)).Valid)
    (notes : List Call) :
    dispatch request application.noted (run.noting notes) (level.noted run.draft.tree) task =
      stepped (dispatch request application run level task)
        (notes ++ TraceEvent.calls (dispatchTrace request application run task)) := by
  have sameDraft : (run.noting notes).draft = run.draft := rfl
  have sameWorld : (run.noting notes).world = run.world.noting notes := rfl
  rw [dispatch, dispatch, dispatchTrace, sameDraft, sameWorld, World.check_noting]
  split
  · rw [TraceEvent.calls_nil, List.append_nil]
    rfl
  · rcases run.world.check request.token with ⟨_ | interruption, world⟩
    · simp only [Request.start_noted]
      rcases request.start application (run.draft.tree.path task.node) task.toFieldCall world with
        ⟨resolution | ⟨delay, wake⟩, later⟩
      · have called : TraceEvent.calls ([.check none, .start (run.draft.tree.path task.node)
            (request.resolver? (run.draft.tree.path task.node) task.toFieldCall)] ++
            [.answer (run.draft.tree.path task.node) false,
              .finish (run.draft.tree.path task.node)]) =
            TraceEvent.calls [.start (run.draft.tree.path task.node)
              (request.resolver? (run.draft.tree.path task.node) task.toFieldCall)] := by
          rw [TraceEvent.calls_append]
          exact List.append_nil _
        rw [called]
        exact finish_noted request ⟨run.draft, later⟩ level valid resolution _
      · simp only [stepped, LevelStep.noted, noted_launch]
        rfl
    · simp only [TraceEvent.calls_check, TraceEvent.calls_nil, List.append_nil]
      rfl

private theorem complete_noted {first : InFlight σ}
    (valid : (Outstanding.progress (run.draft, first.task ::ₘ level.tasks + rest)).Valid)
    (notes : List Call) :
    complete request (run.noting notes) (level.noted run.draft.tree)
        (first.noted run.draft.tree) =
      stepped (complete request run level first)
        (notes ++ TraceEvent.calls (completeTrace request run first)) := by
  have woken : (first.noted run.draft.tree).wake (run.noting notes).world =
      ((first.wake run.world).1, (first.wake run.world).2.noting
        (notes ++ [.wake (run.draft.tree.path first.task.node)])) := rfl
  rw [complete, complete, completeTrace, woken]
  rcases first.wake run.world with ⟨outcome, later⟩
  simp only [World.check_noting]
  rcases later.check request.token with ⟨_ | interruption, world⟩
  · exact finish_noted request ⟨run.draft, world⟩ level valid (.outcome outcome) _
  · rfl

private theorem await_noted (valid : (Outstanding.progress (run.draft, level.tasks + rest)).Valid)
    (notes : List Call) :
    await request (run.noting notes) (level.noted run.draft.tree) =
      stepped (await request run level)
        (notes ++ TraceEvent.calls (awaitTrace request run level)) := by
  have sameWorld : (run.noting notes).world = run.world.noting notes := rfl
  have sameFlight : (level.noted run.draft.tree).inFlight =
      level.inFlight.map (InFlight.noted run.draft.tree) := rfl
  rw [await, await, awaitTrace, sameWorld, sameFlight, World.interrupted_noting,
    InFlight.takeFirst_noted]
  rcases run.world.interrupted request.token with ⟨_ | interruption, world⟩
  · simp only
    cases taken : InFlight.takeFirst level.inFlight with
    | none =>
        simp only [TraceEvent.calls_check, TraceEvent.calls_nil, List.append_nil]
        rfl
    | some found =>
        rcases found with ⟨first, others⟩
        have sameDue : (first.noted run.draft.tree).due = first.due := rfl
        simp only [Option.map_some, sameDue, World.waitUntil_noting]
        rcases world.waitUntil request.token first.due with ⟨_ | interruption, later⟩
        · rw [tasks_of_taken taken] at valid
          exact complete_noted request ⟨run.draft, later⟩ { level with inFlight := others } valid
            notes
        · simp only [TraceEvent.calls_check, TraceEvent.calls_nil, List.append_nil]
          rfl
  · simp only [TraceEvent.calls_check, TraceEvent.calls_nil, List.append_nil]
    rfl

private theorem step_noted (valid : (Outstanding.progress (run.draft, level.tasks + rest)).Valid)
    (notes : List Call) :
    (level.noted run.draft.tree).step request application.noted (run.noting notes) =
      stepped (level.step request application run)
        (notes ++ TraceEvent.calls (level.stepTrace request application run)) := by
  have sameWaiting : (level.noted run.draft.tree).waiting = level.waiting := rfl
  have sameFlight : (level.noted run.draft.tree).inFlight.length = level.inFlight.length :=
    List.length_map _
  rw [step, step, stepTrace, sameWaiting, sameFlight]
  cases isWaiting : level.waiting with
  | nil => exact await_noted request run level valid notes
  | cons task waiting =>
      simp only
      split
      · rw [tasks_of_waiting isWaiting] at valid
        exact dispatch_noted request application run { level with waiting := waiting } valid notes
      · exact await_noted request run level valid notes

/-- What a run comes to, by the notes at its end. -/
abbrev ran {α : Type} (result : Run σ × α) (notes : List Call) : Run (σ × List Call) × α :=
  (result.1.noting notes, result.2)

@[simp] theorem notes_ran {α : Type} (result : Run σ × α) (notes : List Call) :
    (ran result notes).1.world.notes = notes := rfl

private theorem runSteps_noted (steps : Nat)
    (valid : (Outstanding.progress (run.draft, level.tasks + rest)).Valid) (notes : List Call) :
    (level.noted run.draft.tree).runSteps request application.noted steps (run.noting notes) =
      ran (level.runSteps request application steps run)
        (notes ++ TraceEvent.calls (level.runStepsTrace request application steps run)) := by
  induction steps generalizing run level notes with
  | zero =>
      rw [runStepsTrace, TraceEvent.calls_nil, List.append_nil]
      rfl
  | succ steps induction =>
      have stillValid := step_valid request application valid
      rw [runSteps, runSteps, runStepsTrace, step_noted request application run level valid]
      cases isStep : level.step request application run with
      | mk later outcome =>
          rw [isStep] at stillValid
          cases outcome with
          | more remaining =>
              rw [TraceEvent.calls_append, ← List.append_assoc]
              exact induction later remaining stillValid _
          | done next =>
              rw [List.append_nil]
              rfl
          | stop abort =>
              rw [List.append_nil]
              rfl

end Level

namespace Request

variable (request : Request) (application : Application σ) (run : Run σ)
  {rest : Multiset FieldTask}

private theorem level_noted {tasks : List FieldTask}
    (valid : (Outstanding.progress (run.draft, tasks + rest)).Valid) (notes : List Call) :
    Level.run request application.noted (run.noting notes) tasks =
      Level.ran (Level.run request application run tasks)
        (notes ++ TraceEvent.calls (Level.runTrace request application run tasks)) := by
  have sameTasks : ({ waiting := tasks } : Level σ).tasks = (tasks : Multiset FieldTask) := by
    simp [Level.tasks]
  exact Level.runSteps_noted request application run _ _ (sameTasks ▸ valid) notes

private theorem runLevels_noted (levels : Nat) {tasks : List FieldTask}
    (valid : (Outstanding.progress (run.draft, tasks + rest)).Valid) (notes : List Call) :
    request.runLevels application.noted levels (run.noting notes) tasks =
      Level.ran (request.runLevels application levels run tasks)
        (notes ++ TraceEvent.calls (request.levelsTrace application levels run tasks)) := by
  induction levels generalizing run tasks notes with
  | zero =>
      cases tasks <;>
        rw [runLevels, runLevels, levelsTrace, TraceEvent.calls_nil, List.append_nil]
  | succ levels induction =>
      cases tasks with
      | nil => rw [runLevels, runLevels, levelsTrace, TraceEvent.calls_nil, List.append_nil]
      | cons task tasks =>
          have level := Level.run_runs (Conditions.any_holds request application)
            (Depths.any request) trivial valid fun _ _ => trivial
          rw [runLevels, runLevels, levelsTrace, level_noted request application run valid]
          cases isLevel : Level.run request application run (task :: tasks) with
          | mk later result =>
              rw [isLevel] at level
              cases result with
              | error abort => rw [List.append_nil]
              | ok next =>
                  rw [TraceEvent.calls_append, ← List.append_assoc]
                  exact induction later (Steps.valid (level.1.steps valid) valid) _

private theorem runEach_noted {tasks : List FieldTask}
    (valid : (Outstanding.progress (run.draft, tasks + rest)).Valid) (notes : List Call) :
    request.runEach application.noted tasks (run.noting notes) =
      Level.ran (request.runEach application tasks run)
        (notes ++ TraceEvent.calls (request.eachTrace application tasks run)) := by
  induction tasks generalizing run notes with
  | nil => rw [runEach, runEach, eachTrace, TraceEvent.calls_nil, List.append_nil]
  | cons task tasks induction =>
      rw [split_cons, add_assoc] at valid
      have levels := runLevels_runs (Conditions.any_holds request application)
        (Layers.any request) request.depth run [task] trivial valid fun _ _ => trivial
      rw [runEach, runEach, eachTrace, runLevels_noted request application run request.depth valid]
      cases isRun : request.runLevels application request.depth run [task] with
      | mk later abort =>
          rw [isRun] at levels
          cases abort with
          | some abort => rw [List.append_nil]
          | none =>
              rw [TraceEvent.calls_append, ← List.append_assoc]
              exact induction later (Steps.valid (levels.1.steps valid) valid) _

private theorem dataOf_noting (result : Run σ × Option Abort) (notes : List Call) :
    dataOf (Level.ran result notes) = Level.ran (dataOf result) notes := by
  rcases result with ⟨run, _ | abort⟩ <;> rfl

/-- The calls of a level-by-level execution are those that its trace tells of. -/
theorem executeParallel_noted (rootValue : FieldValue) (world : World σ) (notes : List Call) :
    request.executeParallel application.noted rootValue (world.noting notes) =
      Level.ran (request.executeParallel application rootValue world)
        (notes ++ TraceEvent.calls (request.parallelTrace application rootValue world)) := by
  have valid := request.initial_valid rootValue
  rw [initial, ← add_zero ((request.rootTasks rootValue).2 : Multiset FieldTask)] at valid
  exact (congrArg dataOf (runLevels_noted request application
    ⟨(request.rootTasks rootValue).1, world⟩ request.depth valid notes)).trans
      (dataOf_noting _ _)

/-- The calls of a serial execution are those that its trace tells of. -/
theorem executeSerial_noted (rootValue : FieldValue) (world : World σ) (notes : List Call) :
    request.executeSerial application.noted rootValue (world.noting notes) =
      Level.ran (request.executeSerial application rootValue world)
        (notes ++ TraceEvent.calls (request.serialTrace application rootValue world)) := by
  have valid := request.initial_valid rootValue
  rw [initial, ← add_zero ((request.rootTasks rootValue).2 : Multiset FieldTask)] at valid
  exact (congrArg dataOf (runEach_noted request application
    ⟨(request.rootTasks rootValue).1, world⟩ valid notes)).trans (dataOf_noting _ _)

/-! ## Sources under observation -/

/-- What opening a source comes to, by the notes at its end. -/
abbrev opened (result : World σ × Except Abort (Except ResponseError (EventSource σ)))
    (notes : List Call) :
    World (σ × List Call) × Except Abort (Except ResponseError (EventSource (σ × List Call))) :=
  (result.1.noting notes, result.2.map fun outcome => outcome.map EventSource.noted)

/-- The call of a subscriber, if the field has one and its arguments are taken. -/
private def sourceCalls (request : Request) (rootValue : FieldValue) : List Call :=
  match request.rootTasks rootValue with
  | (_, []) => []
  | (draft, task :: _) =>
      let path := draft.tree.path task.node
      match task.definition.subscriber, request.invocation path task.toFieldCall with
      | some number, .ok _ => [.subscriber number path]
      | _, _ => []

private theorem openSource_noted (rootValue : FieldValue) (world : World σ) (notes : List Call) :
    request.openSource application.noted rootValue (world.noting notes) =
      opened (request.openSource application rootValue world)
        (notes ++ request.sourceCalls rootValue) := by
  rw [openSource, openSource, sourceCalls]
  rcases request.rootTasks rootValue with ⟨draft, _ | ⟨task, tasks⟩⟩
  · simp only [List.append_nil]
    rfl
  · simp only
    cases task.definition.subscriber with
    | none =>
        simp only [List.append_nil]
        rfl
    | some number =>
        simp only
        cases invoked : request.invocation (draft.tree.path task.node) task.toFieldCall with
        | error error =>
            simp only [List.append_nil]
            rfl
        | ok invocation =>
            have replied : application.noted.subscribe number invocation (world.noting notes) =
                ((application.subscribe number invocation world).1.noted,
                  (application.subscribe number invocation world).2.noting
                    (notes ++ [.subscriber number invocation.path])) := rfl
            simp only [replied, invocation_path invoked]
            generalize notes ++ [Call.subscriber number (draft.tree.path task.node)] = called
            rcases application.subscribe number invocation world with
              ⟨reason | ⟨delay, wake⟩, later⟩
            · rfl
            · simp only [SubscriberReply.noted, World.interrupted_noting]
              rcases later.interrupted request.token with ⟨_ | interruption, asked⟩
              · simp only [World.waitUntil_noting]
                have sameNow : (asked.noting called).now = asked.now := rfl
                rw [sameNow]
                rcases asked.waitUntil request.token (asked.now + delay) with
                  ⟨_ | interruption, due⟩
                · have woken : World.unnoted wake (due.noting called) =
                      ((wake due).1, (wake due).2.noting called) := rfl
                  simp only [woken]
                  rcases wake due with ⟨source | error | reason, last⟩ <;> rfl
                · rfl
              · rfl

/-- What an execution comes to, by the notes at its end. -/
abbrev executed (result : Run σ × Except Abort (ExecutionResult × Option (Subscription σ)))
    (notes : List Call) :
    Run (σ × List Call) ×
      Except Abort (ExecutionResult × Option (Subscription (σ × List Call))) :=
  (result.1.noting notes,
    result.2.map fun outcome => (outcome.1, outcome.2.map Subscription.noted))

/-- The calls that an execution makes for fields. -/
def fieldCalls (request : Request) (application : Application σ) (rootValue : FieldValue)
    (world : World σ) : List Call :=
  match request.operation.kind.strategy with
  | .parallel => TraceEvent.calls (request.parallelTrace application rootValue world)
  | .serial => TraceEvent.calls (request.serialTrace application rootValue world)
  | .streaming => request.sourceCalls rootValue

theorem fieldCalls_of_trace (served : request.operation.kind ≠ .subscription)
    (rootValue : FieldValue) (world : World σ) :
    request.fieldCalls application rootValue world =
      TraceEvent.calls (request.trace application rootValue world) := by
  rw [fieldCalls, trace]
  cases kind : request.operation.kind with
  | query => rfl
  | mutation => rfl
  | subscription => exact absurd kind served

private theorem execute_noted (rootValue : FieldValue) (world : World σ) (notes : List Call) :
    request.execute application.noted rootValue (world.noting notes) =
      executed (request.execute application rootValue world)
        (notes ++ request.fieldCalls application rootValue world) := by
  rw [execute, execute, fieldCalls]
  cases request.operation.kind.strategy with
  | parallel =>
      simp only [request.executeParallel_noted application rootValue world notes]
      rcases request.executeParallel application rootValue world with ⟨run, abort | data⟩ <;> rfl
  | serial =>
      simp only [request.executeSerial_noted application rootValue world notes]
      rcases request.executeSerial application rootValue world with ⟨run, abort | data⟩ <;> rfl
  | streaming =>
      simp only [request.openSource_noted application rootValue world notes]
      rcases request.openSource application rootValue world with
        ⟨later, abort | error | source⟩ <;> rfl

end Request

/-! ## Requests under observation -/

/-- Tell listeners of something, each in its place. -/
private theorem foldl_noted {hook : Hook} {tell : Listener σ → World σ → World σ}
    {tellNoted : Listener (σ × List Call) → World (σ × List Call) → World (σ × List Call)}
    (tells : ∀ place listener (world : World (σ × List Call)),
      tellNoted (Listener.noted place listener) world =
        (tell listener world.bare).noting (world.notes ++ [.listener hook place]))
    (listeners : List (Listener σ)) (first : Nat) (world : World σ) (notes : List Call) :
    (listeners.mapIdx fun index => Listener.noted (first + index)).foldl
        (fun world listener => tellNoted listener world) (world.noting notes) =
      (listeners.foldl (fun world listener => tell listener world) world).noting
        (notes ++ (List.range' first listeners.length).map (Call.listener hook)) := by
  induction listeners generalizing first world notes with
  | nil =>
      rw [List.length_nil, List.range'_zero, List.map_nil, List.append_nil]
      rfl
  | cons listener listeners induction =>
      have rest := induction (first + 1) (tell listener world)
        (notes ++ [.listener hook first])
      simp only [Nat.add_assoc, Nat.add_comm 1] at rest
      rw [List.append_assoc, List.singleton_append] at rest
      rw [List.mapIdx_cons, List.foldl_cons, Nat.add_zero, tells, List.length_cons,
        List.range'_succ, List.map_cons]
      exact rest

namespace ExecutionOptions

variable (options : ExecutionOptions σ)

private theorem notify_noted {hook : Hook} {tell : Listener σ → World σ → World σ}
    {tellNoted : Listener (σ × List Call) → World (σ × List Call) → World (σ × List Call)}
    (tells : ∀ place listener (world : World (σ × List Call)),
      tellNoted (Listener.noted place listener) world =
        (tell listener world.bare).noting (world.notes ++ [.listener hook place]))
    (world : World σ) (notes : List Call) :
    options.noted.notify tellNoted (world.noting notes) =
      (options.notify tell world).noting (notes ++ options.calls hook) := by
  have told := foldl_noted tells options.listeners 0 world notes
  simp only [Nat.zero_add, ← List.range_eq_range'] at told
  exact told

/-- The outcome of a request with the notes at its end. -/
abbrev concluded (result : ExecutionOutcome σ × World σ) (notes : List Call) :
    ExecutionOutcome (σ × List Call) × World (σ × List Call) :=
  (result.1.noted, result.2.noting notes)

@[simp] theorem notes_concluded (result : ExecutionOutcome σ × World σ) (notes : List Call) :
    (concluded result notes).2.notes = notes := rfl

private theorem conclude_noted (run : Run σ) (result : ExecutionResult)
    (subscription : Option (Subscription σ)) (notes : List Call) :
    options.noted.conclude (run.noting notes) result (subscription.map Subscription.noted) =
      concluded (options.conclude run result subscription)
        (notes ++ options.calls .afterExecution) := by
  let final := result.extend run.draft.errors run.world.extensions
  have told : options.noted.notify (·.afterExecution final.data final.errors)
      (World.noting { run.world with extensions := [] } notes) =
        (options.notify (·.afterExecution final.data final.errors)
          { run.world with extensions := [] }).noting
            (notes ++ options.calls .afterExecution) :=
    options.notify_noted (fun _ _ _ => rfl) _ notes
  exact congrArg (Prod.mk _) told

/-- The calls after an execution: of all listeners once more, if there is a result. -/
def lastCalls (options : ExecutionOptions σ) : ExecutionOutcome σ → List Call
  | .completed _ _ => options.calls .afterExecution
  | _ => []

/-- The world that execution starts in. -/
def ready (options : ExecutionOptions σ) (request : Request) (world : World σ) : World σ :=
  options.notify (·.beforeExecution request) { world with extensions := [] }

theorem executeChecked_noted (request : Request) (world : World σ) (notes : List Call) :
    options.noted.executeChecked request (world.noting notes) =
      concluded (options.executeChecked request world)
        (notes ++ options.calls .beforeExecution ++
          request.fieldCalls options.application options.rootValue (options.ready request world) ++
          options.lastCalls (options.executeChecked request world).1) := by
  have told : options.noted.ready request (world.noting notes) =
      (options.ready request world).noting (notes ++ options.calls .beforeExecution) :=
    options.notify_noted (fun _ _ _ => rfl) { world with extensions := [] } notes
  have isRun := request.execute_noted options.application options.rootValue
    (options.ready request world) (notes ++ options.calls .beforeExecution)
  have sameApplication : options.noted.application = options.application.noted := rfl
  have sameRoot : options.noted.rootValue = options.rootValue := rfl
  rw [executeChecked, executeChecked, ← ready, ← ready, told, sameApplication, sameRoot]
  simp only [isRun]
  rcases request.execute options.application options.rootValue (options.ready request world) with
    ⟨run, (interruption | reason | _) | ⟨result, subscription⟩⟩
  · simp only [lastCalls, List.append_nil]
    rfl
  · have sameThrow : options.noted.throwOnUnhandled = options.throwOnUnhandled := rfl
    simp only [Request.executed, Except.map, sameThrow]
    by_cases throws : options.throwOnUnhandled = true
    · simp only [if_pos throws, lastCalls, List.append_nil]
      rfl
    · simp only [if_neg throws]
      exact options.conclude_noted run _ none _
  · simp only [lastCalls, List.append_nil]
    rfl
  · exact options.conclude_noted run result subscription _

/-- The calls in the check of an operation. -/
def checkCalls (options : ExecutionOptions σ) : List Call :=
  options.calls .beforeValidation ++ options.calls .afterValidation

/-- The world after the check of an operation. -/
def checkWorld (options : ExecutionOptions σ) (document : Document) (check : RequestCheck)
    (world : World σ) : World σ :=
  options.notify (·.afterValidation check)
    (options.notify (·.beforeValidation document options.operationName) world)

end ExecutionOptions

end GraphQL
