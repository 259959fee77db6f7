import GraphQL.Execution.Field

/-!
Running the fields of one depth. Tasks are started in order, as long as no more resolvers are in
flight than the request allows; one that answers at once is finished at once. Else the engine waits
for a suspended resolver. A level ends when nothing waits and nothing is in flight, and leaves the
tasks of the next level.
-/

namespace GraphQL

inductive Abort where
  | interrupted (interruption : Interruption)
  /-- A panic that is passed on to the caller of the engine. -/
  | panicked (reason : Option String)
  /-- Fields were nested deeper than the request allows. -/
  | tooDeep
deriving DecidableEq

structure InFlight (σ : Type) where
  task : FieldTask
  /-- When it will answer. -/
  due : Nat
  wake : World σ → Outcome FieldValue × World σ

namespace InFlight

variable {σ : Type}

/-- The first resolver to answer, and the others. Of those due at one time it is the one that was
started first. -/
def takeFirst : List (InFlight σ) → Option (InFlight σ × List (InFlight σ))
  | [] => none
  | head :: tail =>
      match takeFirst tail with
      | none => some (head, [])
      | some (first, others) =>
          if head.due ≤ first.due then some (head, tail) else some (first, head :: others)

end InFlight

/-- The tasks of one depth: those that wait, those in flight in the order they were started, and the
tasks of the next depth. -/
structure Level (σ : Type) where
  waiting : List FieldTask
  inFlight : List (InFlight σ) := []
  next : List FieldTask := []

structure Run (σ : Type) where
  draft : Draft := {}
  world : World σ

inductive LevelStep (σ : Type) where
  | more (level : Level σ)
  | done (next : List FieldTask)
  | stop (abort : Abort)

namespace Level

variable {σ : Type}

/-- An upper bound on the steps that a level takes: each task is started and awaited at most
once. -/
def steps (level : Level σ) : Nat := 2 * level.waiting.length + level.inFlight.length + 1

def finish (request : Request) (run : Run σ) (level : Level σ) (task : FieldTask)
    (resolution : Resolution) : Run σ × LevelStep σ :=
  match request.finish task resolution run.draft with
  | .error reason => (run, .stop (.panicked reason))
  | .ok (draft, tasks) =>
      ({ run with draft := draft }, .more { level with next := level.next ++ tasks })

def dispatch (request : Request) (application : Application σ) (run : Run σ) (level : Level σ)
    (task : FieldTask) : Run σ × LevelStep σ :=
  if run.draft.tree.isDiscarded task.node then (run, .more level)
  else
    match run.world.check request.token with
    | (some interruption, world) => ({ run with world := world }, .stop (.interrupted interruption))
    | (none, world) =>
        match request.start application (run.draft.tree.path task.node) task.toFieldCall world with
        | (.resolved resolution, world) =>
            finish request { run with world := world } level task resolution
        | (.suspended delay wake, world) =>
            ({ run with world := world },
              .more { level with inFlight := level.inFlight ++ [⟨task, world.now + delay, wake⟩] })

def complete (request : Request) (run : Run σ) (level : Level σ) (first : InFlight σ) :
    Run σ × LevelStep σ :=
  let (outcome, world) := first.wake run.world
  match world.check request.token with
  | (some interruption, world) => ({ run with world := world }, .stop (.interrupted interruption))
  | (none, world) =>
      finish request { run with world := world } level first.task (.outcome outcome)

/-- Wait for the first resolver in flight. With none in flight the level is done. An interruption
ends any wait, also this last one. -/
def await (request : Request) (run : Run σ) (level : Level σ) : Run σ × LevelStep σ :=
  match run.world.interrupted request.token with
  | (some interruption, world) => ({ run with world := world }, .stop (.interrupted interruption))
  | (none, world) =>
      match InFlight.takeFirst level.inFlight with
      | none => ({ run with world := world }, .done level.next)
      | some (first, others) =>
          match world.waitUntil request.token first.due with
          | (some interruption, world) =>
              ({ run with world := world }, .stop (.interrupted interruption))
          | (none, world) =>
              complete request { run with world := world } { level with inFlight := others } first

def step (request : Request) (application : Application σ) (run : Run σ) (level : Level σ) :
    Run σ × LevelStep σ :=
  match level.waiting with
  | task :: waiting =>
      if level.inFlight.length < request.inFlightBound then
        dispatch request application run { level with waiting := waiting } task
      else await request run level
  | [] => await request run level

def runSteps (request : Request) (application : Application σ) :
    (steps : Nat) → Run σ → Level σ → Run σ × Except Abort (List FieldTask)
  | 0, run, _ => (run, .error .tooDeep)
  | steps + 1, run, level =>
      match level.step request application run with
      | (run, .more level) => runSteps request application steps run level
      | (run, .done next) => (run, .ok next)
      | (run, .stop abort) => (run, .error abort)

def run (request : Request) (application : Application σ) (run : Run σ) (tasks : List FieldTask) :
    Run σ × Except Abort (List FieldTask) :=
  let level : Level σ := { waiting := tasks }
  level.runSteps request application level.steps run

end Level

namespace Request

variable {σ : Type}

def runLevels (request : Request) (application : Application σ) :
    (levels : Nat) → Run σ → List FieldTask → Run σ × Option Abort
  | _, run, [] => (run, none)
  | 0, run, _ :: _ => (run, some .tooDeep)
  | levels + 1, run, task :: tasks =>
      match Level.run request application run (task :: tasks) with
      | (run, .ok next) => request.runLevels application levels run next
      | (run, .error abort) => (run, some abort)

def runEach (request : Request) (application : Application σ) :
    List FieldTask → Run σ → Run σ × Option Abort
  | [], run => (run, none)
  | task :: tasks, run =>
      match request.runLevels application request.depth run [task] with
      | (run, none) => request.runEach application tasks run
      | (run, some abort) => (run, some abort)

def dataOf (result : Run σ × Option Abort) : Run σ × Except Abort Json :=
  match result with
  | (run, none) => (run, .ok run.draft.tree.data)
  | (run, some abort) => (run, .error abort)

def executeParallel (request : Request) (application : Application σ) (rootValue : FieldValue)
    (world : World σ) : Run σ × Except Abort Json :=
  let (draft, tasks) := request.rootTasks rootValue
  dataOf (request.runLevels application request.depth ⟨draft, world⟩ tasks)

def executeSerial (request : Request) (application : Application σ) (rootValue : FieldValue)
    (world : World σ) : Run σ × Except Abort Json :=
  let (draft, tasks) := request.rootTasks rootValue
  dataOf (request.runEach application tasks ⟨draft, world⟩)

end Request

end GraphQL
