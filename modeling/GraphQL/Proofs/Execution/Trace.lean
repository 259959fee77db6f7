import GraphQL.Execution.Engine

/-!
Traces of executions: every check of the token, every field that is started, answered and finished,
in the order in which this happens. Logs of an execution show some part of its trace.
-/

namespace GraphQL

variable {σ : Type}

inductive TraceEvent where
  /-- The token is checked, or waited for. -/
  | check (found : Option Interruption)
  /-- A field is started, by calling the resolver if it takes one. -/
  | start (path : Path) (resolver : Option Nat)
  /-- A field is answered, by waking its resolver if that was suspended. -/
  | answer (path : Path) (suspended : Bool)
  /-- The answer is taken in. -/
  | finish (path : Path)
deriving DecidableEq

/-- The resolver that is called to start a field: none for introspection, nor where the arguments
are refused. -/
def Request.resolver? (request : Request) (path : Path) (call : FieldCall) : Option Nat :=
  if call.isMeta then none
  else
    match request.invocation path call with
    | .error _ => none
    | .ok _ => call.definition.resolver

namespace Level

def dispatchTrace (request : Request) (application : Application σ) (run : Run σ)
    (task : FieldTask) : List TraceEvent :=
  let path := run.draft.tree.path task.node
  if run.draft.tree.isDiscarded task.node then []
  else
    match run.world.check request.token with
    | (some interruption, _) => [.check (some interruption)]
    | (none, world) =>
        let started := [.check none, .start path (request.resolver? path task.toFieldCall)]
        match request.start application path task.toFieldCall world with
        | (.resolved _, _) => started ++ [.answer path false, .finish path]
        | (.suspended _ _, _) => started

def completeTrace (request : Request) (run : Run σ) (first : InFlight σ) : List TraceEvent :=
  let path := run.draft.tree.path first.task.node
  match (first.wake run.world).2.check request.token with
  | (some interruption, _) => [.answer path true, .check (some interruption)]
  | (none, _) => [.answer path true, .check none, .finish path]

def awaitTrace (request : Request) (run : Run σ) (level : Level σ) : List TraceEvent :=
  match run.world.interrupted request.token with
  | (some interruption, _) => [.check (some interruption)]
  | (none, world) =>
      match InFlight.takeFirst level.inFlight with
      | none => [.check none]
      | some (first, _) =>
          match world.waitUntil request.token first.due with
          | (some interruption, _) => [.check none, .check (some interruption)]
          | (none, world) =>
              [.check none, .check none] ++
                completeTrace request { run with world := world } first

def stepTrace (request : Request) (application : Application σ) (run : Run σ) (level : Level σ) :
    List TraceEvent :=
  match level.waiting with
  | task :: _ =>
      if level.inFlight.length < request.inFlightBound then
        dispatchTrace request application run task
      else awaitTrace request run level
  | [] => awaitTrace request run level

def runStepsTrace (request : Request) (application : Application σ) :
    (steps : Nat) → Run σ → Level σ → List TraceEvent
  | 0, _, _ => []
  | steps + 1, run, level =>
      level.stepTrace request application run ++
        match level.step request application run with
        | (run, .more level) => runStepsTrace request application steps run level
        | (_, .done _) => []
        | (_, .stop _) => []

def runTrace (request : Request) (application : Application σ) (run : Run σ)
    (tasks : List FieldTask) : List TraceEvent :=
  let level : Level σ := { waiting := tasks }
  level.runStepsTrace request application level.steps run

end Level

namespace Request

def levelsTrace (request : Request) (application : Application σ) :
    (levels : Nat) → Run σ → List FieldTask → List TraceEvent
  | _, _, [] => []
  | 0, _, _ :: _ => []
  | levels + 1, run, task :: tasks =>
      Level.runTrace request application run (task :: tasks) ++
        match Level.run request application run (task :: tasks) with
        | (run, .ok next) => request.levelsTrace application levels run next
        | (_, .error _) => []

def eachTrace (request : Request) (application : Application σ) :
    List FieldTask → Run σ → List TraceEvent
  | [], _ => []
  | task :: tasks, run =>
      request.levelsTrace application request.depth run [task] ++
        match request.runLevels application request.depth run [task] with
        | (run, none) => request.eachTrace application tasks run
        | (_, some _) => []

/-- The trace of an execution level by level. -/
def parallelTrace (request : Request) (application : Application σ) (rootValue : FieldValue)
    (world : World σ) : List TraceEvent :=
  request.levelsTrace application request.depth ⟨(request.rootTasks rootValue).1, world⟩
    (request.rootTasks rootValue).2

/-- The trace of an execution of one top-level field after another. -/
def serialTrace (request : Request) (application : Application σ) (rootValue : FieldValue)
    (world : World σ) : List TraceEvent :=
  request.eachTrace application (request.rootTasks rootValue).2
    ⟨(request.rootTasks rootValue).1, world⟩

/-- The trace of an execution by the strategy of the operation. -/
def trace (request : Request) (application : Application σ) (rootValue : FieldValue)
    (world : World σ) : List TraceEvent :=
  match request.operation.kind.strategy with
  | .parallel => request.parallelTrace application rootValue world
  | .serial => request.serialTrace application rootValue world
  | .streaming => []

end Request

/-! ## Views of traces -/

variable {α : Type} (view : TraceEvent → Option α) {request : Request}
  {application : Application σ}

theorem Level.view_dispatchTrace (run : Run σ) (task : FieldTask) :
    (dispatchTrace request application run task).filterMap view =
      if run.draft.tree.isDiscarded task.node then []
      else
        match run.world.check request.token with
        | (some interruption, _) => [.check (some interruption)].filterMap view
        | (none, world) =>
            let path := run.draft.tree.path task.node
            let resolver := request.resolver? path task.toFieldCall
            match request.start application path task.toFieldCall world with
            | (.resolved _, _) =>
                [.check none, .start path resolver, .answer path false, .finish path].filterMap view
            | (.suspended _ _, _) => [.check none, .start path resolver].filterMap view := by
  rw [dispatchTrace]
  split
  · rfl
  · rcases run.world.check request.token with ⟨_ | interruption, world⟩
    · simp only
      rcases request.start application (run.draft.tree.path task.node) task.toFieldCall world with
        ⟨resolution | ⟨delay, wake⟩, later⟩ <;> rfl
    · rfl

theorem Level.view_awaitTrace (run : Run σ) (level : Level σ) :
    (awaitTrace request run level).filterMap view =
      match run.world.interrupted request.token with
      | (some interruption, _) => [.check (some interruption)].filterMap view
      | (none, world) =>
          match InFlight.takeFirst level.inFlight with
          | none => [.check none].filterMap view
          | some (first, _) =>
              match world.waitUntil request.token first.due with
              | (some interruption, _) => [.check none, .check (some interruption)].filterMap view
              | (none, world) =>
                  [.check none, .check none].filterMap view ++
                    (completeTrace request { run with world := world } first).filterMap view := by
  rw [awaitTrace]
  rcases run.world.interrupted request.token with ⟨_ | interruption, world⟩
  · simp only
    rcases InFlight.takeFirst level.inFlight with _ | ⟨first, others⟩
    · rfl
    · simp only
      rcases world.waitUntil request.token first.due with ⟨_ | interruption, later⟩
      · exact List.filterMap_append
      · rfl
  · rfl

theorem Level.view_stepTrace (run : Run σ) (level : Level σ) :
    (level.stepTrace request application run).filterMap view =
      match level.waiting with
      | task :: _ =>
          if level.inFlight.length < request.inFlightBound then
            (dispatchTrace request application run task).filterMap view
          else (awaitTrace request run level).filterMap view
      | [] => (awaitTrace request run level).filterMap view := by
  rw [stepTrace]
  rcases level.waiting with _ | ⟨task, waiting⟩
  · rfl
  · exact apply_ite (List.filterMap view) _ _ _

theorem Level.view_runStepsTrace (steps : Nat) (run : Run σ) (level : Level σ) :
    (level.runStepsTrace request application (steps + 1) run).filterMap view =
      (level.stepTrace request application run).filterMap view ++
        match level.step request application run with
        | (run, .more level) =>
            (level.runStepsTrace request application steps run).filterMap view
        | (_, .done _) => []
        | (_, .stop _) => [] := by
  rw [runStepsTrace, List.filterMap_append]
  rcases level.step request application run with ⟨later, remaining | next | abort⟩ <;> rfl

theorem Request.view_levelsTrace (levels : Nat) (run : Run σ) (task : FieldTask)
    (tasks : List FieldTask) :
    (request.levelsTrace application (levels + 1) run (task :: tasks)).filterMap view =
      (Level.runTrace request application run (task :: tasks)).filterMap view ++
        match Level.run request application run (task :: tasks) with
        | (run, .ok next) => (request.levelsTrace application levels run next).filterMap view
        | (_, .error _) => [] := by
  rw [levelsTrace, List.filterMap_append]
  rcases Level.run request application run (task :: tasks) with ⟨later, abort | next⟩ <;> rfl

theorem Request.view_eachTrace (task : FieldTask) (tasks : List FieldTask) (run : Run σ) :
    (request.eachTrace application (task :: tasks) run).filterMap view =
      (request.levelsTrace application request.depth run [task]).filterMap view ++
        match request.runLevels application request.depth run [task] with
        | (run, none) => (request.eachTrace application tasks run).filterMap view
        | (_, some _) => [] := by
  rw [eachTrace, List.filterMap_append]
  rcases request.runLevels application request.depth run [task] with ⟨later, _ | abort⟩ <;> rfl

end GraphQL
