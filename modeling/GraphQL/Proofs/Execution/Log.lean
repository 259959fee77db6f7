import GraphQL.Proofs.Execution.Subtree
import GraphQL.Proofs.Execution.Trace

/-!
Logs of executions: when the resolvers of fields are started, and when they answer. All that happens
to the tasks of a level, and under them, stays in their scope.
-/

namespace GraphQL

variable {σ : Type}

/-- What happens to the resolver of a field. -/
inductive Occurrence where
  | start (path : Path)
  | completion (path : Path)
deriving DecidableEq

namespace Occurrence

/-- Where the field stands in the response. -/
def path : Occurrence → Path
  | .start path => path
  | .completion path => path

private def isStart : Occurrence → Bool
  | .start _ => true
  | .completion _ => false

/-- The field is in the scope, with a path of at least some length. -/
def Under (scope : Path) (least : Nat) (occurrence : Occurrence) : Prop :=
  scope <+: occurrence.path ∧ least ≤ occurrence.path.length

end Occurrence

/-! ## Logs -/

/-- Logs tell of starts, and of the moments at which it is known how a field is resolved. -/
def TraceEvent.occurrence? : TraceEvent → Option Occurrence
  | .check _ => none
  | .start path _ => some (.start path)
  | .answer path _ => some (.completion path)
  | .finish _ => none

namespace Level

def dispatchLog (request : Request) (application : Application σ) (run : Run σ)
    (task : FieldTask) : List Occurrence :=
  (dispatchTrace request application run task).filterMap TraceEvent.occurrence?

def awaitLog (request : Request) (run : Run σ) (level : Level σ) : List Occurrence :=
  (awaitTrace request run level).filterMap TraceEvent.occurrence?

def stepLog (request : Request) (application : Application σ) (run : Run σ) (level : Level σ) :
    List Occurrence :=
  (level.stepTrace request application run).filterMap TraceEvent.occurrence?

/-- What happens in the steps of a level. -/
def runStepsLog (request : Request) (application : Application σ) (steps : Nat) (run : Run σ)
    (level : Level σ) : List Occurrence :=
  (level.runStepsTrace request application steps run).filterMap TraceEvent.occurrence?

def runLog (request : Request) (application : Application σ) (run : Run σ)
    (tasks : List FieldTask) : List Occurrence :=
  (runTrace request application run tasks).filterMap TraceEvent.occurrence?

end Level

namespace Request

/-- What happens to tasks and to everything under them. -/
def levelsLog (request : Request) (application : Application σ) (levels : Nat) (run : Run σ)
    (tasks : List FieldTask) : List Occurrence :=
  (request.levelsTrace application levels run tasks).filterMap TraceEvent.occurrence?

/-- What happens to top-level tasks that are run one after another. -/
def eachLog (request : Request) (application : Application σ) (tasks : List FieldTask)
    (run : Run σ) : List Occurrence :=
  (request.eachTrace application tasks run).filterMap TraceEvent.occurrence?

/-- What happens in a serial execution. -/
def serialLog (request : Request) (application : Application σ) (rootValue : FieldValue)
    (world : World σ) : List Occurrence :=
  (request.serialTrace application rootValue world).filterMap TraceEvent.occurrence?

end Request

section

variable (request : Request) (application : Application σ)

namespace Level

theorem dispatchLog_eq (run : Run σ) (task : FieldTask) :
    dispatchLog request application run task =
      if run.draft.tree.isDiscarded task.node then []
      else
        match run.world.check request.token with
        | (some _, _) => []
        | (none, world) =>
            match request.start application (run.draft.tree.path task.node) task.toFieldCall
                world with
            | (.resolved _, _) =>
                [.start (run.draft.tree.path task.node),
                  .completion (run.draft.tree.path task.node)]
            | (.suspended _ _, _) => [.start (run.draft.tree.path task.node)] :=
  view_dispatchTrace TraceEvent.occurrence? run task

private theorem completeTrace_occurrences (run : Run σ) (first : InFlight σ) :
    (completeTrace request run first).filterMap TraceEvent.occurrence? =
      [.completion (run.draft.tree.path first.task.node)] := by
  rw [completeTrace]
  rcases (first.wake run.world).2.check request.token with ⟨_ | interruption, world⟩ <;> rfl

theorem awaitLog_eq (run : Run σ) (level : Level σ) :
    awaitLog request run level =
      match run.world.interrupted request.token with
      | (some _, _) => []
      | (none, world) =>
          match InFlight.takeFirst level.inFlight with
          | none => []
          | some (first, _) =>
              match world.waitUntil request.token first.due with
              | (some _, _) => []
              | (none, _) => [.completion (run.draft.tree.path first.task.node)] := by
  rw [awaitLog, view_awaitTrace]
  simp only [completeTrace_occurrences]
  rfl

theorem stepLog_eq (run : Run σ) (level : Level σ) :
    level.stepLog request application run =
      match level.waiting with
      | task :: _ =>
          if level.inFlight.length < request.inFlightBound then
            dispatchLog request application run task
          else awaitLog request run level
      | [] => awaitLog request run level :=
  view_stepTrace TraceEvent.occurrence? run level

theorem runStepsLog_succ (steps : Nat) (run : Run σ) (level : Level σ) :
    level.runStepsLog request application (steps + 1) run =
      level.stepLog request application run ++
        match level.step request application run with
        | (run, .more level) => level.runStepsLog request application steps run
        | (_, .done _) => []
        | (_, .stop _) => [] :=
  view_runStepsTrace TraceEvent.occurrence? steps run level

end Level

namespace Request

theorem levelsLog_succ (levels : Nat) (run : Run σ) (task : FieldTask) (tasks : List FieldTask) :
    request.levelsLog application (levels + 1) run (task :: tasks) =
      Level.runLog request application run (task :: tasks) ++
        match Level.run request application run (task :: tasks) with
        | (run, .ok next) => request.levelsLog application levels run next
        | (_, .error _) => [] :=
  view_levelsTrace TraceEvent.occurrence? levels run task tasks

theorem eachLog_cons (task : FieldTask) (tasks : List FieldTask) (run : Run σ) :
    request.eachLog application (task :: tasks) run =
      request.levelsLog application request.depth run [task] ++
        match request.runLevels application request.depth run [task] with
        | (run, none) => request.eachLog application tasks run
        | (_, some _) => [] :=
  view_eachTrace TraceEvent.occurrence? task tasks run

end Request

end

/-! ## Nothing leaves its scope -/

namespace Level

variable {request : Request} {application : Application σ} {scope : Path} {least : Nat}
  {known : List Failure} {rest : Multiset FieldTask}

/-- Between two steps all tasks of a level are under the scope, and those of the next level are one
level further down. -/
structure Within (scope : Path) (least : Nat) (known : List Failure) (run : Run σ)
    (level : Level σ) : Prop where
  waiting : ∀ task ∈ level.waiting, run.draft.tree.Under scope least task.node
  inFlight : ∀ flying ∈ level.inFlight, run.draft.tree.Under scope least flying.task.node
  next : ∀ task ∈ level.next, run.draft.tree.Under scope (least + 1) task.node
  confined : run.draft.Confined known scope

private theorem Within.world {run : Run σ} {level : Level σ}
    (within : level.Within scope least known run)
    (world : World σ) : level.Within scope least known { run with world := world } :=
  ⟨within.waiting, within.inFlight, within.next, within.confined⟩

/-- What remains of a level after a step is under the scope. -/
private def Remains (scope : Path) (least : Nat) (known : List Failure) : Run σ × LevelStep σ → Prop
  | (run, .more level) => level.Within scope least known run
  | (run, .done next) =>
      (∀ task ∈ next, run.draft.tree.Under scope (least + 1) task.node) ∧
        run.draft.Confined known scope
  | (_, .stop _) => True

private theorem finish_remains {run : Run σ} {level : Level σ} {task : FieldTask}
    {resolution : Resolution}
    (valid : (Outstanding.progress (run.draft, task ::ₘ level.tasks + rest)).Valid)
    (within : level.Within scope least known run)
    (under : run.draft.tree.Under scope least task.node) :
    Remains scope least known (finish request run level task resolution) := by
  rw [Multiset.cons_add] at valid
  rw [finish]
  cases finished : request.finish task resolution run.draft with
  | error reason => trivial
  | ok expanded =>
      rcases expanded with ⟨draft, next⟩
      have finishes : request.Finishes Request.anyAnswer
          (run.draft, task ::ₘ (level.tasks + rest)) (draft, next + (level.tasks + rest)) :=
        .finish trivial finished
      have growth : run.draft.tree.Extends draft.tree :=
        Request.Steps.extends (finishes.steps valid) valid
      rcases Request.finish_under valid under within.confined finished with ⟨isUnder, confined⟩
      refine ⟨?_, ?_, ?_, confined⟩
      · exact fun other member => (within.waiting other member).mono growth
      · exact fun flying member => (within.inFlight flying member).mono growth
      · intro other member
        rcases List.mem_append.mp member with earlier | added
        · exact (within.next other earlier).mono growth
        · exact isUnder other added

private theorem dispatch_remains {run : Run σ} {level : Level σ} {task : FieldTask}
    (valid : (Outstanding.progress (run.draft, task ::ₘ level.tasks + rest)).Valid)
    (within : level.Within scope least known run)
    (under : run.draft.tree.Under scope least task.node) :
    Remains scope least known (dispatch request application run level task) := by
  rw [dispatch]
  split
  · exact within
  · cases isChecked : run.world.check request.token with
    | mk interruption world =>
        cases interruption with
        | some interruption => trivial
        | none =>
            simp only
            cases isStarted : request.start application (run.draft.tree.path task.node)
                task.toFieldCall world with
            | mk result world =>
                cases result with
                | resolved resolution =>
                    exact finish_remains valid (within.world world) under
                | suspended delay wake =>
                    refine ⟨within.waiting, ?_, within.next, within.confined⟩
                    intro flying member
                    rcases List.mem_append.mp member with earlier | added
                    · exact within.inFlight flying earlier
                    · rw [List.mem_singleton.mp added]
                      exact under

private theorem complete_remains {run : Run σ} {level : Level σ} {first : InFlight σ}
    (valid : (Outstanding.progress (run.draft, first.task ::ₘ level.tasks + rest)).Valid)
    (within : level.Within scope least known run)
    (under : run.draft.tree.Under scope least first.task.node) :
    Remains scope least known (complete request run level first) := by
  rw [complete]
  cases first.wake run.world with
  | mk outcome world =>
      simp only
      cases isChecked : world.check request.token with
      | mk interruption later =>
          cases interruption with
          | some interruption => trivial
          | none => exact finish_remains valid (within.world later) under

private theorem await_remains {run : Run σ} {level : Level σ}
    (valid : (Outstanding.progress (run.draft, level.tasks + rest)).Valid)
    (within : level.Within scope least known run) :
    Remains scope least known (await request run level) := by
  rw [await]
  cases run.world.interrupted request.token with
  | mk interruption world =>
      cases interruption with
      | some interruption => trivial
      | none =>
          simp only
          cases taken : InFlight.takeFirst level.inFlight with
          | none => exact ⟨within.next, within.confined⟩
          | some found =>
              rcases found with ⟨first, others⟩
              have same := InFlight.takeFirst_perm taken
              have fewer : { level with inFlight := others }.Within scope least known run :=
                ⟨within.waiting, fun flying member => within.inFlight flying
                    (same.mem_iff.mpr (List.mem_cons_of_mem first member)),
                  within.next, within.confined⟩
              rw [tasks_of_taken taken] at valid
              simp only
              cases world.waitUntil request.token first.due with
              | mk interruption later =>
                  cases interruption with
                  | some interruption => trivial
                  | none =>
                      exact complete_remains valid (fewer.world later)
                        (within.inFlight first (same.mem_iff.mpr List.mem_cons_self))

private theorem step_remains {run : Run σ} {level : Level σ}
    (valid : (Outstanding.progress (run.draft, level.tasks + rest)).Valid)
    (within : level.Within scope least known run) :
    Remains scope least known (level.step request application run) := by
  rw [step]
  cases isWaiting : level.waiting with
  | nil => exact await_remains valid within
  | cons task waiting =>
      simp only
      split
      · have fewer : { level with waiting := waiting }.Within scope least known run :=
          ⟨fun other member =>
              within.waiting other (isWaiting ▸ List.mem_cons_of_mem task member),
            within.inFlight, within.next, within.confined⟩
        rw [tasks_of_waiting isWaiting] at valid
        exact dispatch_remains valid fewer (within.waiting task (isWaiting ▸ List.mem_cons_self))
      · exact await_remains valid within

private theorem dispatchLog_under {run : Run σ} {task : FieldTask}
    (under : run.draft.tree.Under scope least task.node) :
    ∀ occurrence ∈ dispatchLog request application run task, occurrence.Under scope least := by
  intro occurrence member
  rw [dispatchLog_eq] at member
  split at member
  · cases member
  · split at member
    · cases member
    · split at member
      · rcases List.mem_pair.mp member with equal | equal <;> exact equal ▸ under.path
      · exact List.mem_singleton.mp member ▸ under.path

private theorem awaitLog_under {run : Run σ} {level : Level σ}
    (within : level.Within scope least known run) :
    ∀ occurrence ∈ awaitLog request run level, occurrence.Under scope least := by
  intro occurrence member
  rw [awaitLog_eq] at member
  split at member
  · cases member
  · split at member
    · cases member
    next first others taken =>
      split at member
      · cases member
      · have isFlying : first ∈ level.inFlight :=
          (InFlight.takeFirst_perm taken).mem_iff.mpr List.mem_cons_self
        exact List.mem_singleton.mp member ▸ (within.inFlight first isFlying).path

private theorem stepLog_under {run : Run σ} {level : Level σ}
    (within : level.Within scope least known run) :
    ∀ occurrence ∈ level.stepLog request application run, occurrence.Under scope least := by
  rw [stepLog_eq]
  cases isWaiting : level.waiting with
  | nil => exact awaitLog_under within
  | cons task waiting =>
      simp only
      split
      · exact dispatchLog_under (within.waiting task (isWaiting ▸ List.mem_cons_self))
      · exact awaitLog_under within

/-- What a level leaves is under the scope. -/
private def Leaves (scope : Path) (least : Nat) (known : List Failure) (rest : Multiset FieldTask) :
    Run σ × Except Abort (List FieldTask) → Prop
  | (run, .ok next) =>
      (Outstanding.progress (run.draft, next + rest)).Valid ∧
        (∀ task ∈ next, run.draft.tree.Under scope (least + 1) task.node) ∧
        run.draft.Confined known scope
  | (_, .error _) => True

private theorem runSteps_leaves (steps : Nat) {run : Run σ} {level : Level σ}
    (valid : (Outstanding.progress (run.draft, level.tasks + rest)).Valid)
    (within : level.Within scope least known run) :
    (∀ occurrence ∈ level.runStepsLog request application steps run,
      occurrence.Under scope least) ∧
      Leaves scope least known rest (level.runSteps request application steps run) := by
  induction steps generalizing run level with
  | zero => exact ⟨List.forall_mem_nil _, trivial⟩
  | succ steps induction =>
      have logged : ∀ occurrence ∈ level.stepLog request application run,
          occurrence.Under scope least := stepLog_under within
      have remains : Remains scope least known (level.step request application run) :=
        step_remains valid within
      have stillValid := step_valid request application valid
      rw [runStepsLog_succ, runSteps]
      cases isStep : level.step request application run with
      | mk later outcome =>
          rw [isStep] at remains stillValid
          cases outcome with
          | stop abort => exact ⟨by simpa using logged, trivial⟩
          | done next => exact ⟨by simpa using logged, stillValid, remains⟩
          | more remaining =>
              rcases induction stillValid remains with ⟨further, leaves⟩
              refine ⟨?_, leaves⟩
              intro occurrence member
              rcases List.mem_append.mp member with now | then_
              · exact logged occurrence now
              · exact further occurrence then_

private theorem run_leaves {run : Run σ} {tasks : List FieldTask}
    (valid : (Outstanding.progress (run.draft, tasks + rest)).Valid)
    (under : ∀ task ∈ tasks, run.draft.tree.Under scope least task.node)
    (confined : run.draft.Confined known scope) :
    (∀ occurrence ∈ runLog request application run tasks, occurrence.Under scope least) ∧
      Leaves scope least known rest (Level.run request application run tasks) := by
  have sameTasks : ({ waiting := tasks } : Level σ).tasks = (tasks : Multiset FieldTask) := by
    simp [Level.tasks]
  have within : ({ waiting := tasks } : Level σ).Within scope least known run :=
    ⟨under, by simp, by simp, confined⟩
  exact runSteps_leaves _ (sameTasks ▸ valid) within

/-! ### Starts -/

private theorem starts_dispatchLog (run : Run σ) (task : FieldTask) :
    (dispatchLog request application run task).countP Occurrence.isStart ≤ 1 := by
  rw [dispatchLog_eq]
  split
  · exact Nat.zero_le _
  · split
    · exact Nat.zero_le _
    · split <;> exact Nat.le_refl _

private theorem starts_awaitLog (run : Run σ) (level : Level σ) :
    (awaitLog request run level).countP Occurrence.isStart = 0 := by
  rw [awaitLog_eq]
  split
  · rfl
  · split
    · rfl
    · split <;> rfl

/-- How many tasks wait after a step. -/
private def waits : LevelStep σ → Nat
  | .more level => level.waiting.length
  | .done _ => 0
  | .stop _ => 0

private theorem waits_finish (run : Run σ) (level : Level σ) (task : FieldTask)
    (resolution : Resolution) :
    waits (finish request run level task resolution).2 ≤ level.waiting.length := by
  rw [finish]
  split
  · exact Nat.zero_le _
  · exact Nat.le_refl _

private theorem waits_dispatch (run : Run σ) (level : Level σ) (task : FieldTask) :
    waits (dispatch request application run level task).2 ≤ level.waiting.length := by
  rw [dispatch]
  split
  · exact Nat.le_refl _
  · split
    · exact Nat.zero_le _
    · split
      · exact waits_finish _ level task _
      · exact Nat.le_refl _

private theorem waits_await (run : Run σ) (level : Level σ) :
    waits (await request run level).2 ≤ level.waiting.length := by
  rw [await]
  split
  · exact Nat.zero_le _
  · split
    · exact Nat.zero_le _
    · split
      · exact Nat.zero_le _
      next first others _ _ later _ =>
        rw [complete]
        simp only
        split
        · exact Nat.zero_le _
        · exact waits_finish _ { level with inFlight := others } first.task _

private theorem starts_stepLog (run : Run σ) (level : Level σ) :
    (level.stepLog request application run).countP Occurrence.isStart +
      waits (level.step request application run).2 ≤ level.waiting.length := by
  have awaited : (awaitLog request run level).countP Occurrence.isStart +
      waits (await request run level).2 ≤ level.waiting.length := by
    rw [starts_awaitLog, Nat.zero_add]
    exact waits_await run level
  rw [stepLog_eq, step]
  cases isWaiting : level.waiting with
  | nil => rwa [isWaiting] at awaited
  | cons task waiting =>
      rw [isWaiting] at awaited
      simp only
      split
      · have started : (dispatchLog request application run task).countP Occurrence.isStart ≤ 1 :=
          starts_dispatchLog run task
        have left : waits (dispatch request application run
            { level with waiting := waiting } task).2 ≤ waiting.length :=
          waits_dispatch run { level with waiting := waiting } task
        rw [List.length_cons]
        omega
      · exact awaited

private theorem starts_runStepsLog (steps : Nat) (run : Run σ) (level : Level σ) :
    (level.runStepsLog request application steps run).countP Occurrence.isStart ≤
      level.waiting.length := by
  induction steps generalizing run level with
  | zero => exact Nat.zero_le _
  | succ steps induction =>
      have first : (level.stepLog request application run).countP Occurrence.isStart +
          waits (level.step request application run).2 ≤ level.waiting.length :=
        starts_stepLog run level
      rw [runStepsLog_succ, List.countP_append]
      cases isStep : level.step request application run with
      | mk later outcome =>
          rw [isStep] at first
          cases outcome with
          | stop abort => exact first
          | done next => exact first
          | more remaining => exact (Nat.add_le_add_left (induction later remaining) _).trans first

/-! ### After all data became null -/

private theorem isDiscarded_of_null {tree : Tree} (allNull : tree.dataIsNull = true) (id : NodeId) :
    tree.isDiscarded id = true := by
  rw [Tree.isDiscarded, allNull, Bool.true_or]

private theorem runSteps_null (steps : Nat) {run : Run σ} {level : Level σ}
    (allNull : run.draft.tree.dataIsNull = true) (idle : level.inFlight = []) :
    level.runStepsLog request application steps run = [] ∧
      (level.runSteps request application steps run).1.draft = run.draft := by
  induction steps generalizing run level with
  | zero => exact ⟨rfl, rfl⟩
  | succ steps induction =>
      rw [runStepsLog_succ, runSteps, stepLog_eq, step]
      cases level.waiting with
      | nil =>
          rw [awaitLog_eq, await, idle]
          cases run.world.interrupted request.token with
          | mk interruption world => cases interruption <;> exact ⟨rfl, rfl⟩
      | cons task waiting =>
          have room : level.inFlight.length < request.inFlightBound := by
            rw [idle]
            exact Nat.lt_of_lt_of_le Nat.one_pos (Nat.le_max_left _ _)
          simp only
          rw [if_pos room, if_pos room, dispatchLog_eq, dispatch]
          simp only [isDiscarded_of_null allNull, if_true, List.nil_append]
          exact induction allNull idle

end Level

namespace Request

variable {request : Request} {application : Application σ}

private theorem runLevels_null (levels : Nat) {run : Run σ}
    (allNull : run.draft.tree.dataIsNull = true) (tasks : List FieldTask) :
    request.levelsLog application levels run tasks = [] ∧
      (request.runLevels application levels run tasks).1.draft = run.draft := by
  induction levels generalizing run tasks with
  | zero => cases tasks <;> exact ⟨rfl, rfl⟩
  | succ levels induction =>
      cases tasks with
      | nil => exact ⟨rfl, rfl⟩
      | cons task tasks =>
          have level : Level.runLog request application run (task :: tasks) = [] ∧
              (Level.run request application run (task :: tasks)).1.draft = run.draft :=
            Level.runSteps_null _ allNull rfl
          rw [levelsLog_succ, runLevels, level.1, List.nil_append]
          cases isLevel : Level.run request application run (task :: tasks) with
          | mk later result =>
              have sameDraft : later.draft = run.draft := by
                rw [← level.2, isLevel]
              cases result with
              | error abort => exact ⟨rfl, sameDraft⟩
              | ok next =>
                  rcases induction (sameDraft ▸ allNull) next with ⟨silent, kept⟩
                  exact ⟨silent, kept.trans sameDraft⟩

theorem runEach_null {run : Run σ} (allNull : run.draft.tree.dataIsNull = true)
    (tasks : List FieldTask) :
    request.eachLog application tasks run = [] ∧
      (request.runEach application tasks run).1.draft = run.draft := by
  induction tasks generalizing run with
  | nil => exact ⟨rfl, rfl⟩
  | cons task tasks induction =>
      have first : request.levelsLog application request.depth run [task] = [] ∧
          (request.runLevels application request.depth run [task]).1.draft = run.draft :=
        runLevels_null request.depth allNull [task]
      rw [eachLog_cons, runEach, first.1, List.nil_append]
      cases isRun : request.runLevels application request.depth run [task] with
      | mk later abort =>
          have sameDraft : later.draft = run.draft := by
            rw [← first.2, isRun]
          cases abort with
          | some abort => exact ⟨rfl, sameDraft⟩
          | none =>
              rcases induction (sameDraft ▸ allNull) with ⟨silent, kept⟩
              exact ⟨silent, kept.trans sameDraft⟩

/-! ## One top-level field -/

variable {scope : Path} {least : Nat} {known : List Failure} {rest : Multiset FieldTask}

theorem runLevels_leaves (levels : Nat) {run : Run σ} {tasks : List FieldTask}
    (valid : (Outstanding.progress (run.draft, tasks + rest)).Valid)
    (under : ∀ task ∈ tasks, run.draft.tree.Under scope least task.node)
    (confined : run.draft.Confined known scope) :
    (∀ occurrence ∈ request.levelsLog application levels run tasks,
      occurrence.Under scope least) ∧
      match request.runLevels application levels run tasks with
      | (later, none) => later.draft.Confined known scope
      | (_, some _) => True := by
  induction levels generalizing run tasks least with
  | zero => cases tasks <;> simp [levelsLog, levelsTrace, runLevels, confined]
  | succ levels induction =>
      cases tasks with
      | nil => simp [levelsLog, levelsTrace, runLevels, confined]
      | cons task tasks =>
          have level : (∀ occurrence ∈ Level.runLog request application run (task :: tasks),
              occurrence.Under scope least) ∧ Level.Leaves scope least known rest
                (Level.run request application run (task :: tasks)) :=
            Level.run_leaves valid under confined
          rw [levelsLog_succ, runLevels]
          cases isLevel : Level.run request application run (task :: tasks) with
          | mk later result =>
              rw [isLevel] at level
              cases result with
              | error abort => exact ⟨by simpa using level.1, trivial⟩
              | ok next =>
                  rcases level with ⟨now, stillValid, isUnder, stillConfined⟩
                  rcases induction stillValid isUnder stillConfined with ⟨further, leaves⟩
                  refine ⟨?_, leaves⟩
                  intro occurrence member
                  rcases List.mem_append.mp member with isNow | isLater
                  · exact now occurrence isNow
                  · rcases further occurrence isLater with ⟨inScope, deep⟩
                    exact ⟨inScope, (Nat.le_succ least).trans deep⟩

/-- The field at the end of the scope is started once at most. -/
theorem count_levelsLog (levels : Nat) {run : Run σ} {task : FieldTask}
    (valid : (Outstanding.progress (run.draft, ([task] : List FieldTask) + rest)).Valid)
    (under : run.draft.tree.Under scope scope.length task.node)
    (confined : run.draft.Confined known scope) :
    (request.levelsLog application levels run [task]).count (.start scope) ≤ 1 := by
  cases levels with
  | zero => exact Nat.zero_le _
  | succ levels =>
      have level : _ ∧ Level.Leaves scope scope.length known rest
          (Level.run request application run [task]) :=
        Level.run_leaves valid (by simpa using under) confined
      have starts : (Level.runLog request application run [task]).countP Occurrence.isStart ≤ 1 :=
        Level.starts_runStepsLog _ run { waiting := [task] }
      have first : (Level.runLog request application run [task]).count (.start scope) ≤ 1 := by
        refine (List.countP_mono_left ?_).trans starts
        intro occurrence _ isScope
        rw [beq_iff_eq.mp isScope]
        rfl
      rw [levelsLog_succ, List.count_append]
      cases isLevel : Level.run request application run [task] with
      | mk later result =>
          rw [isLevel] at level
          cases result with
          | error abort => exact first
          | ok next =>
              have below : (∀ occurrence ∈ request.levelsLog application levels later next,
                  occurrence.Under scope (scope.length + 1)) ∧ _ :=
                runLevels_leaves levels level.2.1 level.2.2.1 level.2.2.2
              have absent : Occurrence.start scope ∉
                  request.levelsLog application levels later next := by
                intro member
                exact absurd (below.1 _ member).2 (Nat.not_succ_le_self _)
              rw [List.count_eq_zero.mpr absent]
              exact first

end Request

end GraphQL
