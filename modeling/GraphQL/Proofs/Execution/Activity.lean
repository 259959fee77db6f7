import GraphQL.Proofs.Execution.Refinement
import GraphQL.Proofs.Execution.Trace

/-!
What a run does, step by step: it checks its token, starts tasks and finishes them. The first check
that finds an interruption is the last thing that a run does. Where nothing cancels the token no
check finds one.
-/

namespace GraphQL

variable {σ : Type}

/-! ## What ends a run -/

section

variable {α : Type} {found : α → Option Interruption}

/-- Nothing has found an interruption, or only the last thing has. -/
def Observed (found : α → Option Interruption) (things : List α) : Option Interruption → Prop
  | none => ∀ thing ∈ things, found thing = none
  | some interruption => ∃ before last, things = before ++ [last] ∧
      found last = some interruption ∧ ∀ thing ∈ before, found thing = none

theorem Observed.nil : Observed found [] none :=
  List.forall_mem_nil _

theorem Observed.after {first second : List α} {interruption? : Option Interruption}
    (quiet : ∀ thing ∈ first, found thing = none) (observed : Observed found second interruption?) :
    Observed found (first ++ second) interruption? := by
  cases interruption? with
  | none => exact List.forall_mem_append.mpr ⟨quiet, observed⟩
  | some interruption =>
      rcases observed with ⟨before, last, isSecond, isLast, quietBefore⟩
      refine ⟨first ++ before, last, ?_, isLast, List.forall_mem_append.mpr ⟨quiet, quietBefore⟩⟩
      rw [isSecond, List.append_assoc]

theorem Observed.cons {thing : α} {things : List α} {interruption? : Option Interruption}
    (quiet : found thing = none) (observed : Observed found things interruption?) :
    Observed found (thing :: things) interruption? := by
  have together : Observed found ([thing] ++ things) interruption? :=
    .after (List.forall_mem_singleton.mpr quiet) observed
  exact together

theorem Observed.stop {last : α} {interruption : Interruption}
    (isLast : found last = some interruption) : Observed found [last] (some interruption) :=
  ⟨[], last, rfl, isLast, List.forall_mem_nil _⟩

theorem Observed.not_quiet {things : List α} {interruption : Interruption}
    (observed : Observed found things (some interruption)) :
    ¬∀ thing ∈ things, found thing = none := by
  rcases observed with ⟨before, last, rfl, isLast, _⟩
  intro quiet
  rw [quiet last (List.mem_append_right _ List.mem_cons_self)] at isLast
  cases isLast

/-- Nothing follows what has found an interruption. -/
theorem Observed.pairwise {things : List α} {interruption? : Option Interruption}
    (observed : Observed found things interruption?) :
    things.Pairwise fun earlier _ => found earlier = none := by
  cases interruption? with
  | none => exact List.pairwise_of_forall_mem_list fun earlier member _ _ => observed earlier member
  | some interruption =>
      rcases observed with ⟨before, last, rfl, _, quiet⟩
      refine List.pairwise_append.mpr ⟨?_, List.pairwise_singleton _ _, ?_⟩
      · exact List.pairwise_of_forall_mem_list fun earlier member _ _ => quiet earlier member
      · exact fun earlier member _ _ => quiet earlier member

end

/-! ## Activities -/

/-- What a run does. -/
inductive Activity where
  /-- The token is checked, or waited for. -/
  | check (found : Option Interruption)
  | start (path : Path)
  | finish (path : Path)
deriving DecidableEq

namespace Activity

def interruption? : Activity → Option Interruption
  | .check found => found
  | .start _ => none
  | .finish _ => none

/-- Only the last of the activities may be a check that finds an interruption. -/
abbrev Observed (activities : List Activity) : Option Interruption → Prop :=
  GraphQL.Observed interruption? activities

end Activity

/-- The interruption that ended a run. -/
def Abort.interruption? : Abort → Option Interruption
  | .interrupted interruption => some interruption
  | .panicked _ => none
  | .tooDeep => none

private def LevelStep.interruption? : LevelStep σ → Option Interruption
  | .more _ => none
  | .done _ => none
  | .stop abort => abort.interruption?

/-- The interruption that kept a run from its result. -/
def interruptionOf {α : Type} : Except Abort α → Option Interruption
  | .ok _ => none
  | .error abort => abort.interruption?

/-- The answers are left out. -/
def TraceEvent.activity? : TraceEvent → Option Activity
  | .check found => some (.check found)
  | .start path _ => some (.start path)
  | .answer _ _ => none
  | .finish path => some (.finish path)

namespace Level

def dispatchActivity (request : Request) (application : Application σ) (run : Run σ)
    (task : FieldTask) : List Activity :=
  (dispatchTrace request application run task).filterMap TraceEvent.activity?

/-- What is done when the resolver of a task is due. -/
def completeActivity (request : Request) (run : Run σ) (first : InFlight σ) : List Activity :=
  (completeTrace request run first).filterMap TraceEvent.activity?

def awaitActivity (request : Request) (run : Run σ) (level : Level σ) : List Activity :=
  (awaitTrace request run level).filterMap TraceEvent.activity?

def stepActivity (request : Request) (application : Application σ) (run : Run σ)
    (level : Level σ) : List Activity :=
  (level.stepTrace request application run).filterMap TraceEvent.activity?

def runStepsActivity (request : Request) (application : Application σ) (steps : Nat) (run : Run σ)
    (level : Level σ) : List Activity :=
  (level.runStepsTrace request application steps run).filterMap TraceEvent.activity?

def runActivity (request : Request) (application : Application σ) (run : Run σ)
    (tasks : List FieldTask) : List Activity :=
  (runTrace request application run tasks).filterMap TraceEvent.activity?

end Level

namespace Request

def levelsActivity (request : Request) (application : Application σ) (levels : Nat) (run : Run σ)
    (tasks : List FieldTask) : List Activity :=
  (request.levelsTrace application levels run tasks).filterMap TraceEvent.activity?

/-- What is done in an execution level by level. -/
def parallelActivity (request : Request) (application : Application σ) (rootValue : FieldValue)
    (world : World σ) : List Activity :=
  (request.parallelTrace application rootValue world).filterMap TraceEvent.activity?

def eachActivity (request : Request) (application : Application σ) (tasks : List FieldTask)
    (run : Run σ) : List Activity :=
  (request.eachTrace application tasks run).filterMap TraceEvent.activity?

/-- What is done in an execution of one top-level field after another. -/
def serialActivity (request : Request) (application : Application σ) (rootValue : FieldValue)
    (world : World σ) : List Activity :=
  (request.serialTrace application rootValue world).filterMap TraceEvent.activity?

end Request

section

variable (request : Request) (application : Application σ)

namespace Level

theorem dispatchActivity_eq (run : Run σ) (task : FieldTask) :
    dispatchActivity request application run task =
      if run.draft.tree.isDiscarded task.node then []
      else
        match run.world.check request.token with
        | (some interruption, _) => [.check (some interruption)]
        | (none, world) =>
            match request.start application (run.draft.tree.path task.node) task.toFieldCall
                world with
            | (.resolved _, _) =>
                [.check none, .start (run.draft.tree.path task.node),
                  .finish (run.draft.tree.path task.node)]
            | (.suspended _ _, _) => [.check none, .start (run.draft.tree.path task.node)] :=
  view_dispatchTrace TraceEvent.activity? run task

theorem completeActivity_eq (run : Run σ) (first : InFlight σ) :
    completeActivity request run first =
      match (first.wake run.world).2.check request.token with
      | (some interruption, _) => [.check (some interruption)]
      | (none, _) => [.check none, .finish (run.draft.tree.path first.task.node)] := by
  rw [completeActivity, completeTrace]
  rcases (first.wake run.world).2.check request.token with ⟨_ | interruption, world⟩ <;> rfl

theorem awaitActivity_eq (run : Run σ) (level : Level σ) :
    awaitActivity request run level =
      match run.world.interrupted request.token with
      | (some interruption, _) => [.check (some interruption)]
      | (none, world) =>
          match InFlight.takeFirst level.inFlight with
          | none => [.check none]
          | some (first, _) =>
              match world.waitUntil request.token first.due with
              | (some interruption, _) => [.check none, .check (some interruption)]
              | (none, world) =>
                  .check none :: .check none ::
                    completeActivity request { run with world := world } first :=
  view_awaitTrace TraceEvent.activity? run level

theorem stepActivity_eq (run : Run σ) (level : Level σ) :
    level.stepActivity request application run =
      match level.waiting with
      | task :: _ =>
          if level.inFlight.length < request.inFlightBound then
            dispatchActivity request application run task
          else awaitActivity request run level
      | [] => awaitActivity request run level :=
  view_stepTrace TraceEvent.activity? run level

theorem runStepsActivity_succ (steps : Nat) (run : Run σ) (level : Level σ) :
    level.runStepsActivity request application (steps + 1) run =
      level.stepActivity request application run ++
        match level.step request application run with
        | (run, .more level) => level.runStepsActivity request application steps run
        | (_, .done _) => []
        | (_, .stop _) => [] :=
  view_runStepsTrace TraceEvent.activity? steps run level

end Level

namespace Request

theorem levelsActivity_succ (levels : Nat) (run : Run σ) (task : FieldTask)
    (tasks : List FieldTask) :
    request.levelsActivity application (levels + 1) run (task :: tasks) =
      Level.runActivity request application run (task :: tasks) ++
        match Level.run request application run (task :: tasks) with
        | (run, .ok next) => request.levelsActivity application levels run next
        | (_, .error _) => [] :=
  view_levelsTrace TraceEvent.activity? levels run task tasks

theorem eachActivity_cons (task : FieldTask) (tasks : List FieldTask) (run : Run σ) :
    request.eachActivity application (task :: tasks) run =
      request.levelsActivity application request.depth run [task] ++
        match request.runLevels application request.depth run [task] with
        | (run, none) => request.eachActivity application tasks run
        | (_, some _) => [] :=
  view_eachTrace TraceEvent.activity? task tasks run

end Request

end

/-! ## An interruption ends a run -/

namespace Level

variable {request : Request} {application : Application σ}

private theorem finish_interruption (run : Run σ) (level : Level σ) (task : FieldTask)
    (resolution : Resolution) :
    (finish request run level task resolution).2.interruption? = none := by
  rw [finish]
  split <;> rfl

private theorem dispatch_observed (run : Run σ) (level : Level σ) (task : FieldTask) :
    Activity.Observed (dispatchActivity request application run task)
      (dispatch request application run level task).2.interruption? := by
  rw [dispatchActivity_eq, dispatch]
  by_cases lost : run.draft.tree.isDiscarded task.node = true
  · rw [if_pos lost, if_pos lost]
    exact .nil
  · rw [if_neg lost, if_neg lost]
    rcases run.world.check request.token with ⟨_ | interruption, world⟩
    · simp only
      rcases request.start application (run.draft.tree.path task.node) task.toFieldCall world with
        ⟨resolution | ⟨delay, wake⟩, later⟩
      · simp only [finish_interruption]
        exact .cons rfl (.cons rfl (.cons rfl .nil))
      · exact .cons rfl (.cons rfl .nil)
    · exact .stop rfl

private theorem complete_observed (run : Run σ) (level : Level σ) (first : InFlight σ) :
    Activity.Observed (completeActivity request run first)
      (complete request run level first).2.interruption? := by
  rw [completeActivity_eq, complete]
  rcases first.wake run.world with ⟨outcome, woken⟩
  simp only
  rcases woken.check request.token with ⟨_ | interruption, world⟩
  · simp only [finish_interruption]
    exact .cons rfl (.cons rfl .nil)
  · exact .stop rfl

private theorem await_observed (run : Run σ) (level : Level σ) :
    Activity.Observed (awaitActivity request run level)
      (await request run level).2.interruption? := by
  rw [awaitActivity_eq, await]
  rcases run.world.interrupted request.token with ⟨_ | interruption, world⟩
  · simp only
    rcases InFlight.takeFirst level.inFlight with _ | ⟨first, others⟩
    · exact .cons rfl .nil
    · simp only
      rcases world.waitUntil request.token first.due with ⟨_ | interruption, due⟩
      · exact .cons rfl (.cons rfl (complete_observed _ _ _))
      · exact .cons rfl (.stop rfl)
  · exact .stop rfl

private theorem step_observed (run : Run σ) (level : Level σ) :
    Activity.Observed (level.stepActivity request application run)
      (level.step request application run).2.interruption? := by
  rw [stepActivity_eq, step]
  rcases level.waiting with _ | ⟨task, waiting⟩
  · exact await_observed run level
  · by_cases room : level.inFlight.length < request.inFlightBound
    · simp only [if_pos room]
      exact dispatch_observed run _ task
    · simp only [if_neg room]
      exact await_observed run level

private theorem runSteps_observed (steps : Nat) (run : Run σ) (level : Level σ) :
    Activity.Observed (level.runStepsActivity request application steps run)
      (interruptionOf (level.runSteps request application steps run).2) := by
  induction steps generalizing run level with
  | zero => exact .nil
  | succ steps induction =>
      have first : Activity.Observed (level.stepActivity request application run)
          (level.step request application run).2.interruption? := step_observed run level
      rw [runStepsActivity_succ, runSteps]
      cases isStep : level.step request application run with
      | mk later outcome =>
          rw [isStep] at first
          cases outcome with
          | more remaining => exact .after first (induction later remaining)
          | done next => exact .after first .nil
          | stop abort =>
              rw [List.append_nil]
              exact first

end Level

namespace Request

variable {request : Request} {application : Application σ}

private theorem runLevels_observed (levels : Nat) (run : Run σ) (tasks : List FieldTask) :
    Activity.Observed (request.levelsActivity application levels run tasks)
      ((request.runLevels application levels run tasks).2.bind Abort.interruption?) := by
  induction levels generalizing run tasks with
  | zero => cases tasks <;> exact .nil
  | succ levels induction =>
      cases tasks with
      | nil => exact .nil
      | cons task tasks =>
          have first : Activity.Observed (Level.runActivity request application run (task :: tasks))
              (interruptionOf (Level.run request application run (task :: tasks)).2) :=
            Level.runSteps_observed _ _ _
          rw [levelsActivity_succ, runLevels]
          cases isLevel : Level.run request application run (task :: tasks) with
          | mk later result =>
              rw [isLevel] at first
              cases result with
              | ok next => exact .after first (induction later next)
              | error abort =>
                  rw [List.append_nil]
                  exact first

theorem executeParallel_observed (request : Request) (application : Application σ)
    (rootValue : FieldValue) (world : World σ) :
    Activity.Observed (request.parallelActivity application rootValue world)
      (interruptionOf (request.executeParallel application rootValue world).2) := by
  have levels : Activity.Observed (request.parallelActivity application rootValue world)
      ((request.runLevels application request.depth ⟨(request.rootTasks rootValue).1, world⟩
        (request.rootTasks rootValue).2).2.bind Abort.interruption?) := runLevels_observed _ _ _
  rw [executeParallel]
  simp only
  cases isRun : request.runLevels application request.depth
      ⟨(request.rootTasks rootValue).1, world⟩ (request.rootTasks rootValue).2 with
  | mk run abort =>
      rw [isRun] at levels
      cases abort <;> exact levels

/-! ## Nothing cancels the token -/

/-- What holds of the worlds between two steps also holds at the end. -/
private theorem executeParallel_sound {conditions : Conditions σ}
    (holds : conditions.Holds request application) {layer : Nat → FieldTask → Prop}
    (layers : request.Layers conditions layer) (rootValue : FieldValue) {world : World σ}
    (sound : conditions.sound world)
    (inLayer : ∀ task ∈ (request.rootTasks rootValue).2, layer request.depth task) :
    match request.executeParallel application rootValue world with
    | (run, .ok _) => conditions.sound run.world
    | (_, .error abort) => conditions.aborts abort := by
  have finishes := executeParallel_finishes holds layers rootValue sound inLayer
  generalize request.executeParallel application rootValue world = result at finishes ⊢
  rcases result with ⟨run, abort | data⟩
  · exact finishes
  · exact finishes.2.2

end Request

/-- Resolvers do not cancel a token, neither when they are called nor when they are woken. -/
structure Application.Spares (application : Application σ) (token : CancellationToken) : Prop where
  called : ∀ {resolver invocation} {world : World σ}, world.Quiet token →
    (application.resolve resolver invocation world).2.Quiet token
  woken : ∀ {resolver invocation delay wake} {world later : World σ}, world.Quiet token →
    application.resolve resolver invocation world = (.suspended delay wake, later) →
    ∀ woken : World σ, woken.Quiet token → (wake woken).2.Quiet token

namespace Request

variable {request : Request} {application : Application σ}

/-- Anything may be answered, but the token is not cancelled. -/
private def spared (request : Request) : Conditions σ where
  sound := World.Quiet request.token
  allowed _ _ _ := True
  aborts abort := abort.interruption? = none

private theorem spared_holds (spares : application.Spares request.token)
    (endless : request.token.deadline = none) :
    (request.spared : Conditions σ).Holds request application := by
  apply Conditions.holds_of_quiet rfl endless
  · intro call path world isQuiet
    have starts := start_starts request application call path world
    generalize request.start application path call world = result at starts ⊢
    cases starts with
    | alone => exact ⟨trivial, isQuiet⟩
    | @ready resolver invocation _ _ _ replied =>
        have called : (application.resolve resolver invocation world).2.Quiet request.token :=
          spares.called isQuiet
        rw [replied] at called
        exact ⟨trivial, called⟩
    | @suspended resolver invocation _ _ _ _ replied =>
        have called : (application.resolve resolver invocation world).2.Quiet request.token :=
          spares.called isQuiet
        rw [replied] at called
        exact ⟨fun woken wokenQuiet =>
          ⟨trivial, spares.woken isQuiet replied woken wokenQuiet⟩, called⟩
  · exact fun _ _ => rfl

/-- An execution in which nothing cancels the token is not interrupted. -/
theorem executeParallel_spared (spares : application.Spares request.token)
    (endless : request.token.deadline = none) (rootValue : FieldValue) {world : World σ}
    (isQuiet : world.Quiet request.token) :
    match request.executeParallel application rootValue world with
    | (run, .ok _) => run.world.Quiet request.token
    | (_, .error abort) => abort.interruption? = none := by
  have layers : request.Layers (request.spared : Conditions σ) fun _ _ => True :=
    ⟨fun _ => Depths.any request, fun _ _ => rfl⟩
  exact executeParallel_sound (spared_holds spares endless) layers rootValue isQuiet
    fun _ _ => trivial

end Request

end GraphQL
