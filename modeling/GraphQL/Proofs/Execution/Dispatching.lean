import GraphQL.Proofs.Execution.Log
import GraphQL.Proofs.Execution.Recording
import GraphQL.Proofs.Execution.Scheduling

/-!
Both strategies schedule tasks in the steps of schedules, and their logs tell of these steps: a
level-by-level execution takes up all top-level tasks at once, a serial one takes them up one after
another.
-/

namespace GraphQL

variable {σ : Type}

/-! ## Logs of schedules -/

/-- What an event is in a log. -/
def ScheduleEvent.occurrence? (tree : Tree) : ScheduleEvent → Option Occurrence
  | .start _ task => some (.start (tree.path task.node))
  | .finish _ task _ => some (.completion (tree.path task.node))
  | .drop _ _ => none

namespace Schedule

variable {request : Request} {roots waiting next : List FieldTask} {schedule : Schedule}
  {task : FieldTask} {others : Multiset FieldTask} {draft : Draft} {resolution : Resolution}

def log (schedule : Schedule) : List Occurrence :=
  schedule.events.filterMap (ScheduleEvent.occurrence? schedule.draft.tree)

private theorem log_drop : (schedule.drop task waiting).log = schedule.log := by
  simp [log, drop, ScheduleEvent.occurrence?]

private theorem log_start :
    (schedule.start task waiting).log =
      schedule.log ++ [.start (schedule.draft.tree.path task.node)] := by
  simp [log, start, ScheduleEvent.occurrence?]

/-- Finishing a task does not change where tasks stand. -/
private theorem log_finish (accounts : schedule.Accounts request roots)
    (flying : schedule.inFlight = task ::ₘ others)
    (finished : request.finish task resolution schedule.draft = .ok (draft, next)) :
    (schedule.finish draft task others next).log =
      schedule.log ++ [.completion (schedule.draft.tree.path task.node)] := by
  have runs : request.Runs Request.anyAnswer _ _ :=
    runs_of_move (.finish flying finished)
  have growth : schedule.draft.tree.Extends draft.tree :=
    Request.Steps.extends (runs.steps accounts.valid) accounts.valid
  have isStarted : ∀ other ∈ (schedule.finished : Multiset FieldTask) + schedule.inFlight,
      draft.tree.path other.node = schedule.draft.tree.path other.node := by
    intro other listed
    rw [← accounts.flying] at listed
    have isGiven : other ∈ roots ++ schedule.produced := by
      rw [← Multiset.mem_coe, accounts.given]
      exact Multiset.mem_add.mpr (.inl listed)
    rcases Tree.exists_node (accounts.known other isGiven) with ⟨node, found⟩
    exact growth.path_eq found
  have samePath : draft.tree.path task.node = schedule.draft.tree.path task.node := by
    apply isStarted task
    rw [flying]
    simp
  have same : ∀ event ∈ schedule.events, ScheduleEvent.occurrence? draft.tree event =
      ScheduleEvent.occurrence? schedule.draft.tree event := by
    intro event listed
    cases event with
    | start level other =>
        have known : other ∈ schedule.started := List.mem_filterMap.mpr ⟨_, listed, rfl⟩
        rw [← Multiset.mem_coe, accounts.flying] at known
        rw [ScheduleEvent.occurrence?, ScheduleEvent.occurrence?, isStarted other known]
    | finish level other produced =>
        have known : other ∈ schedule.finished := List.mem_filterMap.mpr ⟨_, listed, rfl⟩
        rw [ScheduleEvent.occurrence?, ScheduleEvent.occurrence?,
          isStarted other (Multiset.mem_add.mpr (.inl (Multiset.mem_coe.mpr known)))]
    | drop level other => rfl
  rw [log, log, finish, List.filterMap_append, List.filterMap_congr same]
  simp [ScheduleEvent.occurrence?, samePath]

/-- Nothing waits and nothing is in flight. -/
structure Rests (schedule : Schedule) (draft : Draft) (batches : List (List FieldTask))
    (next : List FieldTask) : Prop where
  draft : schedule.draft = draft
  batches : schedule.batches = batches
  waiting : schedule.waiting = []
  inFlight : schedule.inFlight = 0
  next : schedule.next = next

/-- A level begins. -/
structure Begins (schedule : Schedule) (draft : Draft) (batches : List (List FieldTask))
    (tasks : List FieldTask) : Prop where
  draft : schedule.draft = draft
  batches : schedule.batches = batches
  waiting : schedule.waiting = tasks
  inFlight : schedule.inFlight = 0
  next : schedule.next = []

end Schedule

namespace Request

/-- A schedule goes on, and its log with it. -/
private def Continues (request : Request) (first last : Schedule) (log : List Occurrence) : Prop :=
  request.Schedules first last ∧ last.log = first.log ++ log

/-- A log told by a schedule that comes to some draft. Its last occurrence may be the answer to a
task that is still in flight. -/
private def BreaksOff (request : Request) (first : Schedule) (draft : Draft)
    (log : List Occurrence) : Prop :=
  ∃ last part, request.Continues first last part ∧ last.draft = draft ∧
    (log = part ∨
      ∃ task ∈ last.inFlight, log = part ++ [.completion (draft.tree.path task.node)])

variable {request : Request} {first middle last : Schedule} {log more : List Occurrence}

private theorem Continues.refl (request : Request) (schedule : Schedule) :
    request.Continues schedule schedule [] :=
  ⟨.refl, (List.append_nil _).symm⟩

private theorem Continues.trans (earlier : request.Continues first middle log)
    (later : request.Continues middle last more) : request.Continues first last (log ++ more) :=
  ⟨earlier.1.trans later.1, by rw [later.2, earlier.2, List.append_assoc]⟩

private theorem BreaksOff.after {draft : Draft} (earlier : request.Continues first middle log)
    (later : request.BreaksOff middle draft more) :
    request.BreaksOff first draft (log ++ more) := by
  rcases later with ⟨last, part, continues, sameDraft, told⟩
  refine ⟨last, log ++ part, earlier.trans continues, sameDraft, ?_⟩
  rcases told with rfl | ⟨task, flying, rfl⟩
  · exact .inl rfl
  · exact .inr ⟨task, flying, (List.append_assoc _ _ _).symm⟩

private theorem BreaksOff.here {draft : Draft} (sameDraft : first.draft = draft) :
    request.BreaksOff first draft [] :=
  ⟨first, [], .refl request first, sameDraft, .inl rfl⟩

private theorem BreaksOff.answered {draft : Draft} {task : FieldTask}
    (sameDraft : first.draft = draft) (flying : task ∈ first.inFlight) :
    request.BreaksOff first draft [.completion (draft.tree.path task.node)] :=
  ⟨first, [], .refl request first, sameDraft, .inr ⟨task, flying, rfl⟩⟩

end Request

/-! ## Levels -/

namespace Level

variable {request : Request} {application : Application σ} {roots : List FieldTask}
  {first middle : Schedule} {run : Run σ} {level : Level σ} {log more : List Occurrence}

/-- The level is the one that the schedule is at. -/
structure Tracks (schedule : Schedule) (run : Run σ) (level : Level σ) : Prop where
  draft : schedule.draft = run.draft
  waiting : schedule.waiting = level.waiting
  inFlight : schedule.inFlight = ((level.inFlight.map InFlight.task : List FieldTask) :
    Multiset FieldTask)
  next : schedule.next = level.next

theorem Tracks.nobody {schedule : Schedule} (tracks : level.Tracks schedule run)
    (nothing : level.inFlight = []) : schedule.inFlight = 0 := by
  rw [tracks.inFlight, nothing]
  rfl

/-- The task of the first promise is in flight with those of the others. -/
theorem Tracks.taken {schedule : Schedule} (tracks : level.Tracks schedule run)
    {earliest : InFlight σ} {others : List (InFlight σ)}
    (taken : InFlight.takeFirst level.inFlight = some (earliest, others)) :
    schedule.inFlight =
      earliest.task ::ₘ ((others.map InFlight.task : List FieldTask) : Multiset FieldTask) := by
  rw [tracks.inFlight]
  exact Multiset.coe_eq_coe.mpr ((InFlight.takeFirst_perm taken).map InFlight.task)

/-- A promise in flight after others adds its task to theirs. -/
theorem tasks_concat (flying : List (InFlight σ)) (added : InFlight σ) :
    (((flying ++ [added]).map InFlight.task : List FieldTask) : Multiset FieldTask) =
      added.task ::ₘ ((flying.map InFlight.task : List FieldTask) : Multiset FieldTask) := by
  rw [List.map_append, ← Multiset.coe_add, List.map_singleton, add_comm]
  rfl

/-- What a step of a level is for its schedule. -/
private def Scheduled (request : Request) (first : Schedule) (log : List Occurrence) :
    Run σ × LevelStep σ → Prop
  | (run, .more level) => ∃ last, request.Continues first last log ∧ level.Tracks last run ∧
      last.batches = first.batches
  | (run, .done next) => ∃ last, request.Continues first last log ∧
      last.Rests run.draft first.batches next
  | (run, .stop _) => request.BreaksOff first run.draft log

private theorem Scheduled.after {result : Run σ × LevelStep σ}
    (earlier : request.Continues first middle log) (sameBatches : middle.batches = first.batches)
    (scheduled : Scheduled request middle more result) :
    Scheduled request first (log ++ more) result := by
  rcases result with ⟨run, outcome⟩
  cases outcome with
  | more level =>
      rcases scheduled with ⟨last, continues, tracks, same⟩
      exact ⟨last, earlier.trans continues, tracks, same.trans sameBatches⟩
  | done next =>
      rcases scheduled with ⟨last, continues, rests⟩
      exact ⟨last, earlier.trans continues, sameBatches ▸ rests⟩
  | stop abort => exact Request.BreaksOff.after earlier scheduled

private theorem finish_scheduled {task : FieldTask} {resolution : Resolution}
    (accounts : first.Accounts request roots) (draft : first.draft = run.draft)
    (waiting : first.waiting = level.waiting)
    (flying : first.inFlight =
      task ::ₘ ((level.inFlight.map InFlight.task : List FieldTask) : Multiset FieldTask))
    (next : first.next = level.next) :
    Scheduled request first [.completion (run.draft.tree.path task.node)]
      (finish request run level task resolution) := by
  rw [finish]
  cases finished : request.finish task resolution run.draft with
  | error reason => exact .answered draft (flying ▸ Multiset.mem_cons_self _ _)
  | ok expanded =>
      rcases expanded with ⟨later, produced⟩
      rw [← draft] at finished ⊢
      refine ⟨first.finish later task _ produced,
        ⟨.single (.finish flying finished), Schedule.log_finish accounts flying finished⟩,
        ⟨rfl, waiting, rfl, ?_⟩, rfl⟩
      rw [← next]
      rfl

private theorem dispatch_scheduled {task : FieldTask} (accounts : first.Accounts request roots)
    (draft : first.draft = run.draft) (isNext : first.waiting = task :: level.waiting)
    (inFlight : first.inFlight = ((level.inFlight.map InFlight.task : List FieldTask) :
      Multiset FieldTask))
    (next : first.next = level.next) (room : level.inFlight.length < request.inFlightBound) :
    Scheduled request first (dispatchLog request application run task)
      (dispatch request application run level task) := by
  have hasRoom : first.inFlight.card < request.inFlightBound := by
    rwa [inFlight, Multiset.coe_card, List.length_map]
  rw [dispatchLog_eq, dispatch]
  cases lost : run.draft.tree.isDiscarded task.node with
  | true =>
      have dropped : request.Continues first (first.drop task level.waiting) [] :=
        ⟨.single (.drop isNext hasRoom (draft ▸ lost)), by simp [Schedule.log_drop]⟩
      exact ⟨_, dropped, ⟨draft, rfl, inFlight, next⟩, rfl⟩
  | false =>
      have move : request.Moves first (first.start task level.waiting) :=
        .start isNext hasRoom (draft ▸ lost)
      have started : request.Continues first (first.start task level.waiting)
          [.start (run.draft.tree.path task.node)] := by
        refine ⟨.single move, ?_⟩
        rw [Schedule.log_start, draft]
      simp only [Bool.false_eq_true, if_false]
      cases run.world.check request.token with
      | mk interruption world =>
          cases interruption with
          | some interruption => exact .here draft
          | none =>
              simp only
              cases request.start application (run.draft.tree.path task.node) task.toFieldCall
                  world with
              | mk result world =>
                  cases result with
                  | resolved resolution =>
                      have finishes : Scheduled request (first.start task level.waiting)
                          [.completion (run.draft.tree.path task.node)]
                          (finish request { run with world := world } level task resolution) :=
                        finish_scheduled (accounts.move move) draft rfl
                          (congrArg (task ::ₘ ·) inFlight) next
                      exact .after started rfl finishes
                  | suspended delay wake =>
                      refine ⟨_, started, ⟨draft, rfl, ?_, next⟩, rfl⟩
                      rw [tasks_concat]
                      exact congrArg (task ::ₘ ·) inFlight

private theorem await_scheduled (accounts : first.Accounts request roots)
    (tracks : level.Tracks first run) (idle : level.inFlight = [] → level.waiting = []) :
    Scheduled request first (awaitLog request run level) (await request run level) := by
  rw [awaitLog_eq, await]
  cases run.world.interrupted request.token with
  | mk interruption world =>
      cases interruption with
      | some interruption => exact .here tracks.draft
      | none =>
          simp only
          cases taken : InFlight.takeFirst level.inFlight with
          | none =>
              have nothing := InFlight.takeFirst_none taken
              exact ⟨first, .refl request first, tracks.draft, rfl,
                tracks.waiting.trans (idle nothing), tracks.nobody nothing, tracks.next⟩
          | some found =>
              rcases found with ⟨earliest, others⟩
              simp only
              cases world.waitUntil request.token earliest.due with
              | mk interruption later =>
                  cases interruption with
                  | some interruption => exact .here tracks.draft
                  | none =>
                      simp only
                      rw [complete]
                      cases earliest.wake later with
                      | mk outcome woken =>
                          simp only
                          cases woken.check request.token with
                          | mk interruption last =>
                              cases interruption with
                              | some interruption =>
                                  exact .answered tracks.draft
                                    (tracks.taken taken ▸ Multiset.mem_cons_self _ _)
                              | none =>
                                  exact finish_scheduled accounts tracks.draft tracks.waiting
                                    (tracks.taken taken) tracks.next

private theorem step_scheduled (accounts : first.Accounts request roots)
    (tracks : level.Tracks first run) :
    Scheduled request first (level.stepLog request application run)
      (level.step request application run) := by
  rw [stepLog_eq, step]
  cases isWaiting : level.waiting with
  | nil => exact await_scheduled accounts tracks fun _ => isWaiting
  | cons task waiting =>
      simp only
      split
      · rename_i room
        have dispatched : Scheduled request first (dispatchLog request application run task)
            (dispatch request application run { level with waiting := waiting } task) :=
          dispatch_scheduled accounts tracks.draft (tracks.waiting.trans isWaiting)
            tracks.inFlight tracks.next room
        exact dispatched
      · rename_i full
        apply await_scheduled accounts tracks
        intro nothing
        rw [nothing] at full
        exact absurd (Nat.lt_of_lt_of_le Nat.one_pos (Nat.le_max_left _ _)) full

/-- What the steps of a level are for its schedule. -/
private def Passes (request : Request) (first : Schedule) (log : List Occurrence) :
    Run σ × Except Abort (List FieldTask) → Prop
  | (run, .ok next) => ∃ last, request.Continues first last log ∧
      last.Rests run.draft first.batches next
  | (run, .error _) => request.BreaksOff first run.draft log

private theorem Passes.after {result : Run σ × Except Abort (List FieldTask)}
    (earlier : request.Continues first middle log) (sameBatches : middle.batches = first.batches)
    (passes : Passes request middle more result) : Passes request first (log ++ more) result := by
  rcases result with ⟨run, result⟩
  cases result with
  | ok next =>
      rcases passes with ⟨last, continues, rests⟩
      exact ⟨last, earlier.trans continues, sameBatches ▸ rests⟩
  | error abort => exact Request.BreaksOff.after earlier passes

private theorem runSteps_passes (steps : Nat) (accounts : first.Accounts request roots)
    (tracks : level.Tracks first run) :
    Passes request first (level.runStepsLog request application steps run)
      (level.runSteps request application steps run) := by
  induction steps generalizing first run level with
  | zero => exact .here tracks.draft
  | succ steps induction =>
      have scheduled : Scheduled request first (level.stepLog request application run)
          (level.step request application run) := step_scheduled accounts tracks
      rw [runStepsLog_succ, runSteps]
      cases isStep : level.step request application run with
      | mk later outcome =>
          rw [isStep] at scheduled
          cases outcome with
          | stop abort =>
              rw [List.append_nil]
              exact scheduled
          | done next =>
              rw [List.append_nil]
              exact scheduled
          | more remaining =>
              rcases scheduled with ⟨middle, continues, tracking, sameBatches⟩
              exact .after continues sameBatches
                (induction (Request.Schedules.accounts continues.1 accounts) tracking)

private theorem run_passes {tasks : List FieldTask} {batches : List (List FieldTask)}
    (accounts : first.Accounts request roots) (begins : first.Begins run.draft batches tasks) :
    Passes request first (runLog request application run tasks)
      (Level.run request application run tasks) :=
  runSteps_passes _ accounts ⟨begins.draft, begins.waiting, begins.inFlight, begins.next⟩

end Level

/-! ## Strategies -/

namespace Request

variable {request : Request} {application : Application σ} {roots : List FieldTask}
  {first : Schedule} {batches : List (List FieldTask)}

private theorem begins_of_rests {draft : Draft} {next : List FieldTask}
    (rests : first.Rests draft batches next) :
    ∃ last, request.Continues first last [] ∧ last.Begins draft batches next := by
  cases next with
  | nil =>
      exact ⟨first, .refl request first,
        rests.draft, rests.batches, rests.waiting, rests.inFlight, rests.next⟩
  | cons task tasks =>
      have more : first.next ≠ [] := by
        rw [rests.next]
        exact List.cons_ne_nil _ _
      exact ⟨first.descend,
        ⟨.single (.descend rests.waiting rests.inFlight more), (List.append_nil _).symm⟩,
        rests.draft, rests.batches, rests.next, rests.inFlight, rfl⟩

/-- What running tasks with everything under them is for a schedule. -/
private def Completes (request : Request) (first : Schedule) (log : List Occurrence)
    (batches : List (List FieldTask)) : Run σ × Option Abort → Prop
  | (run, none) => ∃ last, request.Continues first last log ∧ last.Rests run.draft batches []
  | (run, some _) => request.BreaksOff first run.draft log

private theorem Completes.after {middle : Schedule} {log more : List Occurrence}
    {result : Run σ × Option Abort} (earlier : request.Continues first middle log)
    (completes : request.Completes middle more batches result) :
    request.Completes first (log ++ more) batches result := by
  rcases result with ⟨run, abort⟩
  cases abort with
  | none =>
      rcases completes with ⟨last, continues, rests⟩
      exact ⟨last, earlier.trans continues, rests⟩
  | some abort => exact BreaksOff.after earlier completes

private theorem runLevels_completes (levels : Nat) {run : Run σ} {tasks : List FieldTask}
    (accounts : first.Accounts request roots) (begins : first.Begins run.draft batches tasks) :
    request.Completes first (request.levelsLog application levels run tasks) batches
      (request.runLevels application levels run tasks) := by
  induction levels generalizing first run tasks with
  | zero =>
      cases tasks with
      | nil =>
          exact ⟨first, .refl request first,
            begins.draft, begins.batches, begins.waiting, begins.inFlight, begins.next⟩
      | cons task tasks => exact .here begins.draft
  | succ levels induction =>
      cases tasks with
      | nil =>
          exact ⟨first, .refl request first,
            begins.draft, begins.batches, begins.waiting, begins.inFlight, begins.next⟩
      | cons task tasks =>
          have passes : Level.Passes request first
              (Level.runLog request application run (task :: tasks))
              (Level.run request application run (task :: tasks)) :=
            Level.run_passes accounts begins
          rw [levelsLog_succ, runLevels]
          cases isLevel : Level.run request application run (task :: tasks) with
          | mk later result =>
              rw [isLevel] at passes
              cases result with
              | error abort =>
                  rw [List.append_nil]
                  exact passes
              | ok next =>
                  rcases passes with ⟨landed, continues, rests⟩
                  rcases begins_of_rests (begins.batches ▸ rests) with ⟨middle, descends, again⟩
                  have reaches : request.Continues first middle
                      (Level.runLog request application run (task :: tasks)) := by
                    have both := continues.trans descends
                    rwa [List.append_nil] at both
                  have further : request.Completes middle
                      (request.levelsLog application levels later next) batches
                      (request.runLevels application levels later next) :=
                    induction (Schedules.accounts reaches.1 accounts) again
                  exact .after reaches further

/-- The next batch is run with everything under it. -/
private theorem batch_completes {run : Run σ} {batch : List FieldTask}
    (accounts : first.Accounts request roots)
    (rests : first.Rests run.draft (batch :: batches) []) :
    request.Completes first (request.levelsLog application request.depth run batch) batches
      (request.runLevels application request.depth run batch) := by
  have taken : request.Continues first (first.takeUp batch batches) [] :=
    ⟨.single (.takeUp rests.waiting rests.inFlight rests.next rests.batches),
      (List.append_nil _).symm⟩
  have begins : (first.takeUp batch batches).Begins run.draft batches batch :=
    ⟨rests.draft, rfl, rfl, rests.inFlight, rests.next⟩
  exact .after taken (runLevels_completes _ (Schedules.accounts taken.1 accounts) begins)

private theorem runEach_completes {tasks : List FieldTask} {run : Run σ}
    (accounts : first.Accounts request roots)
    (rests : first.Rests run.draft (tasks.map fun task => [task]) []) :
    request.Completes first (request.eachLog application tasks run) []
      (request.runEach application tasks run) := by
  induction tasks generalizing first run with
  | nil => exact ⟨first, .refl request first, rests⟩
  | cons task tasks induction =>
      have levels : request.Completes first
          (request.levelsLog application request.depth run [task])
          (tasks.map fun task => [task])
          (request.runLevels application request.depth run [task]) :=
        batch_completes accounts rests
      rw [eachLog_cons, runEach]
      cases isRun : request.runLevels application request.depth run [task] with
      | mk later abort =>
          rw [isRun] at levels
          cases abort with
          | some abort =>
              rw [List.append_nil]
              exact levels
          | none =>
              rcases levels with ⟨landed, continues, stillRests⟩
              exact .after continues
                (induction (Schedules.accounts continues.1 accounts) stillRests)

/-- An execution is a schedule whose log tells what happens in it, and which comes to its end unless
the execution is aborted. An abort may keep the task that was answered last from being finished. -/
def PlaysOut (request : Request) (first : Schedule) (log : List Occurrence) :
    Run σ × Except Abort Json → Prop
  | (run, .ok _) => ∃ last, request.Schedules first last ∧ last.Done ∧ last.draft = run.draft ∧
      last.log = log
  | (run, .error _) => ∃ last, request.Schedules first last ∧ last.draft = run.draft ∧
      (log = last.log ∨
        ∃ task ∈ last.inFlight, log = last.log ++ [.completion (run.draft.tree.path task.node)])

private theorem playsOut_of_completes {draft : Draft} {batches : List (List FieldTask)}
    {log : List Occurrence} {result : Run σ × Option Abort}
    (completes : request.Completes (.initial draft batches) log [] result) :
    request.PlaysOut (.initial draft batches) log (dataOf result) := by
  have nothing : (Schedule.initial draft batches).log = [] := rfl
  rcases result with ⟨run, abort⟩
  cases abort with
  | none =>
      rcases completes with ⟨last, continues, rests⟩
      exact ⟨last, continues.1, ⟨rests.batches, rests.waiting, rests.inFlight, rests.next⟩,
        rests.draft, by rw [continues.2, nothing, List.nil_append]⟩
  | some abort =>
      rcases completes with ⟨last, part, continues, sameDraft, told⟩
      refine ⟨last, continues.1, sameDraft, ?_⟩
      rwa [continues.2, nothing, List.nil_append]

/-- What happens in a level-by-level execution. -/
def parallelLog (request : Request) (application : Application σ) (rootValue : FieldValue)
    (world : World σ) : List Occurrence :=
  (request.parallelTrace application rootValue world).filterMap TraceEvent.occurrence?

private theorem executeParallel_playsOut (application : Application σ) (rootValue : FieldValue)
    (world : World σ) :
    request.PlaysOut
      (.initial (request.rootTasks rootValue).1 [(request.rootTasks rootValue).2])
      (request.parallelLog application rootValue world)
      (request.executeParallel application rootValue world) :=
  playsOut_of_completes (batch_completes
    (Schedule.initial_accounts List.flatten_singleton) ⟨rfl, rfl, rfl, rfl, rfl⟩)

theorem executeSerial_playsOut (application : Application σ) (rootValue : FieldValue)
    (world : World σ) :
    request.PlaysOut
      (.initial (request.rootTasks rootValue).1
        ((request.rootTasks rootValue).2.map fun task => [task]))
      (request.serialLog application rootValue world)
      (request.executeSerial application rootValue world) := by
  have divided : ((request.rootTasks rootValue).2.map fun task => [task]).flatten =
      (request.rootTasks rootValue).2 := by
    rw [← List.flatMap_def, List.flatMap_singleton']
  exact playsOut_of_completes (runEach_completes (Schedule.initial_accounts divided)
    ⟨rfl, rfl, rfl, rfl, rfl⟩)

/-- Scheduling loses no task, repeats none and keeps to the bound on what is in flight. This holds
of every order in which suspended resolvers may answer, and however the top-level tasks are divided
into batches; both strategies are such schedules, and call the resolvers that their traces tell
of. -/
theorem tasks_scheduled (request : Request) (rootValue : FieldValue) :
    (∀ batches : List (List FieldTask), batches.flatten = (request.rootTasks rootValue).2 →
      ∀ schedule,
        request.Schedules (.initial (request.rootTasks rootValue).1 batches) schedule →
          schedule.inFlight.card ≤ max 1 request.maxParallelism ∧
          (schedule.started : Multiset FieldTask) = schedule.finished + schedule.inFlight ∧
          (schedule.started.map FieldTask.node).Nodup ∧
          (schedule.finished.map FieldTask.node).Nodup ∧
          Schedule.Levelled schedule.events ∧
          (schedule.Done →
            ∀ task ∈ (request.rootTasks rootValue).2 ++ schedule.produced,
              task ∈ schedule.started ∧ task ∈ schedule.finished ∨
              task ∉ schedule.started ∧
                request.Drops (.initial (request.rootTasks rootValue).1 batches) task
                  schedule)) ∧
    ∀ (application : Application σ) (world : World σ),
      request.PlaysOut
        (.initial (request.rootTasks rootValue).1 [(request.rootTasks rootValue).2])
        (request.parallelLog application rootValue world)
        (request.executeParallel application rootValue world) ∧
      request.PlaysOut
        (.initial (request.rootTasks rootValue).1
          ((request.rootTasks rootValue).2.map fun task => [task]))
        (request.serialLog application rootValue world)
        (request.executeSerial application rootValue world) ∧
      ∀ notes,
        request.executeParallel application.noted rootValue (world.noting notes) =
          Level.ran (request.executeParallel application rootValue world)
            (notes ++ TraceEvent.calls (request.parallelTrace application rootValue world)) ∧
        request.executeSerial application.noted rootValue (world.noting notes) =
          Level.ran (request.executeSerial application rootValue world)
            (notes ++ TraceEvent.calls (request.serialTrace application rootValue world)) := by
  refine ⟨fun batches divided schedule schedules => ?_, fun application world =>
    ⟨executeParallel_playsOut application rootValue world,
      executeSerial_playsOut application rootValue world, fun notes =>
        ⟨request.executeParallel_noted application rootValue world notes,
          request.executeSerial_noted application rootValue world notes⟩⟩⟩
  have books := Schedule.initial_accounts divided
  have accounts := Schedules.accounts schedules books
  have layered := Schedules.layered schedules books (Schedule.initial_layered _ batches)
  refine ⟨accounts.room, accounts.flying, accounts.distinct_started, accounts.distinct_finished,
    layered.levelled, fun done task isGiven => ?_⟩
  rcases accounts.settled_of_done done isGiven with settled | isDropped
  · exact .inl settled
  · exact .inr ⟨accounts.not_started_of_dropped isDropped,
      drops_of_dropped schedules rfl isDropped⟩

end Request

namespace Waves

/-! Three fields that take their time, with room for two. -/

def query : NamedType where
  key := .custom 0
  name := "Query"
  shape := .object { fields := [{ name := "slow", type := .named "Int", resolver := some 0 }] }

def selected (key : String) : Selection := .field ⟨⟨1, 1⟩, some key, "slow", [], [], []⟩

def request : Request where
  registry := ⟨Scalar.all ++ [query], query, none, none, [], []⟩
  document := ⟨[]⟩
  operation := ⟨⟨1, 1⟩, .query, none, [], [], [selected "a", selected "b", selected "c"]⟩
  variableValues := []
  token := ⟨0, none⟩
  maxParallelism := 2
  depth := 1

def application : Application Unit where
  resolve _ _ world := (.suspended 30 fun world => (.value (.json .null), world), world)
  subscribe _ _ world := (.panic none, world)

private theorem logged :
    request.parallelLog application .null { state := () } =
      [.start [.key "a"], .start [.key "b"], .completion [.key "a"], .start [.key "c"],
        .completion [.key "b"], .completion [.key "c"]] := by
  decide +kernel

private theorem executed :
    (request.executeParallel application .null { state := () }).2.isOk = true := by
  decide +kernel

def calls : List Call :=
  [.resolver 0 [.key "a"], .resolver 0 [.key "b"], .wake [.key "a"], .resolver 0 [.key "c"],
    .wake [.key "b"], .wake [.key "c"]]

private theorem called :
    TraceEvent.calls (request.parallelTrace application .null { state := () }) = calls := by
  decide +kernel

end Waves

/-- The third field is started when the first is finished, and in the end no field is left. -/
theorem Request.tasks_scheduled_of_waves :
    (∃ schedule,
      Waves.request.Schedules
        (.initial (Waves.request.rootTasks .null).1 [(Waves.request.rootTasks .null).2]) schedule ∧
      schedule.Done ∧ (schedule.started.map FieldTask.node).Nodup ∧
      schedule.log = [.start [.key "a"], .start [.key "b"], .completion [.key "a"],
        .start [.key "c"], .completion [.key "b"], .completion [.key "c"]]) ∧
    (Waves.request.executeParallel Waves.application.noted .null
      (World.noting { state := () } [])).1.world.notes = Waves.calls := by
  have scheduled := @Request.tasks_scheduled Unit Waves.request .null
  have strategies := scheduled.2 Waves.application { state := () }
  have executed := Waves.executed
  rw [(strategies.2.2 []).1]
  -- Nothing else is known of the run, so that it is not evaluated once more.
  generalize Waves.request.executeParallel Waves.application .null { state := () } = result
    at strategies executed ⊢
  refine ⟨?_, ?_⟩
  · rcases result with ⟨run, data⟩
    cases data with
    | error abort => cases executed
    | ok data =>
        rcases strategies.1 with ⟨schedule, schedules, done, _, log⟩
        have facts := scheduled.1 _ List.flatten_singleton schedule schedules
        exact ⟨schedule, schedules, done, facts.2.2.1, log.trans Waves.logged⟩
  · rw [Level.notes_ran, List.nil_append, Waves.called]

end GraphQL
