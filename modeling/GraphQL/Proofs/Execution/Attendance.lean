import GraphQL.Proofs.Execution.Dispatching
import GraphQL.Proofs.Execution.Supervision

/-!
Both strategies are supervised schedules: what they do step by step, and how they end, is what their
schedules do under the token.
-/

namespace GraphQL

variable {σ : Type}

/-! ## Applications -/

/-- Resolvers take back neither time nor signals, neither when they are called nor when they are
woken. -/
structure Application.Advances (application : Application σ) : Prop where
  called : ∀ (resolver : Nat) (invocation : Invocation) (world : World σ),
    world.Later (application.resolve resolver invocation world).2
  woken : ∀ {resolver invocation delay wake} {world later : World σ},
    application.resolve resolver invocation world = (.suspended delay wake, later) →
    ∀ woken : World σ, woken.Later (wake woken).2

/-- A promise that moves the world on once it is woken. -/
abbrev Onward (wake : World σ → Outcome FieldValue × World σ) : Prop :=
  ∀ woken : World σ, woken.Later (wake woken).2

/-- Starting a field moves the world on. -/
private def StartsOnward (world : World σ) : Request.Started σ × World σ → Prop
  | (.resolved _, later) => world.Later later
  | (.suspended _ wake, later) => world.Later later ∧ Onward wake

namespace Request

variable {request : Request} {application : Application σ}

private theorem start_onward (advances : application.Advances) (path : Path) (call : FieldCall)
    (world : World σ) : StartsOnward world (request.start application path call world) := by
  have starts := start_starts request application call path world
  generalize request.start application path call world = result at starts ⊢
  cases starts with
  | alone => exact World.Later.refl world
  | @ready resolver invocation _ _ _ replied =>
      have called := advances.called resolver invocation world
      rw [replied] at called
      exact called
  | @suspended resolver invocation _ _ _ _ replied =>
      have called := advances.called resolver invocation world
      rw [replied] at called
      exact ⟨called, advances.woken replied⟩

end Request

/-! ## Levels -/

namespace Stage

/-- A level begins. -/
structure Opens (stage : Stage σ) (run : Run σ) (batches : List (List FieldTask))
    (tasks : List FieldTask) : Prop where
  schedule : stage.schedule.Begins run.draft batches tasks
  world : stage.world = run.world
  phase : stage.phase = .entering tasks

/-- A level is over. -/
structure Closes (stage : Stage σ) (run : Run σ) (batches : List (List FieldTask))
    (next : List FieldTask) : Prop where
  schedule : stage.schedule.Rests run.draft batches next
  world : stage.world = run.world
  phase : stage.phase = .between

/-- What an abort is for a schedule. Fields that are nested too deep are not taken up. -/
private def Fails (stage : Stage σ) : Abort → Prop
  | .tooDeep => stage.phase.interruption? = none
  | abort => stage.phase = .ended abort

/-- The stage is that of a level on its way, whose promises move the world on. -/
structure Holds (stage : Stage σ) (run : Run σ) (batches : List (List FieldTask))
    (level : Level σ) : Prop where
  tracks : level.Tracks stage.schedule run
  batches : stage.schedule.batches = batches
  world : stage.world = run.world
  phase : stage.phase = .within
  onward : ∀ flying ∈ level.inFlight, Onward flying.wake

/-- Where a step of a level leads to. -/
private def AfterStep (batches : List (List FieldTask)) (stage : Stage σ) :
    Run σ × LevelStep σ → Prop
  | (run, .more level) => stage.Holds run batches level
  | (run, .done next) => stage.Closes run batches next
  | (_, .stop abort) => stage.Fails abort

/-- Where a level leads to. -/
private def AfterLevel (batches : List (List FieldTask)) (stage : Stage σ) :
    Run σ × Except Abort (List FieldTask) → Prop
  | (run, .ok next) => stage.Closes run batches next
  | (_, .error abort) => stage.Fails abort

/-- Where tasks lead to with everything under them. -/
private def AfterLevels (batches : List (List FieldTask)) (stage : Stage σ) :
    Run σ × Option Abort → Prop
  | (run, none) => stage.Closes run batches []
  | (_, some abort) => stage.Fails abort

variable {stage : Stage σ} {run : Run σ} {batches : List (List FieldTask)}

theorem Fails.interruption {abort : Abort} (fails : stage.Fails abort) :
    stage.phase.interruption? = abort.interruption? := by
  cases abort with
  | tooDeep => exact fails
  | interrupted | panicked =>
      have ended : stage.phase = .ended _ := fails
      rw [ended]
      rfl

private theorem Opens.closes (opens : stage.Opens run batches []) :
    stage.Closes run batches [] where
  schedule :=
    ⟨opens.schedule.draft, opens.schedule.batches, opens.schedule.waiting, opens.schedule.inFlight,
      opens.schedule.next⟩
  world := opens.world
  phase := opens.phase

private theorem Opens.holds {task : FieldTask} {tasks : List FieldTask}
    (opens : stage.Opens run batches (task :: tasks)) :
    stage.Holds run batches { waiting := task :: tasks } where
  tracks :=
    ⟨opens.schedule.draft, opens.schedule.waiting, opens.schedule.inFlight, opens.schedule.next⟩
  batches := opens.schedule.batches
  world := opens.world
  phase := opens.phase
  onward := nofun

end Stage

namespace Request

/-- What is done leads to a stage of some kind. -/
def Leads (request : Request) (first : Stage σ) (log : List Activity)
    (reached : Stage σ → Prop) : Prop :=
  ∃ last, request.Goes first log last ∧ reached last

variable {request : Request} {first middle last : Stage σ} {log more : List Activity}
  {reached : Stage σ → Prop}

private theorem Leads.single (proceeds : request.Proceeds first log last)
    (isReached : reached last) :
    request.Leads first log reached :=
  ⟨last, .single proceeds, isReached⟩

private theorem Goes.leads (earlier : request.Goes first log middle)
    (leads : request.Leads middle more reached) : request.Leads first (log ++ more) reached := by
  rcases leads with ⟨last, later, isReached⟩
  exact ⟨last, earlier.trans later, isReached⟩

end Request

namespace Level

variable {request : Request} {application : Application σ} {stage : Stage σ}
  {run : Run σ} {batches : List (List FieldTask)} {level : Level σ}

private theorem finish_attended {task : FieldTask} {resolution : Resolution}
    (draft : stage.schedule.draft = run.draft) (waiting : stage.schedule.waiting = level.waiting)
    (flying : stage.schedule.inFlight =
      task ::ₘ ((level.inFlight.map InFlight.task : List FieldTask) : Multiset FieldTask))
    (next : stage.schedule.next = level.next) (sameBatches : stage.schedule.batches = batches)
    (world : stage.world = run.world) (phase : stage.phase = .answered task resolution)
    (onward : ∀ flying ∈ level.inFlight, Onward flying.wake) :
    request.Leads stage [.finish (stage.path task)]
      (·.AfterStep batches (finish request run level task resolution)) := by
  rw [finish]
  cases finished : request.finish task resolution run.draft with
  | error reason =>
      rw [← draft] at finished
      exact .single (.panic phase finished) rfl
  | ok expanded =>
      rcases expanded with ⟨later, produced⟩
      rw [← draft] at finished
      have nextTasks : stage.schedule.next ++ produced = level.next ++ produced := by
        rw [next]
      exact .single (.finish phase flying finished)
        ⟨⟨rfl, waiting, rfl, nextTasks⟩, sameBatches, world, rfl, onward⟩

private theorem dispatch_attended {task : FieldTask} {waiting : List FieldTask}
    (advances : application.Advances) (holds : stage.Holds run batches level)
    (isNext : level.waiting = task :: waiting)
    (room : level.inFlight.length < request.inFlightBound) :
    request.Leads stage (dispatchActivity request application run task)
      (·.AfterStep batches
        (dispatch request application run { level with waiting := waiting } task)) := by
  rcases run with ⟨draft, world⟩
  rcases holds with ⟨⟨rfl, sameWaiting, inFlight, next⟩, sameBatches, rfl, phase, onward⟩
  have offers : stage.Offers request task waiting := by
    refine ⟨phase, sameWaiting.trans isNext, ?_⟩
    rwa [inFlight, Multiset.coe_card, List.length_map]
  rw [dispatchActivity_eq, dispatch]
  cases lost : stage.schedule.draft.tree.isDiscarded task.node with
  | true =>
      exact .single (.drop offers lost)
        ⟨⟨rfl, rfl, inFlight, next⟩, sameBatches, rfl, phase, onward⟩
  | false =>
      simp only [Bool.false_eq_true, if_false]
      cases checked : stage.world.check request.token with
      | mk found cleared =>
          cases found with
          | some interruption => exact .single (.refuse offers lost checked) rfl
          | none =>
              have starts := request.start_onward advances (stage.path task) task.toFieldCall
                cleared
              simp only
              rw [Stage.path] at starts
              cases started : request.start application (stage.schedule.draft.tree.path task.node)
                  task.toFieldCall cleared with
              | mk result later =>
                  rw [started] at starts
                  cases result with
                  | resolved resolution =>
                      have answers : request.Goes stage [.check none, .start (stage.path task)]
                          { stage with
                            schedule := stage.schedule.start task waiting
                            world := later
                            phase := .answered task resolution } :=
                        .single (.answer offers lost checked starts)
                      have flying := congrArg (task ::ₘ ·) inFlight
                      exact answers.leads
                        (finish_attended rfl rfl flying next sameBatches rfl rfl onward)
                  | suspended delay wake =>
                      refine .single (.suspend offers lost checked starts.1)
                        ⟨⟨rfl, rfl, ?_, next⟩, sameBatches, rfl, phase, ?_⟩
                      · rw [tasks_concat]
                        exact congrArg (task ::ₘ ·) inFlight
                      · exact List.forall_mem_append.mpr
                          ⟨onward, List.forall_mem_singleton.mpr starts.2⟩

/-- The first resolver to answer is woken, while its level waits. -/
private theorem complete_attended {earliest : InFlight σ} {others : List (InFlight σ)}
    (holds : stage.Holds run batches level)
    (taken : InFlight.takeFirst level.inFlight = some (earliest, others))
    (waits : stage.Waits request) (live : run.world.isInterrupted request.token = false) :
    request.Leads stage (.check none :: completeActivity request run earliest)
      (·.AfterStep batches (complete request run { level with inFlight := others } earliest)) := by
  have flying := holds.tracks.taken taken
  rcases run with ⟨draft, world⟩
  rcases holds with ⟨⟨rfl, waiting, inFlight, next⟩, sameBatches, rfl, phase, onward⟩
  have same := InFlight.takeFirst_perm taken
  have wakes : request.Goes stage [.check none] { stage with phase := .woken earliest.task } :=
    .single (.wake waits flying (World.interrupted_of_live live))
  have goesOn := onward earliest (same.mem_iff.mpr List.mem_cons_self) stage.world
  have completes : request.Leads
      { stage with world := (earliest.wake stage.world).2, phase := .woken earliest.task }
      (completeActivity request ⟨stage.schedule.draft, stage.world⟩ earliest)
      (·.AfterStep batches (complete request ⟨stage.schedule.draft, stage.world⟩
        { level with inFlight := others } earliest)) := by
    rw [completeActivity_eq, complete]
    cases earliest.wake stage.world with
    | mk outcome world =>
        simp only
        cases checked : world.check request.token with
        | mk found cleared =>
            cases found with
            | some interruption => exact .single (.reject rfl checked) rfl
            | none =>
                have accepts : request.Goes
                    { stage with world := world, phase := .woken earliest.task } [.check none]
                    { stage with
                      world := cleared
                      phase := .answered earliest.task (.outcome outcome) } :=
                  .single (.accept rfl checked)
                exact accepts.leads (finish_attended rfl waiting flying next sameBatches rfl rfl
                  fun other member =>
                    onward other (same.mem_iff.mpr (List.mem_cons_of_mem _ member)))
  exact (wakes.passed goesOn).leads completes

private theorem nowhere_of_nothing {waiting : List FieldTask} {flying : List (InFlight σ)}
    (idle : waiting = [] ∨ request.inFlightBound ≤ flying.length) (nothing : flying = []) :
    waiting = [] := by
  refine idle.resolve_right fun full => ?_
  rw [nothing] at full
  exact absurd (Nat.le_max_left 1 request.maxParallelism)
    (Nat.not_le.mpr (Nat.lt_of_le_of_lt full Nat.one_pos))

private theorem await_attended (holds : stage.Holds run batches level)
    (known : request.token.signal < stage.world.signals.length)
    (idle : level.waiting = [] ∨ request.inFlightBound ≤ level.inFlight.length) :
    request.Leads stage (awaitActivity request run level)
      (·.AfterStep batches (await request run level)) := by
  rcases run with ⟨draft, world⟩
  have waits : stage.Waits request := by
    refine ⟨holds.phase, ?_⟩
    rwa [holds.tracks.waiting, holds.tracks.inFlight, Multiset.coe_card, List.length_map]
  have tracks := holds.tracks
  rcases holds with ⟨⟨rfl, waiting, inFlight, next⟩, sameBatches, rfl, phase, onward⟩
  rw [awaitActivity_eq, await]
  cases checked : stage.world.interrupted request.token with
  | mk found world =>
      cases found with
      | some interruption => exact .single (.interrupt waits checked) rfl
      | none =>
          rcases World.live_of_interrupted checked with ⟨live, rfl⟩
          simp only
          cases taken : InFlight.takeFirst level.inFlight with
          | none =>
              have nothing := InFlight.takeFirst_none taken
              have nobody := tracks.nobody nothing
              have nowhere := waiting.trans (nowhere_of_nothing idle nothing)
              exact .single (.leave waits nowhere nobody checked)
                ⟨⟨rfl, sameBatches, nowhere, nobody, next⟩, rfl, rfl⟩
          | some found =>
              rcases found with ⟨earliest, others⟩
              have busy : stage.schedule.inFlight ≠ 0 := by
                rw [tracks.taken taken]
                exact Multiset.cons_ne_zero
              have sleeps : request.Goes stage [.check none] stage :=
                .single (.sleep waits busy checked)
              simp only
              cases waited : stage.world.waitUntil request.token earliest.due with
              | mk found later =>
                  cases found with
                  | some interruption =>
                      rcases World.interrupted_of_waitUntil known live waited with
                        ⟨goesOn, disturbed⟩
                      exact (sleeps.passed goesOn).leads
                        (.single (.interrupt waits disturbed) rfl)
                  | none =>
                      rcases World.live_of_waitUntil live waited with ⟨goesOn, stillLive⟩
                      have stillHolds : Stage.Holds { stage with world := later }
                          ⟨stage.schedule.draft, later⟩ batches level :=
                        ⟨⟨rfl, waiting, inFlight, next⟩, sameBatches, rfl, phase, onward⟩
                      exact (sleeps.passed goesOn).leads
                        (complete_attended stillHolds taken waits stillLive)

/-- A step of a level is a few steps of its supervised schedule. -/
private theorem step_attended (advances : application.Advances)
    (holds : stage.Holds run batches level)
    (known : request.token.signal < stage.world.signals.length) :
    request.Leads stage (level.stepActivity request application run)
      (·.AfterStep batches (level.step request application run)) := by
  rw [stepActivity_eq, step]
  cases isWaiting : level.waiting with
  | nil => exact await_attended holds known (.inl isWaiting)
  | cons task waiting =>
      simp only
      split
      · rename_i room
        exact dispatch_attended advances holds isWaiting room
      · rename_i full
        exact await_attended holds known (.inr (Nat.not_lt.mp full))

private theorem runSteps_attended (advances : application.Advances) (steps : Nat)
    (holds : stage.Holds run batches level)
    (known : request.token.signal < stage.world.signals.length) :
    request.Leads stage (level.runStepsActivity request application steps run)
      (·.AfterLevel batches (level.runSteps request application steps run)) := by
  induction steps generalizing stage run level with
  | zero =>
      have goesOn : stage.Fails .tooDeep := by
        rw [Stage.Fails, holds.phase]
        rfl
      exact ⟨stage, .refl, goesOn⟩
  | succ steps induction =>
      have attended : request.Leads stage (level.stepActivity request application run)
          (·.AfterStep batches (level.step request application run)) :=
        step_attended advances holds known
      rw [runStepsActivity_succ, runSteps]
      cases isStep : level.step request application run with
      | mk later outcome =>
          rw [isStep] at attended
          cases outcome with
          | stop abort =>
              rw [List.append_nil]
              exact attended
          | done next =>
              rw [List.append_nil]
              exact attended
          | more remaining =>
              rcases attended with ⟨middle, goes, stillHolds⟩
              exact goes.leads (induction stillHolds (known.trans_le goes.later.known))

end Level

/-! ## Strategies -/

namespace Request

variable {request : Request} {application : Application σ} {first middle : Stage σ}
  {run : Run σ} {batches : List (List FieldTask)} {log more : List Activity}

private theorem opens_of_closes (request : Request) {next : List FieldTask}
    (closes : first.Closes run batches next) :
    ∃ last, request.Goes first [] last ∧ last.Opens run batches next := by
  have rests := closes.schedule
  cases next with
  | nil =>
      exact ⟨first, .refl,
        ⟨rests.draft, rests.batches, rests.waiting, rests.inFlight, rests.next⟩, closes.world,
        closes.phase⟩
  | cons task tasks =>
      have more : first.schedule.next ≠ [] := by
        rw [rests.next]
        exact List.cons_ne_nil _ _
      exact ⟨_, .single (.descend closes.phase rests.waiting rests.inFlight more),
        ⟨rests.draft, rests.batches, rests.next, rests.inFlight, rfl⟩, closes.world, rfl⟩

private theorem runLevels_attended (advances : application.Advances) (levels : Nat)
    {tasks : List FieldTask} (opens : first.Opens run batches tasks)
    (known : request.token.signal < first.world.signals.length) :
    request.Leads first (request.levelsActivity application levels run tasks)
      (·.AfterLevels batches (request.runLevels application levels run tasks)) := by
  induction levels generalizing first run tasks with
  | zero =>
      cases tasks with
      | nil => exact ⟨first, .refl, opens.closes⟩
      | cons task tasks =>
          have goesOn : first.Fails .tooDeep := by
            rw [Stage.Fails, opens.phase]
            rfl
          exact ⟨first, .refl, goesOn⟩
  | succ levels induction =>
      cases tasks with
      | nil => exact ⟨first, .refl, opens.closes⟩
      | cons task tasks =>
          have attended : request.Leads first
              (Level.runActivity request application run (task :: tasks))
              (·.AfterLevel batches (Level.run request application run (task :: tasks))) :=
            Level.runSteps_attended advances _ opens.holds known
          rw [levelsActivity_succ, runLevels]
          cases isLevel : Level.run request application run (task :: tasks) with
          | mk later result =>
              rw [isLevel] at attended
              cases result with
              | error abort =>
                  rw [List.append_nil]
                  exact attended
              | ok next =>
                  rcases attended with ⟨landed, goes, closes⟩
                  rcases opens_of_closes request closes with ⟨middle, descends, again⟩
                  have reaches := goes.trans descends
                  rw [List.append_nil] at reaches
                  exact reaches.leads (induction again (known.trans_le reaches.later.known))

/-- The next batch is run with everything under it. -/
private theorem batch_attended (advances : application.Advances) {batch : List FieldTask}
    (closes : first.Closes run (batch :: batches) [])
    (known : request.token.signal < first.world.signals.length) :
    request.Leads first (request.levelsActivity application request.depth run batch)
      (·.AfterLevels batches (request.runLevels application request.depth run batch)) := by
  have rests := closes.schedule
  have takes : request.Goes first []
      { first with
        schedule := first.schedule.takeUp batch batches
        phase := .entering batch } :=
    .single (.takeUp closes.phase rests.waiting rests.inFlight rests.next rests.batches)
  exact takes.leads (runLevels_attended advances _
    ⟨⟨rests.draft, rfl, rfl, rests.inFlight, rests.next⟩, closes.world, rfl⟩ known)

private theorem runEach_attended (advances : application.Advances) {tasks : List FieldTask}
    (closes : first.Closes run (tasks.map fun task => [task]) [])
    (known : request.token.signal < first.world.signals.length) :
    request.Leads first (request.eachActivity application tasks run)
      (·.AfterLevels [] (request.runEach application tasks run)) := by
  induction tasks generalizing first run with
  | nil => exact ⟨first, .refl, closes⟩
  | cons task tasks induction =>
      have attended : request.Leads first
          (request.levelsActivity application request.depth run [task])
          (·.AfterLevels (tasks.map fun task => [task])
            (request.runLevels application request.depth run [task])) :=
        batch_attended advances closes known
      rw [eachActivity_cons, runEach]
      cases isRun : request.runLevels application request.depth run [task] with
      | mk later abort =>
          rw [isRun] at attended
          cases abort with
          | some abort =>
              rw [List.append_nil]
              exact attended
          | none =>
              rcases attended with ⟨landed, goes, stillCloses⟩
              exact goes.leads (induction stillCloses (known.trans_le goes.later.known))

end Request

namespace Stage

/-- An execution has data when every level is over. Else the schedule says why it has none. -/
def Yields (last : Stage σ) : Except Abort Json → Prop
  | .ok data => last.Over ∧ data = last.schedule.draft.tree.data
  | .error abort => last.Fails abort

private theorem initial_closes (request : Request) (rootValue : FieldValue)
    (batches : List (List FieldTask)) (world : World σ) :
    (initial request rootValue batches world).Closes ⟨(request.rootTasks rootValue).1, world⟩
      batches [] :=
  ⟨⟨rfl, rfl, rfl, rfl, rfl⟩, rfl, rfl⟩

end Stage

namespace Request

variable {request : Request} {application : Application σ} {first : Stage σ}
  {log : List Activity} {world : World σ}

private theorem leads_to_result {result : Run σ × Option Abort}
    (attended : request.Leads first log (·.AfterLevels [] result)) :
    request.Leads first log (·.Yields (dataOf result).2) := by
  rcases result with ⟨run, abort⟩
  cases abort with
  | some abort => exact attended
  | none =>
      rcases attended with ⟨last, goes, ⟨rests, _, phase⟩⟩
      refine ⟨last, goes, ⟨phase, rests.batches, rests.waiting, rests.inFlight, rests.next⟩, ?_⟩
      rw [rests.draft]

theorem executeParallel_yields (advances : application.Advances) (rootValue : FieldValue)
    (known : request.token.signal < world.signals.length) :
    request.Leads (.initial request rootValue [(request.rootTasks rootValue).2] world)
      (request.parallelActivity application rootValue world)
      (·.Yields (request.executeParallel application rootValue world).2) :=
  leads_to_result (batch_attended advances (Stage.initial_closes _ _ _ _) known)

theorem executeSerial_yields (advances : application.Advances) (rootValue : FieldValue)
    (known : request.token.signal < world.signals.length) :
    request.Leads
      (.initial request rootValue ((request.rootTasks rootValue).2.map fun task => [task]) world)
      (request.serialActivity application rootValue world)
      (·.Yields (request.executeSerial application rootValue world).2) :=
  leads_to_result (runEach_attended advances (Stage.initial_closes _ _ _ _) known)

end Request

end GraphQL
