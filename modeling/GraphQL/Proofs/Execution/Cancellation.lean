import GraphQL.Execution.Engine
import GraphQL.Proofs.Execution.Attendance

/-!
What an interrupted token does to an execution: nothing more is started, the next check ends it, and
it has no data.
-/

namespace GraphQL

variable {σ : Type}

/-! ## Levels under an interrupted token -/

namespace Level

variable {request : Request} {run : Run σ} {level : Level σ}

/-- A check finds the interruption, and nothing else is done. -/
def Halts (log : List Activity) (draft : Draft) : Run σ × LevelStep σ → Prop
  | (run, outcome) => ∃ interruption, log = [.check (some interruption)] ∧ run.draft = draft ∧
      outcome = .stop (.interrupted interruption)

private theorem await_halts (interrupted : run.world.isInterrupted request.token = true) :
    Halts (awaitActivity request run level) run.draft (await request run level) := by
  rcases World.wait_of_interrupted interrupted with ⟨interruption, later, found⟩
  rw [awaitActivity_eq, await, found]
  exact ⟨interruption, rfl, rfl, rfl⟩

private theorem complete_halts {earliest : InFlight σ}
    (interrupted : (earliest.wake run.world).2.isInterrupted request.token = true) :
    Halts (completeActivity request run earliest) run.draft
      (complete request run level earliest) := by
  rcases World.check_of_interrupted interrupted with ⟨interruption, later, found⟩
  rw [completeActivity_eq, complete]
  simp only [found]
  exact ⟨interruption, rfl, rfl, rfl⟩

private theorem dispatch_halts (application : Application σ) {task : FieldTask}
    (interrupted : run.world.isInterrupted request.token = true)
    (live : run.draft.tree.isDiscarded task.node = false) :
    Halts (dispatchActivity request application run task) run.draft
      (dispatch request application run level task) := by
  rcases World.check_of_interrupted interrupted with ⟨interruption, later, found⟩
  rw [dispatchActivity_eq, dispatch, live, found]
  exact ⟨interruption, rfl, rfl, rfl⟩

/-- Waiting tasks whose nodes are discarded are passed over. Else the step is a check. -/
private theorem step_halts (application : Application σ)
    (interrupted : run.world.isInterrupted request.token = true) :
    Halts (level.stepActivity request application run) run.draft
        (level.step request application run) ∨
      ∃ lighter : Level σ, lighter.load < level.load ∧
        level.stepActivity request application run = [] ∧
        level.step request application run = (run, .more lighter) := by
  rw [stepActivity_eq, step]
  cases isWaiting : level.waiting with
  | nil => exact .inl (await_halts interrupted)
  | cons task waiting =>
      simp only
      split
      · cases lost : run.draft.tree.isDiscarded task.node with
        | true =>
            refine .inr ⟨{ level with waiting := waiting }, ?_, ?_, ?_⟩
            · simp [load, isWaiting]
            · simp [dispatchActivity_eq, lost]
            · simp [dispatch, lost]
        | false => exact .inl (dispatch_halts application interrupted lost)
      · exact .inl (await_halts interrupted)

/-- One more check is made, and it ends the level. -/
private theorem runSteps_halts (application : Application σ) {steps : Nat}
    (enough : level.load < steps) (interrupted : run.world.isInterrupted request.token = true) :
    ∃ interruption,
      level.runStepsActivity request application steps run = [.check (some interruption)] ∧
      (level.runSteps request application steps run).1.draft = run.draft ∧
      (level.runSteps request application steps run).2 = .error (.interrupted interruption) := by
  induction steps generalizing level with
  | zero => exact absurd enough (Nat.not_lt_zero _)
  | succ steps induction =>
      have first : Halts (level.stepActivity request application run) run.draft _ ∨ _ :=
        step_halts application interrupted
      rw [runStepsActivity_succ, runSteps]
      rcases first with halts | ⟨lighter, less, nothing, isStep⟩
      · cases isStep : level.step request application run with
        | mk later outcome =>
            rw [isStep] at halts
            rcases halts with ⟨interruption, isLog, sameDraft, rfl⟩
            exact ⟨interruption, by rw [isLog, List.append_nil], sameDraft, rfl⟩
      · rw [isStep, nothing]
        exact induction (less.trans_le (Nat.le_of_lt_succ enough))

end Level

/-! ## Requests -/

namespace Request

/-- How the strategy of the operation divides the top-level tasks. -/
def batches (request : Request) (rootValue : FieldValue) : List (List FieldTask) :=
  match request.operation.kind.strategy with
  | .parallel => [(request.rootTasks rootValue).2]
  | .serial => (request.rootTasks rootValue).2.map fun task => [task]
  | .streaming => []

/-- What is done in an execution by the strategy of the operation. -/
def activity (request : Request) (application : Application σ) (rootValue : FieldValue)
    (world : World σ) : List Activity :=
  (request.trace application rootValue world).filterMap TraceEvent.activity?

end Request

namespace ExecutionOutcome

/-- The interruption that a request has failed with. -/
def interruption? : ExecutionOutcome σ → Option Interruption
  | .failed (.interrupted interruption) => some interruption
  | _ => none

def data? : ExecutionOutcome σ → Option Json
  | .completed result _ => result.data
  | _ => none

end ExecutionOutcome

/-- The request has failed with the interruption that ended the schedule, and it has data only when
every level is over. -/
structure Stage.Answers (last : Stage σ) (outcome : ExecutionOutcome σ) : Prop where
  interruption : outcome.interruption? = last.phase.interruption?
  data : ∀ data, outcome.data? = some data → last.Over ∧ data = last.schedule.draft.tree.data

private theorem Stage.Answers.of_failed {last : Stage σ} {outcome : ExecutionOutcome σ}
    (found : outcome.interruption? = last.phase.interruption?) (noData : outcome.data? = none) :
    last.Answers outcome := by
  refine ⟨found, fun data isData => ?_⟩
  rw [noData] at isData
  cases isData

namespace ExecutionOptions

variable {options : ExecutionOptions σ} {request : Request} {world : World σ} {last : Stage σ}

private theorem executeChecked_of_execute {result : Run σ × Except Abort Json}
    (executed : request.execute options.application options.rootValue
      (options.ready request world) =
        (result.1, result.2.map fun data => (.ofExecution (some data) [] none, none)))
    (yields : last.Yields result.2) : last.Answers (options.executeChecked request world).1 := by
  rcases result with ⟨run, result⟩
  rw [ready] at executed
  rw [executeChecked, executed]
  cases result with
  | ok data =>
      rcases yields with ⟨isOver, isData⟩
      refine ⟨?_, ?_⟩
      · rw [isOver.phase]
        rfl
      · intro other same
        cases same
        exact ⟨isOver, isData⟩
  | error abort =>
      have found := Stage.Fails.interruption yields
      cases abort with
      | interrupted interruption => exact .of_failed found.symm rfl
      | tooDeep => exact .of_failed found.symm rfl
      | panicked reason =>
          simp only [Except.map]
          split
          · exact .of_failed found.symm rfl
          · exact .of_failed found.symm rfl

private theorem executeChecked_answers (advances : options.application.Advances)
    (known : request.token.signal < (options.ready request world).signals.length)
    (served : request.operation.kind ≠ .subscription) :
    request.Leads
      (.initial request options.rootValue (request.batches options.rootValue)
        (options.ready request world))
      (request.activity options.application options.rootValue (options.ready request world))
      (·.Answers (options.executeChecked request world).1) := by
  cases kind : request.operation.kind with
  | query =>
      have strategy : request.operation.kind.strategy = .parallel := by
        rw [kind]
        rfl
      rcases Request.executeParallel_yields advances options.rootValue known with
        ⟨last, goes, yields⟩
      rw [Request.batches, Request.activity, Request.trace, strategy]
      refine ⟨last, goes, executeChecked_of_execute ?_ yields⟩
      rw [Request.execute, strategy]
  | mutation =>
      have strategy : request.operation.kind.strategy = .serial := by
        rw [kind]
        rfl
      rcases Request.executeSerial_yields advances options.rootValue known with
        ⟨last, goes, yields⟩
      rw [Request.batches, Request.activity, Request.trace, strategy]
      refine ⟨last, goes, executeChecked_of_execute ?_ yields⟩
      rw [Request.execute, strategy]
  | subscription => exact absurd kind served

end ExecutionOptions

/-- Cancellation stops an execution, and never yields a partial result. Between any two steps the
token may be cancelled or expire, and resolvers may answer anything and in any order. Once the token
is interrupted it stays so, no task is started, and the next check is the last thing that is done.
Only a schedule that has never found it interrupted comes to its end, and then every task is
finished or dropped and nothing that is left of the response is pending. Queries and mutations are
such schedules: they have data only when these have come to their end, and they call the resolvers
that their traces tell of. Wherever a level is, an interruption ends it with a single check. -/
theorem Request.cancellation_stops (request : Request) :
    (∀ (stage last : Stage σ) (log : List Activity),
      stage.world.isInterrupted request.token = true → request.Goes stage log last →
        last.world.isInterrupted request.token = true ∧ stage.WindsDown log last) ∧
    (∀ (rootValue : FieldValue) (batches : List (List FieldTask)),
      batches.flatten = (request.rootTasks rootValue).2 →
      ∀ (world : World σ) (log : List Activity) (last : Stage σ),
        request.Goes (.initial request rootValue batches world) log last →
          Activity.Observed log last.phase.interruption? ∧
          (last.Over → (∀ activity ∈ log, activity.interruption? = none) ∧
            last.Complete (request.rootTasks rootValue).2)) ∧
    (request.operation.kind ≠ .subscription →
      ∀ (options : ExecutionOptions σ) (world : World σ), options.application.Advances →
        request.token.signal < (options.ready request world).signals.length →
        ∃ last, request.Goes
            (.initial request options.rootValue (request.batches options.rootValue)
              (options.ready request world))
            (request.activity options.application options.rootValue
              (options.ready request world))
            last ∧
          last.Answers (options.executeChecked request world).1) ∧
    (request.operation.kind ≠ .subscription →
      ∀ (options : ExecutionOptions σ) (world : World σ) (notes : List Call),
        options.noted.executeChecked request (world.noting notes) =
          ExecutionOptions.concluded (options.executeChecked request world)
            (notes ++ options.calls .beforeExecution ++
              TraceEvent.calls (request.trace options.application options.rootValue
                (options.ready request world)) ++
              options.lastCalls (options.executeChecked request world).1)) ∧
    ∀ (application : Application σ) (run : Run σ) (level : Level σ),
      (run.world.isInterrupted request.token = true → ∀ steps, level.load < steps →
        ∃ interruption,
          level.runStepsActivity request application steps run = [.check (some interruption)] ∧
          (level.runSteps request application steps run).1.draft = run.draft ∧
          (level.runSteps request application steps run).2 =
            .error (.interrupted interruption)) ∧
      ∀ earliest : InFlight σ, (earliest.wake run.world).2.isInterrupted request.token = true →
        Level.Halts (Level.completeActivity request run earliest) run.draft
          (Level.complete request run level earliest) := by
  refine ⟨?_, ?_, ?_, ?_, fun application run level => ⟨?_, ?_⟩⟩
  · intro stage last log interrupted goes
    exact ⟨goes.later.isInterrupted interrupted, goes.windsDown interrupted⟩
  · intro rootValue batches divided world log last goes
    exact ⟨goes.observed rfl, goes.complete divided⟩
  · intro served options world advances known
    exact ExecutionOptions.executeChecked_answers advances known served
  · intro served options world notes
    rw [← request.fieldCalls_of_trace options.application served]
    exact options.executeChecked_noted request world notes
  · intro interrupted steps enough
    exact Level.runSteps_halts application enough interrupted
  · intro earliest interrupted
    exact Level.complete_halts interrupted

namespace Waves

/-! The three slow fields again, under a token that is cancelled on the way, or before. -/

def options : ExecutionOptions Unit where
  token := ⟨0, none⟩
  application := application

private theorem application_advances : application.Advances where
  called _ _ world := .refl world
  woken replied woken := by
    cases replied
    exact .refl woken

def calm : World Unit := { state := (), signals := [false] }

/-- The token is cancelled when the third field has been started. -/
def disturbed : World Unit := { calm with cancelAt := some 40 }

def cancelled : World Unit := { calm with signals := [true] }

/-- A resolver that cancels the request when it answers. -/
def canceller : InFlight Unit where
  task := ⟨⟨"Query", { name := "slow", type := .named "Int" }, [], .null⟩, 1⟩
  due := 30
  wake world := (.value (.json .null), world.cancel request.token)

private theorem calm_outcome : (options.executeChecked request calm).1.data?.isSome = true := by
  decide +kernel

private theorem disturbed_outcome :
    (options.executeChecked request disturbed).1.interruption? = some .cancelled := by
  decide +kernel

private theorem calm_called :
    TraceEvent.calls (request.trace application .null (options.ready request calm)) = calls := by
  decide +kernel

/-- The stage that execution starts from. -/
abbrev first (world : World Unit) : Stage Unit :=
  .initial request .null (request.batches .null) (options.ready request world)

abbrev done (world : World Unit) : List Activity :=
  request.activity application .null (options.ready request world)

end Waves

/-- With data nothing is left pending, and every resolver was called; the disturbed execution ends
in a check; one that was cancelled before makes no more than a check; and a resolver that cancels is
not listened to. -/
theorem Request.cancellation_stops_of_waves :
    (∃ last, Waves.request.Goes (Waves.first Waves.calm) (Waves.done Waves.calm) last ∧
      last.Over ∧ last.Complete (Waves.request.rootTasks .null).2) ∧
    (Waves.options.noted.executeChecked Waves.request (Waves.calm.noting [])).2.notes =
      Waves.calls ∧
    Activity.Observed (Waves.done Waves.disturbed) (some .cancelled) ∧
    (∃ last, Waves.request.Goes (Waves.first Waves.cancelled) (Waves.done Waves.cancelled) last ∧
      (Waves.first Waves.cancelled).WindsDown (Waves.done Waves.cancelled) last) ∧
    (∃ interruption,
      Level.runActivity Waves.request Waves.application ⟨{}, Waves.cancelled⟩
        (Waves.request.rootTasks .null).2 = [.check (some interruption)]) ∧
    ∃ interruption,
      Level.completeActivity Waves.request ⟨{}, Waves.calm⟩ Waves.canceller =
        [.check (some interruption)] := by
  rcases @Request.cancellation_stops Unit Waves.request with
    ⟨interrupted, supervised, executed, noted, halted⟩
  have divided : (Waves.request.batches .null).flatten = (Waves.request.rootTasks .null).2 :=
    List.flatten_singleton
  have execution := fun world known =>
    executed nofun Waves.options world Waves.application_advances known
  refine ⟨?_, ?_, ?_, ?_, ?_, ?_⟩
  · rcases execution Waves.calm Nat.one_pos with ⟨last, goes, answers⟩
    rcases Option.isSome_iff_exists.mp Waves.calm_outcome with ⟨data, isData⟩
    have isOver : last.Over := (answers.data data isData).1
    exact ⟨last, goes, isOver, ((supervised .null _ divided _ _ _ goes).2 isOver).2⟩
  · have silent (hook : Hook) : Waves.options.calls hook = [] := rfl
    rw [noted nofun Waves.options Waves.calm []]
    generalize Waves.options.executeChecked Waves.request Waves.calm = result
    have last : Waves.options.lastCalls result.1 = [] := by
      rcases result with ⟨_ | _ | _, world⟩ <;> rfl
    rw [ExecutionOptions.notes_concluded, silent, last, List.nil_append, List.nil_append,
      List.append_nil]
    exact Waves.calm_called
  · rcases execution Waves.disturbed Nat.one_pos with ⟨last, goes, answers⟩
    have observed := (supervised .null _ divided _ _ _ goes).1
    rwa [← answers.interruption, Waves.disturbed_outcome] at observed
  · rcases execution Waves.cancelled Nat.one_pos with ⟨last, goes, _⟩
    exact ⟨last, goes, (interrupted _ last _ rfl goes).2⟩
  · rcases (halted Waves.application ⟨{}, Waves.cancelled⟩
      { waiting := (Waves.request.rootTasks .null).2 }).1 rfl _ (Nat.lt_succ_self _) with
      ⟨interruption, isLog, _⟩
    exact ⟨interruption, isLog⟩
  · rcases (halted Waves.application ⟨{}, Waves.calm⟩ { waiting := [] }).2 Waves.canceller rfl with
      ⟨interruption, isLog, _⟩
    exact ⟨interruption, isLog⟩

end GraphQL
