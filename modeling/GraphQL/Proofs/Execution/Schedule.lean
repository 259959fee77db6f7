import GraphQL.Execution.Level
import GraphQL.Proofs.Execution.Executor

/-!
Both strategies are runs of the executor. Whatever resolvers answer and whenever they do, a strategy
finishes outstanding tasks one after another until none is left, unless it is aborted.
-/

namespace GraphQL

variable {σ : Type}

/-! ## What a strategy relies on -/

/-- What is known of the worlds in which a request runs, of the answers of its resolvers, and of the
reasons for which it may be aborted. -/
structure Conditions (σ : Type) where
  sound : World σ → Prop
  allowed : Answering
  aborts : Abort → Prop

namespace Conditions

/-- Anything may happen. -/
def any : Conditions σ := ⟨fun _ => True, fun _ _ _ => True, fun _ => True⟩

/-- A suspended resolver answers as allowed. -/
def Promised (conditions : Conditions σ) (call : FieldCall) (path : Path)
    (wake : World σ → Outcome FieldValue × World σ) : Prop :=
  ∀ world, conditions.sound world →
    conditions.allowed call path (.outcome (wake world).1) ∧ conditions.sound (wake world).2

/-- A field that was started is resolved as allowed, now or later. -/
def StartsWell (conditions : Conditions σ) (call : FieldCall) (path : Path) :
    Request.Started σ × World σ → Prop
  | (.resolved resolution, world) =>
      conditions.allowed call path resolution ∧ conditions.sound world
  | (.suspended _ wake, world) =>
      conditions.Promised call path wake ∧ conditions.sound world

/-- A check of the token that leaves the world sound and fails for a known reason only. -/
def ChecksWell (conditions : Conditions σ) (result : Option Interruption × World σ) : Prop :=
  conditions.sound result.2 ∧
    ∀ interruption, result.1 = some interruption →
      conditions.aborts (.interrupted interruption)

/-- An application and a request keep to what is known. -/
structure Holds (conditions : Conditions σ) (request : Request) (application : Application σ) :
    Prop where
  start : ∀ call path world, conditions.sound world →
    conditions.StartsWell call path (request.start application path call world)
  check : ∀ world, conditions.sound world → conditions.ChecksWell (world.check request.token)
  interrupted : ∀ world, conditions.sound world →
    conditions.ChecksWell (world.interrupted request.token)
  waitUntil : ∀ world time, conditions.sound world →
    conditions.ChecksWell (world.waitUntil request.token time)
  panic : request.throwOnUnhandled = true → ∀ reason, conditions.aborts (.panicked reason)

/-- Anything may be answered. The request is aborted for some reasons only. -/
def abortedBy (aborts : Abort → Prop) : Conditions σ := ⟨fun _ => True, fun _ _ _ => True, aborts⟩

theorem abortedBy_holds {request : Request} {aborts : Abort → Prop}
    (interrupted : ∀ interruption, aborts (.interrupted interruption))
    (panicked : request.throwOnUnhandled = true → ∀ reason, aborts (.panicked reason))
    (application : Application σ) :
    (abortedBy aborts : Conditions σ).Holds request application where
  start call path world _ := by
    rcases request.start application path call world with ⟨started, later⟩
    cases started with
    | resolved resolution => exact ⟨trivial, trivial⟩
    | suspended delay wake => exact ⟨fun _ _ => ⟨trivial, trivial⟩, trivial⟩
  check _ _ := ⟨trivial, fun interruption _ => interrupted interruption⟩
  interrupted _ _ := ⟨trivial, fun interruption _ => interrupted interruption⟩
  waitUntil _ _ _ := ⟨trivial, fun interruption _ => interrupted interruption⟩
  panic := panicked

theorem any_holds (request : Request) (application : Application σ) :
    (any : Conditions σ).Holds request application :=
  abortedBy_holds (fun _ => trivial) (fun _ _ => trivial) application

end Conditions

/-- Properties of the tasks of one depth and of the next one. -/
structure Depths (request : Request) (current following : FieldTask → Prop) : Prop where
  leads : ∀ {task resolution draft later next}, current task →
    request.finish task resolution draft = .ok (later, next) → ∀ task ∈ next, following task

theorem Depths.any (request : Request) : Depths request (fun _ => True) fun _ => True :=
  ⟨fun _ _ _ _ => trivial⟩

/-! ## Levels -/

namespace InFlight

theorem takeFirst_perm {inFlight others : List (InFlight σ)} {first : InFlight σ}
    (taken : takeFirst inFlight = some (first, others)) : inFlight.Perm (first :: others) := by
  induction inFlight generalizing first others with
  | nil => cases taken
  | cons head tail induction =>
      rw [takeFirst] at taken
      cases later : takeFirst tail with
      | none =>
          rw [later] at taken
          cases taken
          cases tail with
          | nil => exact .refl _
          | cons next rest =>
              rw [takeFirst] at later
              split at later
              · cases later
              · split at later <;> cases later
      | some found =>
          rcases found with ⟨earliest, rest⟩
          rw [later] at taken
          simp only at taken
          split at taken
          · cases taken
            exact .refl _
          · cases taken
            exact (List.Perm.cons head (induction later)).trans (List.Perm.swap _ _ _)

theorem takeFirst_none {inFlight : List (InFlight σ)} (nothing : takeFirst inFlight = none) :
    inFlight = [] := by
  cases inFlight with
  | nil => rfl
  | cons head tail =>
      rw [takeFirst] at nothing
      split at nothing
      · cases nothing
      · split at nothing <;> cases nothing

end InFlight

private theorem Request.finish_error {request : Request} {task : FieldTask}
    {resolution : Resolution} {draft : Draft} {reason : Option String}
    (failed : request.finish task resolution draft = .error reason) :
    request.throwOnUnhandled = true := by
  unfold finish at failed
  split at failed
  · cases failed
  · split at failed
    · split at failed
      · assumption
      · cases failed
    · cases failed
    · cases failed
    · split at failed <;> cases failed

namespace Level

/-- The tasks of a level that are not finished, and those that it leaves. -/
def tasks (level : Level σ) : Multiset FieldTask :=
  (level.waiting : Multiset FieldTask) + ((level.inFlight.map InFlight.task : List FieldTask) :
    Multiset FieldTask) + level.next

/-- How many starts and waits are left at most. -/
def load (level : Level σ) : Nat := 2 * level.waiting.length + level.inFlight.length

/-- What holds of a level between two steps. -/
structure Good (conditions : Conditions σ) (current following : FieldTask → Prop) (run : Run σ)
    (level : Level σ) : Prop where
  sound : conditions.sound run.world
  waiting : ∀ task ∈ level.waiting, current task
  inFlight : ∀ flying ∈ level.inFlight, current flying.task ∧
    conditions.Promised flying.task.toFieldCall (run.draft.tree.path flying.task.node)
      flying.wake
  next : ∀ task ∈ level.next, following task

/-- What a step of a level comes to, beside other tasks that rest. -/
def Advances (conditions : Conditions σ) (request : Request)
    (current following : FieldTask → Prop) (draft : Draft) (tasks rest : Multiset FieldTask)
    (load : Nat) : Run σ × LevelStep σ → Prop
  | (run, .more level) =>
      request.Runs conditions.allowed (draft, tasks + rest) (run.draft, level.tasks + rest) ∧
        level.Good conditions current following run ∧ level.load < load
  | (run, .done next) =>
      run.draft = draft ∧ conditions.sound run.world ∧ tasks = (next : Multiset FieldTask) ∧
        ∀ task ∈ next, following task
  | (_, .stop abort) => conditions.aborts abort

variable {conditions : Conditions σ} {request : Request} {application : Application σ}
  {current following : FieldTask → Prop}

private theorem Good.grow {run : Run σ} {level : Level σ} {draft : Draft}
    (good : level.Good conditions current following run)
    (known : ∀ flying ∈ level.inFlight, ∃ node, run.draft.tree.node? flying.task.node = some node)
    (growth : run.draft.tree.Extends draft.tree) {next : List FieldTask}
    (follows : ∀ task ∈ next, following task) :
    { level with next := level.next ++ next }.Good conditions current following
      { run with draft := draft } where
  sound := good.sound
  waiting := good.waiting
  inFlight := by
    intro flying member
    rcases known flying member with ⟨node, found⟩
    have samePath := growth.path_eq found
    exact ⟨(good.inFlight flying member).1, samePath ▸ (good.inFlight flying member).2⟩
  next := by
    intro task member
    rcases List.mem_append.mp member with earlier | added
    · exact good.next task earlier
    · exact follows task added

private theorem mem_tasks_of_inFlight {level : Level σ} {flying : InFlight σ}
    (member : flying ∈ level.inFlight) : flying.task ∈ level.tasks := by
  rw [tasks]
  apply Multiset.mem_add.mpr (.inl _)
  apply Multiset.mem_add.mpr (.inr _)
  exact Multiset.mem_coe.mpr (List.mem_map.mpr ⟨flying, member, rfl⟩)

private theorem tasks_append_next (level : Level σ) (next : List FieldTask) :
    { level with next := level.next ++ next }.tasks = next + level.tasks := by
  rw [tasks, tasks, ← Multiset.coe_add]
  simp only
  rw [← add_assoc, add_comm]

private theorem tasks_append_inFlight (level : Level σ) (flying : InFlight σ) :
    { level with inFlight := level.inFlight ++ [flying] }.tasks = flying.task ::ₘ level.tasks := by
  rw [tasks, tasks, List.map_append, ← Multiset.coe_add, List.map_singleton,
    Multiset.coe_singleton, ← Multiset.singleton_add,
    add_comm ({flying.task} : Multiset FieldTask), ← add_assoc, add_right_comm]

private theorem finish_advances (holds : conditions.Holds request application)
    (depths : Depths request current following) {run : Run σ} {level : Level σ}
    {task : FieldTask} {resolution : Resolution} {rest : Multiset FieldTask} {load : Nat}
    (valid : (Outstanding.progress (run.draft, task ::ₘ level.tasks + rest)).Valid)
    (good : level.Good conditions current following run) (isCurrent : current task)
    (answered : conditions.allowed task.toFieldCall (run.draft.tree.path task.node) resolution)
    (lighter : level.load < load) :
    Advances conditions request current following run.draft (task ::ₘ level.tasks) rest load
      (finish request run level task resolution) := by
  rw [Multiset.cons_add] at valid
  rw [finish]
  cases finished : request.finish task resolution run.draft with
  | error reason => exact holds.panic (Request.finish_error finished) reason
  | ok expanded =>
      rcases expanded with ⟨draft, next⟩
      have step : request.Finishes conditions.allowed (run.draft, task ::ₘ (level.tasks + rest))
          (draft, next + (level.tasks + rest)) := .finish answered finished
      have known : ∀ flying ∈ level.inFlight,
          ∃ node, run.draft.tree.node? flying.task.node = some node := by
        intro flying member
        have outstanding : flying.task ∈ task ::ₘ (level.tasks + rest) :=
          Multiset.mem_cons_of_mem (Multiset.mem_add.mpr (.inl (mem_tasks_of_inFlight member)))
        rcases valid.pending (.resolve flying.task) (Multiset.mem_map_of_mem _ outstanding) with
          ⟨node, found, _⟩
        exact ⟨node, found⟩
      refine ⟨?_, good.grow known (Request.Steps.extends (step.steps valid) valid)
        (depths.leads isCurrent finished), lighter⟩
      rw [tasks_append_next, Multiset.cons_add, add_assoc]
      exact .single step

theorem tasks_of_waiting {level : Level σ} {task : FieldTask} {waiting : List FieldTask}
    (isWaiting : level.waiting = task :: waiting) :
    level.tasks = task ::ₘ { level with waiting := waiting }.tasks := by
  rw [tasks, tasks, isWaiting, ← Multiset.cons_coe, Multiset.cons_add, Multiset.cons_add]

theorem tasks_of_taken {level : Level σ} {first : InFlight σ} {others : List (InFlight σ)}
    (taken : InFlight.takeFirst level.inFlight = some (first, others)) :
    level.tasks = first.task ::ₘ { level with inFlight := others }.tasks := by
  have same : ((level.inFlight.map InFlight.task : List FieldTask) : Multiset FieldTask) =
      first.task ::ₘ ((others.map InFlight.task : List FieldTask) : Multiset FieldTask) :=
    Multiset.coe_eq_coe.mpr ((InFlight.takeFirst_perm taken).map InFlight.task)
  rw [tasks, tasks, same, Multiset.add_cons, Multiset.cons_add]

private theorem Good.start {run : Run σ} {task : FieldTask} {waiting : List FieldTask}
    {level : Level σ} (good : level.Good conditions current following run)
    (isWaiting : level.waiting = task :: waiting) :
    { level with waiting := waiting }.Good conditions current following run ∧ current task ∧
      level.tasks = task ::ₘ { level with waiting := waiting }.tasks := by
  refine ⟨⟨good.sound, ?_, good.inFlight, good.next⟩, ?_, tasks_of_waiting isWaiting⟩
  · intro other member
    exact good.waiting other (isWaiting ▸ List.mem_cons_of_mem task member)
  · exact good.waiting task (isWaiting ▸ List.mem_cons_self)

private theorem Good.world {run : Run σ} {level : Level σ} {world : World σ}
    (good : level.Good conditions current following run) (sound : conditions.sound world) :
    level.Good conditions current following { run with world := world } :=
  ⟨sound, good.waiting, good.inFlight, good.next⟩

private theorem dispatch_advances (holds : conditions.Holds request application)
    (depths : Depths request current following) {run : Run σ} {level : Level σ}
    {task : FieldTask} {rest : Multiset FieldTask}
    (valid : (Outstanding.progress (run.draft, task ::ₘ level.tasks + rest)).Valid)
    (good : level.Good conditions current following run) (isCurrent : current task) :
    Advances conditions request current following run.draft (task ::ₘ level.tasks) rest
      (level.load + 2) (dispatch request application run level task) := by
  rw [dispatch]
  split
  · rename_i lost
    refine ⟨?_, good, Nat.lt_add_of_pos_right Nat.two_pos⟩
    rw [Multiset.cons_add]
    exact .single (.drop lost)
  · have checked := holds.check run.world good.sound
    cases isChecked : run.world.check request.token with
    | mk interruption world =>
        rw [isChecked] at checked
        cases interruption with
        | some interruption => exact checked.2 interruption rfl
        | none =>
            simp only
            have started := holds.start task.toFieldCall (run.draft.tree.path task.node) world
              checked.1
            cases isStarted : request.start application (run.draft.tree.path task.node)
                task.toFieldCall world with
            | mk result world =>
                rw [isStarted] at started
                cases result with
                | resolved resolution =>
                    exact finish_advances holds depths valid (good.world started.2) isCurrent
                      started.1 (Nat.lt_add_of_pos_right Nat.two_pos)
                | suspended delay wake =>
                    refine ⟨?_, ⟨started.2, good.waiting, ?_, good.next⟩, ?_⟩
                    · rw [tasks_append_inFlight]
                    · intro flying member
                      rcases List.mem_append.mp member with earlier | added
                      · exact good.inFlight flying earlier
                      · rw [List.mem_singleton.mp added]
                        exact ⟨isCurrent, started.1⟩
                    · simp only [load, List.length_append, List.length_singleton]
                      omega

private theorem complete_advances (holds : conditions.Holds request application)
    (depths : Depths request current following) {run : Run σ} {level : Level σ}
    {first : InFlight σ} {rest : Multiset FieldTask}
    (valid : (Outstanding.progress (run.draft, first.task ::ₘ level.tasks + rest)).Valid)
    (good : level.Good conditions current following run) (isCurrent : current first.task)
    (promised : conditions.Promised first.task.toFieldCall
      (run.draft.tree.path first.task.node) first.wake) :
    Advances conditions request current following run.draft (first.task ::ₘ level.tasks) rest
      (level.load + 1) (complete request run level first) := by
  rw [complete]
  have woken := promised run.world good.sound
  cases isWoken : first.wake run.world with
  | mk outcome world =>
      rw [isWoken] at woken
      have checked := holds.check world woken.2
      cases isChecked : world.check request.token with
      | mk interruption later =>
          rw [isChecked] at checked
          simp only [isChecked]
          cases interruption with
          | some interruption => exact checked.2 interruption rfl
          | none =>
              exact finish_advances holds depths valid (good.world checked.1) isCurrent woken.1
                (Nat.lt_succ_self _)

private theorem Good.takeFirst {run : Run σ} {level : Level σ} {first : InFlight σ}
    {others : List (InFlight σ)} (good : level.Good conditions current following run)
    (taken : InFlight.takeFirst level.inFlight = some (first, others)) :
    { level with inFlight := others }.Good conditions current following run ∧
      (current first.task ∧ conditions.Promised first.task.toFieldCall
        (run.draft.tree.path first.task.node) first.wake) ∧
      level.tasks = first.task ::ₘ { level with inFlight := others }.tasks ∧
      level.load = { level with inFlight := others }.load + 1 := by
  have same := InFlight.takeFirst_perm taken
  refine ⟨⟨good.sound, good.waiting, ?_, good.next⟩, ?_, tasks_of_taken taken, ?_⟩
  · intro flying member
    exact good.inFlight flying (same.mem_iff.mpr (List.mem_cons_of_mem first member))
  · exact good.inFlight first (same.mem_iff.mpr List.mem_cons_self)
  · rw [load, load, same.length_eq]
    rfl

private theorem await_advances (holds : conditions.Holds request application)
    (depths : Depths request current following) {run : Run σ} {level : Level σ}
    {rest : Multiset FieldTask}
    (valid : (Outstanding.progress (run.draft, level.tasks + rest)).Valid)
    (good : level.Good conditions current following run)
    (idle : level.inFlight = [] → level.waiting = []) :
    Advances conditions request current following run.draft level.tasks rest level.load
      (await request run level) := by
  rw [await]
  have checked := holds.interrupted run.world good.sound
  cases isChecked : run.world.interrupted request.token with
  | mk interruption world =>
      rw [isChecked] at checked
      cases interruption with
      | some interruption => exact checked.2 interruption rfl
      | none =>
          simp only
          cases taken : InFlight.takeFirst level.inFlight with
          | none =>
              have nothing := InFlight.takeFirst_none taken
              refine ⟨rfl, checked.1, ?_, good.next⟩
              rw [tasks, idle nothing, nothing]
              simp
          | some found =>
              rcases found with ⟨first, others⟩
              rcases good.takeFirst taken with ⟨rest, ⟨isCurrent, promised⟩, tasks, load⟩
              have waited := holds.waitUntil world first.due checked.1
              simp only
              cases isWaited : world.waitUntil request.token first.due with
              | mk interruption later =>
                  rw [isWaited] at waited
                  cases interruption with
                  | some interruption => exact waited.2 interruption rfl
                  | none =>
                      rw [tasks] at valid ⊢
                      rw [load]
                      exact complete_advances holds depths valid (rest.world waited.1) isCurrent
                        promised

/-- A step of a level finishes or drops a task, starts one, or ends the level. -/
private theorem step_advances (holds : conditions.Holds request application)
    (depths : Depths request current following) {run : Run σ} {level : Level σ}
    {rest : Multiset FieldTask}
    (valid : (Outstanding.progress (run.draft, level.tasks + rest)).Valid)
    (good : level.Good conditions current following run) :
    Advances conditions request current following run.draft level.tasks rest level.load
      (level.step request application run) := by
  rw [step]
  cases isWaiting : level.waiting with
  | nil => exact await_advances holds depths valid good fun _ => isWaiting
  | cons task waiting =>
      simp only
      split
      · rcases good.start isWaiting with ⟨started, isCurrent, tasks⟩
        have lighter : level.load = { level with waiting := waiting }.load + 2 := by
          simp only [load, isWaiting, List.length_cons]
          omega
        rw [tasks] at valid ⊢
        rw [lighter]
        exact dispatch_advances holds depths valid started isCurrent
      · rename_i full
        apply await_advances holds depths valid good
        intro nothing
        rw [nothing] at full
        exact absurd (Nat.lt_of_lt_of_le Nat.one_pos (Nat.le_max_left _ _)) full

private theorem good_any (run : Run σ) (level : Level σ) :
    level.Good Conditions.any (fun _ => True) (fun _ => True) run where
  sound := trivial
  waiting _ _ := trivial
  inFlight _ _ := ⟨trivial, fun _ _ => ⟨trivial, trivial⟩⟩
  next _ _ := trivial

theorem step_valid (request : Request) (application : Application σ) {run : Run σ}
    {level : Level σ} {rest : Multiset FieldTask}
    (valid : (Outstanding.progress (run.draft, level.tasks + rest)).Valid) :
    match level.step request application run with
    | (later, .more remaining) =>
        (Outstanding.progress (later.draft, remaining.tasks + rest)).Valid
    | (later, .done next) => (Outstanding.progress (later.draft, next + rest)).Valid
    | (_, .stop _) => True := by
  have advances := step_advances (Conditions.any_holds request application)
    (Depths.any request) valid (good_any run level)
  cases isStep : level.step request application run with
  | mk later outcome =>
      rw [isStep] at advances
      cases outcome with
      | stop abort => trivial
      | more remaining => exact Request.Steps.valid (advances.1.steps valid) valid
      | done next =>
          rcases advances with ⟨sameDraft, _, sameTasks, _⟩
          rwa [sameTasks, ← sameDraft] at valid

/-- The steps of a level finish or drop all of its tasks, or the level is aborted. -/
private theorem runSteps_runs (holds : conditions.Holds request application)
    (depths : Depths request current following) {rest : Multiset FieldTask} :
    ∀ (steps : Nat) (run : Run σ) (level : Level σ), level.load < steps →
      (Outstanding.progress (run.draft, level.tasks + rest)).Valid →
      level.Good conditions current following run →
      match level.runSteps request application steps run with
      | (later, .ok next) =>
          request.Runs conditions.allowed (run.draft, level.tasks + rest)
              (later.draft, next + rest) ∧
            conditions.sound later.world ∧ ∀ task ∈ next, following task
      | (_, .error abort) => conditions.aborts abort := by
  intro steps
  induction steps with
  | zero => exact fun run level enough => absurd enough (Nat.not_lt_zero _)
  | succ steps induction =>
      intro run level enough valid good
      have advances := step_advances holds depths valid good
      rw [runSteps]
      cases isStep : level.step request application run with
      | mk later outcome =>
          rw [isStep] at advances
          cases outcome with
          | stop abort => exact advances
          | done next =>
              rcases advances with ⟨sameDraft, sound, sameTasks, follows⟩
              refine ⟨?_, sound, follows⟩
              rw [sameDraft, sameTasks]
          | more remaining =>
              rcases advances with ⟨runs, stillGood, lighter⟩
              have further := induction later remaining
                (Nat.lt_of_lt_of_le lighter (Nat.le_of_lt_succ enough))
                (Request.Steps.valid (runs.steps valid) valid) stillGood
              simp only
              cases isRest : remaining.runSteps request application steps later with
              | mk last result =>
                  rw [isRest] at further
                  cases result with
                  | error abort => exact further
                  | ok next => exact ⟨runs.trans further.1, further.2⟩

/-- A level that is not aborted leaves the tasks of the next depth. -/
theorem run_runs (holds : conditions.Holds request application)
    (depths : Depths request current following) {rest : Multiset FieldTask} {run : Run σ}
    {tasks : List FieldTask} (sound : conditions.sound run.world)
    (valid : (Outstanding.progress (run.draft, tasks + rest)).Valid)
    (isCurrent : ∀ task ∈ tasks, current task) :
    match Level.run request application run tasks with
    | (later, .ok next) =>
        request.Runs conditions.allowed (run.draft, tasks + rest) (later.draft, next + rest) ∧
          conditions.sound later.world ∧ ∀ task ∈ next, following task
    | (_, .error abort) => conditions.aborts abort := by
  have sameTasks : ({ waiting := tasks } : Level σ).tasks = (tasks : Multiset FieldTask) := by
    rw [Level.tasks]
    simp
  have steps := runSteps_runs holds depths ({ waiting := tasks } : Level σ).steps run
    { waiting := tasks } (Nat.lt_succ_self _) (sameTasks ▸ valid)
    ⟨sound, isCurrent, by simp, by simp⟩
  rw [sameTasks] at steps
  exact steps

end Level

/-! ## Strategies -/

namespace Request

variable {conditions : Conditions σ} {request : Request} {application : Application σ}

/-- Properties of tasks by the number of levels that are left. -/
structure Layers (request : Request) (conditions : Conditions σ)
    (layer : Nat → FieldTask → Prop) : Prop where
  depths : ∀ levels, Depths request (layer (levels + 1)) (layer levels)
  bottom : ∀ task, layer 0 task → conditions.aborts .tooDeep

theorem Layers.any (request : Request) :
    request.Layers (Conditions.any : Conditions σ) fun _ _ => True :=
  ⟨fun _ => Depths.any request, fun _ _ => trivial⟩

/-- Levels are run until no task is left beside those that rest, or until an abort. -/
theorem runLevels_runs (holds : conditions.Holds request application)
    {layer : Nat → FieldTask → Prop} (layers : request.Layers conditions layer)
    {rest : Multiset FieldTask} :
    ∀ (levels : Nat) (run : Run σ) (tasks : List FieldTask), conditions.sound run.world →
      (Outstanding.progress (run.draft, tasks + rest)).Valid →
      (∀ task ∈ tasks, layer levels task) →
      match request.runLevels application levels run tasks with
      | (later, none) =>
          request.Runs conditions.allowed (run.draft, tasks + rest) (later.draft, rest) ∧
            conditions.sound later.world
      | (_, some abort) => conditions.aborts abort := by
  intro levels
  induction levels with
  | zero =>
      intro run tasks sound valid inLayer
      cases tasks with
      | nil => exact ⟨by rw [Multiset.coe_nil, zero_add], sound⟩
      | cons task tasks => exact layers.bottom task (inLayer task List.mem_cons_self)
  | succ levels induction =>
      intro run tasks sound valid inLayer
      cases tasks with
      | nil => exact ⟨by rw [Multiset.coe_nil, zero_add], sound⟩
      | cons task tasks =>
          have level := Level.run_runs holds (layers.depths levels) sound valid inLayer
          rw [runLevels]
          cases isLevel : Level.run request application run (task :: tasks) with
          | mk later result =>
              rw [isLevel] at level
              cases result with
              | error abort => exact level
              | ok next =>
                  rcases level with ⟨runs, stillSound, inNext⟩
                  have further := induction later next stillSound
                    (Steps.valid (runs.steps valid) valid) inNext
                  simp only
                  cases isRest : request.runLevels application levels later next with
                  | mk last abort =>
                      rw [isRest] at further
                      cases abort with
                      | some abort => exact further
                      | none => exact ⟨runs.trans further.1, further.2⟩

theorem split_cons (task : FieldTask) (tasks : List FieldTask) :
    ((task :: tasks : List FieldTask) : Multiset FieldTask) =
      ([task] : List FieldTask) + (tasks : Multiset FieldTask) := by
  rw [Multiset.coe_add, List.singleton_append]

/-- Top-level tasks are run until none is left beside those that rest, or until an abort. -/
theorem runEach_runs (holds : conditions.Holds request application)
    {layer : Nat → FieldTask → Prop} (layers : request.Layers conditions layer)
    {rest : Multiset FieldTask} :
    ∀ (tasks : List FieldTask) (run : Run σ), conditions.sound run.world →
      (Outstanding.progress (run.draft, tasks + rest)).Valid →
      (∀ task ∈ tasks, layer request.depth task) →
      match request.runEach application tasks run with
      | (later, none) =>
          request.Runs conditions.allowed (run.draft, tasks + rest) (later.draft, rest) ∧
            conditions.sound later.world
      | (_, some abort) => conditions.aborts abort := by
  intro tasks
  induction tasks with
  | nil => exact fun run sound _ _ => ⟨by rw [Multiset.coe_nil, zero_add], sound⟩
  | cons task tasks induction =>
      intro run sound valid inLayer
      rw [split_cons, add_assoc] at valid ⊢
      have levels := runLevels_runs holds layers request.depth run [task] sound valid (by
        intro other member
        rw [List.mem_singleton.mp member]
        exact inLayer task List.mem_cons_self)
      rw [runEach]
      cases isRun : request.runLevels application request.depth run [task] with
      | mk later abort =>
          rw [isRun] at levels
          cases abort with
          | some abort => exact levels
          | none =>
              have further := induction later levels.2
                (Steps.valid (levels.1.steps valid) valid)
                fun other member => inLayer other (List.mem_cons_of_mem task member)
              simp only
              cases isRest : request.runEach application tasks later with
              | mk last abort =>
                  rw [isRest] at further
                  cases abort with
                  | some abort => exact further
                  | none => exact ⟨levels.1.trans further.1, further.2⟩

/-- How a strategy may end: with the data of a finished run of the executor, or by an abort. -/
def Ends (request : Request) (conditions : Conditions σ) (rootValue : FieldValue) :
    Run σ × Except Abort Json → Prop
  | (run, .ok data) =>
      request.Runs conditions.allowed (request.initial rootValue) (run.draft, 0) ∧
        data = run.draft.tree.data
  | (_, .error abort) => conditions.aborts abort

/-- Levels end with a finished run in a sound world, or with an abort. -/
theorem executeParallel_finishes (holds : conditions.Holds request application)
    {layer : Nat → FieldTask → Prop} (layers : request.Layers conditions layer)
    (rootValue : FieldValue) {world : World σ} (sound : conditions.sound world)
    (inLayer : ∀ task ∈ (request.rootTasks rootValue).2, layer request.depth task) :
    match request.executeParallel application rootValue world with
    | (run, .ok data) =>
        request.Runs conditions.allowed (request.initial rootValue) (run.draft, 0) ∧
          data = run.draft.tree.data ∧ conditions.sound run.world
    | (_, .error abort) => conditions.aborts abort := by
  have valid := request.initial_valid rootValue
  rw [initial, ← add_zero ((request.rootTasks rootValue).2 : Multiset FieldTask)] at valid
  have levels := runLevels_runs holds layers request.depth
    ⟨(request.rootTasks rootValue).1, world⟩ (request.rootTasks rootValue).2 sound valid inLayer
  rw [executeParallel]
  simp only
  cases isRun : request.runLevels application request.depth
      ⟨(request.rootTasks rootValue).1, world⟩ (request.rootTasks rootValue).2 with
  | mk run abort =>
      rw [isRun] at levels
      cases abort with
      | some abort => exact levels
      | none =>
          rw [add_zero] at levels
          exact ⟨levels.1, rfl, levels.2⟩

theorem executeParallel_ends (holds : conditions.Holds request application)
    {layer : Nat → FieldTask → Prop} (layers : request.Layers conditions layer)
    (rootValue : FieldValue) {world : World σ} (sound : conditions.sound world)
    (inLayer : ∀ task ∈ (request.rootTasks rootValue).2, layer request.depth task) :
    request.Ends conditions rootValue
      (request.executeParallel application rootValue world) := by
  have finishes := executeParallel_finishes holds layers rootValue sound inLayer
  generalize request.executeParallel application rootValue world = result at finishes ⊢
  rcases result with ⟨run, abort | data⟩
  · exact finishes
  · exact ⟨finishes.1, finishes.2.1⟩

theorem executeSerial_ends (holds : conditions.Holds request application)
    {layer : Nat → FieldTask → Prop} (layers : request.Layers conditions layer)
    (rootValue : FieldValue) {world : World σ} (sound : conditions.sound world)
    (inLayer : ∀ task ∈ (request.rootTasks rootValue).2, layer request.depth task) :
    request.Ends conditions rootValue (request.executeSerial application rootValue world) := by
  have valid := request.initial_valid rootValue
  rw [initial, ← add_zero ((request.rootTasks rootValue).2 : Multiset FieldTask)] at valid
  have each := runEach_runs holds layers (request.rootTasks rootValue).2
    ⟨(request.rootTasks rootValue).1, world⟩ sound valid inLayer
  rw [executeSerial]
  simp only
  cases isRun : request.runEach application (request.rootTasks rootValue).2
      ⟨(request.rootTasks rootValue).1, world⟩ with
  | mk run abort =>
      rw [isRun] at each
      cases abort with
      | some abort => exact each
      | none =>
          rw [add_zero] at each
          exact ⟨each.1, rfl⟩

end Request

end GraphQL
