import GraphQL.Proofs.Execution.Expansion
import GraphQL.Proofs.Execution.Refinement
import GraphQL.Proofs.Execution.Walks

/-!
Execution comes to an end. Neither the loop of a level nor the loop over levels counts its rounds,
and resolvers may answer with values of any width. What gets less from level to level is the depth
to which fields nest once all fragments are expanded.
-/

namespace GraphQL

variable {σ : Type}

/-! ## The loops without a bound -/

/-- The steps of a level up to its end, however many these are. -/
inductive Level.Settles (request : Request) (application : Application σ) :
    Run σ → Level σ → Run σ × Except Abort (List FieldTask) → Prop
  | more {run later : Run σ} {level remaining : Level σ}
      {result : Run σ × Except Abort (List FieldTask)}
      (step : level.step request application run = (later, .more remaining))
      (further : Settles request application later remaining result) :
      Settles request application run level result
  | done {run later : Run σ} {level : Level σ} {next : List FieldTask}
      (step : level.step request application run = (later, .done next)) :
      Settles request application run level (later, .ok next)
  | stop {run later : Run σ} {level : Level σ} {abort : Abort}
      (step : level.step request application run = (later, .stop abort)) :
      Settles request application run level (later, .error abort)

/-- So many levels are run, until no task is left or one of them is aborted. -/
inductive Request.Descends (request : Request) (application : Application σ) :
    Nat → Run σ → List FieldTask → Run σ × Option Abort → Prop
  | done {run : Run σ} : Descends request application 0 run [] (run, none)
  | level {levels : Nat} {run later : Run σ} {task : FieldTask} {tasks next : List FieldTask}
      {result : Run σ × Option Abort}
      (settles : Level.Settles request application run { waiting := task :: tasks }
        (later, .ok next))
      (further : Descends request application levels later next result) :
      Descends request application (levels + 1) run (task :: tasks) result
  | stop {run later : Run σ} {task : FieldTask} {tasks : List FieldTask} {abort : Abort}
      (settles : Level.Settles request application run { waiting := task :: tasks }
        (later, .error abort)) :
      Descends request application 1 run (task :: tasks) (later, some abort)

/-- Steps within a bound are steps without one, unless the bound is used up. -/
private theorem Level.runSteps_settles {request : Request} {application : Application σ}
    (steps : Nat) {run : Run σ} {level : Level σ} {result : Run σ × Except Abort (List FieldTask)}
    (ran : level.runSteps request application steps run = result)
    (bounded : result.2 ≠ .error .tooDeep) :
    Level.Settles request application run level result := by
  induction steps generalizing run level with
  | zero =>
      subst ran
      exact absurd rfl bounded
  | succ steps induction =>
      rw [runSteps] at ran
      cases isStep : level.step request application run with
      | mk later outcome =>
          rw [isStep] at ran
          cases outcome with
          | more remaining => exact .more isStep (induction ran)
          | done next => exact ran ▸ .done isStep
          | stop abort => exact ran ▸ .stop isStep

namespace Request

variable {request : Request} {application : Application σ}

/-- Levels within a bound are levels without one, unless the bound is used up. No bound that admits
them changes what they come to. -/
private theorem runLevels_descends (bound : Nat) {run : Run σ} {tasks : List FieldTask}
    {result : Run σ × Option Abort}
    (ran : request.runLevels application bound run tasks = result)
    (bounded : result.2 ≠ some .tooDeep) :
    ∃ levels, levels ≤ bound ∧ request.Descends application levels run tasks result ∧
      ∀ more, levels ≤ more → request.runLevels application more run tasks = result := by
  -- The bound falls with every level, and so does the number of levels that are counted.
  induction bound generalizing run tasks with
  | zero =>
      cases tasks with
      | nil =>
          subst ran
          exact ⟨0, Nat.le_refl 0, .done, fun more _ => by rw [runLevels, runLevels]⟩
      | cons task tasks =>
          subst ran
          exact absurd rfl bounded
  | succ bound induction =>
      cases tasks with
      | nil =>
          subst ran
          exact ⟨0, Nat.zero_le _, .done, fun more _ => by rw [runLevels, runLevels]⟩
      | cons task tasks =>
          rw [runLevels] at ran
          cases isLevel : Level.run request application run (task :: tasks) with
          | mk later outcome =>
              rw [isLevel] at ran
              cases outcome with
              | error abort =>
                  have known : abort ≠ .tooDeep := by
                    rintro rfl
                    exact bounded (congrArg Prod.snd ran).symm
                  have settles := Level.runSteps_settles _ isLevel fun tooDeep =>
                    known (Except.error.inj tooDeep)
                  refine ⟨1, Nat.le_add_left 1 bound, ran ▸ .stop settles, ?_⟩
                  intro more enough
                  cases more with
                  | zero => exact absurd enough (Nat.not_succ_le_zero 0)
                  | succ fewer =>
                      rw [runLevels, isLevel]
                      exact ran
              | ok next =>
                  have settles := Level.runSteps_settles _ isLevel fun equal => by cases equal
                  rcases induction ran with ⟨levels, few, descends, stays⟩
                  refine ⟨levels + 1, Nat.succ_le_succ few, .level settles descends, ?_⟩
                  intro more enough
                  cases more with
                  | zero => exact absurd enough (Nat.not_succ_le_zero levels)
                  | succ fewer =>
                      rw [runLevels, isLevel]
                      exact stays fewer (Nat.le_of_succ_le_succ enough)

/-! ## Depth -/

/-- All tasks that are handed out nest less deep than the operation. -/
private theorem Runs.nesting_lt (acyclic : request.document.Acyclic) {allowed : Answering}
    {rootValue : FieldValue} {outstanding : Outstanding}
    (runs : request.Runs allowed (request.initial rootValue) outstanding) :
    ∀ task ∈ outstanding.2, request.document.nesting task.selectionSets.flatten <
      request.document.nesting request.operation.selections := by
  induction runs with
  | refl => exact fun task member => rootTasks_nesting_lt acyclic rootValue task member
  | tail _ finishes induction =>
      cases finishes with
      | finish answered finished =>
          intro child member
          rcases Multiset.mem_add.mp member with isNext | other
          · exact (finish_nesting_lt acyclic finished child (Multiset.mem_coe.mp isNext)).trans
              (induction _ (Multiset.mem_cons_self _ _))
          · exact induction child (Multiset.mem_cons_of_mem other)
      | drop lost => exact fun other member => induction other (Multiset.mem_cons_of_mem member)

/-- What may stop a run before its end: an interruption, or a panic that is passed on. -/
def Stops (request : Request) : Abort → Prop
  | .interrupted _ => True
  | .panicked _ => request.throwOnUnhandled = true
  | .tooDeep => False

/-- In a document without cycles of fragments execution ends, whatever resolvers answer. The fields
under a task that is handed out nest less deep than those under the task before. So whenever tasks
are run, no more levels are run than fields nest in the operation, with or without a bound, and
unless the run is stopped the data can then be rendered. -/
theorem execution_ends (acyclic : request.document.Acyclic) (rootValue : FieldValue) :
    (∀ task resolution draft later next,
      request.finish task resolution draft = .ok (later, next) →
      ∀ child ∈ next, request.document.nesting child.selectionSets.flatten <
        request.document.nesting task.selectionSets.flatten) ∧
    ∀ (σ : Type) (application : Application σ) (run : Run σ) (tasks : List FieldTask)
      (rest : Multiset FieldTask),
      request.Runs anyAnswer (request.initial rootValue) (run.draft, tasks + rest) →
      ∃ levels later abort,
        levels ≤ request.document.nesting request.operation.selections ∧
          request.Descends application levels run tasks (later, abort) ∧
          (∀ bound, levels ≤ bound →
            request.runLevels application bound run tasks = (later, abort)) ∧
          (∀ reason, abort = some reason → request.Stops reason) ∧
          (abort = none → ∀ data, later.draft.tree.RendersData data ↔
            data = later.draft.tree.data) := by
  refine ⟨fun task resolution draft later next => finish_nesting_lt acyclic, ?_⟩
  intro σ application run tasks rest runs
  have holds : (Conditions.abortedBy request.Stops : Conditions σ).Holds request application :=
    Conditions.abortedBy_holds (fun _ => trivial) (fun throws _ => throws) application
  have fits : ∀ task ∈ tasks,
      request.fitsLevels (request.document.nesting request.operation.selections) task :=
    fun task member => runs.nesting_lt acyclic task
      (Multiset.mem_add.mpr (.inl (Multiset.mem_coe.mpr member)))
  have ends := runLevels_runs holds (fitsLevels_layers acyclic _)
    (request.document.nesting request.operation.selections) run tasks trivial runs.valid fits
  cases ran : request.runLevels application
      (request.document.nesting request.operation.selections) run tasks with
  | mk later abort =>
      rw [ran] at ends
      have bounded : abort ≠ some .tooDeep := by
        rintro rfl
        exact ends
      rcases runLevels_descends _ ran bounded with ⟨levels, few, descends, stays⟩
      refine ⟨levels, later, abort, few, descends, stays, ?_, ?_⟩
      · rintro reason rfl
        exact ends
      · rintro rfl data
        exact (Runs.valid (runs.trans ends.1)).formed.rendersData_iff

end Request

namespace Shelter

def root : FieldValue :=
  .json (.object [("pet", .object [("__typename", .string "Dog"), ("name", .string "Rex"),
    ("friend", .object [("name", .string "Ida")])])])

private theorem acyclic : request.document.Acyclic := by
  intro name cycle
  rcases Relation.TransGen.head'_iff.mp cycle with ⟨next, ⟨fragment, found, spread, member, _⟩, _⟩
  have listed := List.mem_singleton.mp (Document.fragment?_mem found).1
  rw [listed] at member
  cases member

private theorem nests : request.document.nesting request.operation.selections = 3 := by decide

def tasks : List FieldTask := (request.rootTasks root).2

def rooted : Run Unit := ⟨(request.rootTasks root).1, { state := () }⟩

private theorem needs :
    (request.runLevels Greeter.application 2 rooted tasks).2 = some .tooDeep := by
  decide +kernel

private theorem finishes : (request.runLevels Greeter.application 3 rooted tasks).2 = none := by
  decide +kernel

end Shelter

/-- As many levels are run as fields nest: for the pet, its friend, and the name of that. -/
theorem Request.execution_ends_of_shelter :
    Shelter.request.document.Acyclic ∧
      Shelter.request.document.nesting Shelter.request.operation.selections = 3 ∧
      ∃ later, Shelter.request.Descends Greeter.application 3 Shelter.rooted Shelter.tasks
          (later, none) ∧
        ∀ data, later.draft.tree.RendersData data ↔ data = later.draft.tree.data := by
  have runs : Shelter.request.Runs Request.anyAnswer (Shelter.request.initial Shelter.root)
      (Shelter.rooted.draft, (Shelter.tasks : Multiset FieldTask) + 0) := by
    rw [add_zero]
    exact .refl
  rcases (Request.execution_ends Shelter.acyclic Shelter.root).2 Unit Greeter.application
    Shelter.rooted Shelter.tasks 0 runs with
    ⟨levels, later, abort, few, descends, stays, _, renders⟩
  rw [Shelter.nests] at few
  have isDone : abort = none := by
    have done := Shelter.finishes
    rwa [stays 3 few] at done
  have isThree : levels = 3 := by
    by_contra fewer
    have early := Shelter.needs
    rw [stays 2 (by omega), isDone] at early
    cases early
  subst isDone isThree
  exact ⟨Shelter.acyclic, Shelter.nests, later, descends, renders rfl⟩

end GraphQL
