import GraphQL.Proofs.Execution.Evaluation
import GraphQL.Proofs.Execution.Failures
import GraphQL.Proofs.Execution.Interpretation
import GraphQL.Proofs.Execution.Tokens
import GraphQL.Proofs.Schema.Scalars

/-!
The executor refines the evaluator. The evaluator interprets each position by the value that it
gives it, and this is right for whatever duties come to, so that a finished draft shows what the
evaluator says, however it was scheduled.
-/

namespace GraphQL

/-! ## Values all there -/

private theorem together_of_forall₂ {α : Type} {values : List (Option α)} {all : List α}
    (given : List.Forall₂ (fun value one => value = some one) values all) :
    together values = some all := by
  induction given with
  | nil => rfl
  | cons here _ induction => rw [here, together, induction]; rfl

private theorem together_none {α : Type} {values : List (Option α)} (missing : none ∈ values) :
    together values = none := by
  induction values with
  | nil => cases missing
  | cons value values induction =>
      cases value with
      | none => rfl
      | some value =>
          have later : none ∈ values := by simpa using missing
          rw [together, induction later]
          rfl

private theorem together_keyed {α : Type} (key : α → String) (value : α → Option Json)
    (keyed : List α) :
    together (keyed.map fun one => (value one).map fun json => (key one, json)) =
      (together (keyed.map value)).map fun jsons => (keyed.map key).zip jsons := by
  induction keyed with
  | nil => rfl
  | cons one keyed induction =>
      simp only [List.map_cons]
      cases value one with
      | none => rfl
      | some json =>
          rw [Option.map_some, together, together, induction, Option.map_map, Option.map_map]
          rfl

/-! ## The evaluator as an interpretation -/

/-- What a position shows; the root has no type. -/
private def settleAt : Option TypeRef → Option Json → Option Json
  | none, value => value
  | some type, value => type.settle value

private theorem settleAt_some (type : Option TypeRef) (json : Json) :
    settleAt type (some json) = some json := by
  cases type <;> rfl

namespace Request

variable {request : Request} {acyclic : request.document.Acyclic} {answers : Answers}

/-- The values of resolvers are those of the evaluator. -/
def answeredBy (request : Request) (answers : Answers) : Answering :=
  fun call path resolution => resolution = request.resolve answers call path

/-- Serializing turns nothing but null into null. -/
private def SerializesValues (request : Request) : Prop :=
  ∀ (type : NamedType) (value : FieldValue) (json : Json), type ∈ request.registry.types →
    value.isNull = false → serialize type type.shape value = .ok json → json.isNull = false

/-- A position shows the value of the evaluator. A null moves up from one that has none. -/
private def evaluation (request : Request) (acyclic : request.document.Acyclic)
    (answers : Answers) : Interpretation (Option Json) where
  admits value json := value = some json
  yields value type := value = settleAt type none
  typeName name := some (.string name)
  resolve := request.evaluateCall acyclic answers
  complete call type value path :=
    request.evaluateValue call
      (fun object value path =>
        request.evaluateObject acyclic answers object call.selectionSets value path)
      type value path

/-- The value of a whole is there if those of its parts are. -/
private theorem evaluation_spans (type : Option TypeRef) (parts : List (Option Json))
    (make : List Json → Json) :
    (request.evaluation acyclic answers).Spans (settleAt type ((together parts).map make)) type
      parts make where
  admits jsons given := by
    have all : together parts = some jsons := together_of_forall₂ given
    rw [all]
    exact settleAt_some type (make jsons)
  yields part member required isRequired given := by
    have missing : part = required.settle none := given
    rw [TypeRef.settle, if_pos isRequired] at missing
    rw [together_none (missing ▸ member)]
    rfl

private theorem evaluateObject_spans (object : NamedType) (sets : List (List Selection))
    (parent : FieldValue) (path : Path) (type : Option TypeRef) :
    (request.evaluation acyclic answers).Spans
      (settleAt type (request.evaluateObject acyclic answers object sets parent path)) type
      ((request.slots object sets).map
        ((request.evaluation acyclic answers).slot object.name parent path))
      (Interpretation.objectOf (request.slots object sets)) := by
  have keyed := together_keyed Slot.key
    ((request.evaluation acyclic answers).slot object.name parent path)
    (request.slots object sets)
  have spans : (request.evaluation acyclic answers).Spans _ type
      ((request.slots object sets).map
        ((request.evaluation acyclic answers).slot object.name parent path))
      (Interpretation.objectOf (request.slots object sets)) := evaluation_spans type _ _
  have isObject := request.evaluateObject_eq acyclic answers object sets parent path
  have sameValue : request.evaluateObject acyclic answers object sets parent path =
      (together ((request.slots object sets).map
        ((request.evaluation acyclic answers).slot object.name parent path))).map
          (Interpretation.objectOf (request.slots object sets)) := by
    refine isObject.trans ?_
    exact (congrArg (Option.map Json.object) keyed).trans (Option.map_map _ _ _)
  rw [sameValue]
  exact spans

/-- The value that a verdict stands for in the evaluator. -/
private def verdictValue (request : Request) (acyclic : request.document.Acyclic)
    (answers : Answers) (duty : Duty) (path : Path) : Verdict → Option Json
  | .failure _ => duty.type.settle none
  | .null => some .null
  | .leaf json => some json
  | .items item values =>
      duty.type.settle ((together ((request.evaluation acyclic answers).items
        duty.task.toFieldCall item path values)).map .array)
  | .object object =>
      duty.type.settle
        (request.evaluateObject acyclic answers object duty.task.selectionSets duty.value path)

private theorem Comes.evaluation_eq (serializes : request.SerializesValues) {duty : Duty}
    {path : Path}
    {verdict : Verdict} (comes : request.Comes (request.answeredBy answers) path duty verdict) :
    (request.evaluation acyclic answers).duty duty path =
      request.verdictValue acyclic answers duty path verdict := by
  cases comes with
  | @refused task resolution error answered refusal =>
      have isAnswer : request.resolve answers task.toFieldCall path = resolution := answered.symm
      change request.evaluateCall acyclic answers task.toFieldCall path = _
      rw [evaluateCall, evaluateField, isAnswer]
      cases resolution with
      | invalidArguments error => rfl
      | outcome outcome =>
          cases outcome with
          | value value => cases refusal
          | error error => rfl
          | panic reason => rfl
  | @described task value answered isMeta =>
      have isAnswer : request.resolve answers task.toFieldCall path = .outcome (.value value) :=
        answered.symm
      change request.evaluateCall acyclic answers task.toFieldCall path = _
      rw [evaluateCall, evaluateField, isAnswer]
      exact if_pos isMeta
  | @judged task type node value verdict judged isVerdict =>
      change request.evaluateValue task.toFieldCall _ type value path = _
      rw [evaluateValue_eq, isVerdict]
      cases judged with
      | failure error => rfl
      | null isNull mayBeNull =>
          rw [verdictValue, TypeRef.settle, if_neg (by simp [mayBeNull])]
      | @leaf named json notNull isSingle registered isLeaf serialized =>
          have isJson := serializes named value json (Named.find?_mem registered).1 notNull
            serialized
          simp only [isJson, Bool.false_eq_true, if_false]
          rfl
      | items notNull isList iterable => rfl
      | object notNull isSingle registered runsAs => rfl

private theorem evaluation_sound (serializes : request.SerializesValues) :
    (request.evaluation acyclic answers).Sound request (request.answeredBy answers) where
  arrives := by
    intro meaning type mayBeNull given
    have settled : meaning = type.settle none := given
    rw [TypeRef.settle, if_neg (by simp [mayBeNull])] at settled
    exact settled
  typeName name := rfl
  answer := by
    intro call path value answered notMeta
    have isAnswer : request.resolve answers call path = .outcome (.value value) := answered.symm
    simp only [evaluation, evaluateCall, evaluateField, isAnswer, notMeta, Bool.false_eq_true,
      if_false]
  failure comes := comes.evaluation_eq serializes
  null comes := comes.evaluation_eq serializes
  leaf comes := comes.evaluation_eq serializes
  items {duty path item values} comes := by
    rw [comes.evaluation_eq serializes, verdictValue]
    exact evaluation_spans (some duty.type) _ .array
  object {duty path object} comes := by
    rw [comes.evaluation_eq serializes, verdictValue]
    exact evaluateObject_spans object _ duty.value path (some duty.type)

private theorem evaluateRoot_spans (rootValue : FieldValue) :
    (request.evaluation acyclic answers).SpansRoot request rootValue
      (request.evaluateRoot acyclic answers rootValue) := by
  rw [Interpretation.SpansRoot, evaluateRoot, rootSlots, rootName]
  cases request.rootType? with
  | none => exact evaluation_spans none [] (Interpretation.objectOf [])
  | some object => exact evaluateObject_spans object _ rootValue [] none

private theorem Runs.data_eq (acyclic : request.document.Acyclic)
    (serializes : request.SerializesValues) {rootValue : FieldValue} {draft : Draft}
    (runs : request.Runs (request.answeredBy answers) (request.initial rootValue) (draft, 0)) :
    draft.tree.data = request.evaluate acyclic answers rootValue := by
  rw [evaluate]
  have spans : (request.evaluation acyclic answers).SpansRoot request rootValue _ :=
    evaluateRoot_spans rootValue
  rcases Interpretation.data_admitted (evaluation_sound serializes) spans runs with
    ⟨isNull, missing⟩ | shown
  · have nothing : request.evaluateRoot acyclic answers rootValue = none := missing
    rw [nothing]
    exact isNull
  · have value : request.evaluateRoot acyclic answers rootValue = some draft.tree.data := shown
    rw [value]
    rfl

end Request

private theorem Registry.KeepsValues.serializesValues {request : Request}
    (keeps : request.registry.KeepsValues) : request.SerializesValues := by
  intro type value json registered notNull serialized
  rcases Request.serialize_ok serialized with ⟨plain, isPlain, ended⟩
  have isValue : plain.isNull = false := isPlain.trans notNull
  cases isShape : type.shape with
  | scalar scalar =>
      rw [isShape] at ended
      exact keeps.scalar registered isShape plain json isValue ended
  | enum values =>
      rw [isShape] at ended
      rcases ended with ⟨name, _, isName⟩
      rw [isName]
      rfl
  | _ =>
      rw [isShape] at ended
      exact (congrArg Json.isNull ended).trans isValue

/-! ## Quiet requests -/

section Quiet

variable {σ : Type}

/-- A world in which nothing interrupts a token. -/
structure World.Quiet (token : CancellationToken) (world : World σ) : Prop where
  unsignalled : token.isSignalled world.signals = false
  uncancelled : world.cancelAt = none

/-- Resolvers answer what a function says, at once or whenever they are woken. -/
structure Application.AnswersBy (application : Application σ) (answers : Answers)
    (token : CancellationToken) : Prop where
  ready : ∀ {resolver invocation outcome} {world later : World σ}, world.Quiet token →
    application.resolve resolver invocation world = (.ready outcome, later) →
    outcome = answers resolver invocation ∧ later.Quiet token
  suspended : ∀ {resolver invocation delay wake} {world later : World σ}, world.Quiet token →
    application.resolve resolver invocation world = (.suspended delay wake, later) →
    later.Quiet token ∧ ∀ woken : World σ, woken.Quiet token →
      (wake woken).1 = answers resolver invocation ∧ (wake woken).2.Quiet token

namespace World

private theorem Quiet.live {token : CancellationToken} {world : World σ} (quiet : world.Quiet token)
    (endless : token.deadline = none) : world.isInterrupted token = false := by
  rw [isInterrupted, CancellationToken.isExpired, endless, quiet.unsignalled]
  rfl

theorem check_quiet {token : CancellationToken} {world : World σ} (quiet : world.Quiet token)
    (endless : token.deadline = none) : world.check token = (none, world) :=
  check_of_live (quiet.live endless)

theorem interrupted_quiet {token : CancellationToken} {world : World σ} (quiet : world.Quiet token)
    (endless : token.deadline = none) : world.interrupted token = (none, world) :=
  interrupted_of_live (quiet.live endless)

theorem waitUntil_quiet {token : CancellationToken} {world : World σ} (quiet : world.Quiet token)
    (endless : token.deadline = none) (time : Nat) :
    world.waitUntil token time = (none, { world with now := max world.now time }) := by
  rw [waitUntil, nextInterruption?, endless, quiet.uncancelled]

end World

/-- Between steps nothing interrupts a quiet world. -/
theorem Conditions.holds_of_quiet {conditions : Conditions σ} {request : Request}
    {application : Application σ} (isSound : conditions.sound = World.Quiet request.token)
    (endless : request.token.deadline = none)
    (starts : ∀ call path world, world.Quiet request.token →
      conditions.StartsWell call path (request.start application path call world))
    (panics : request.throwOnUnhandled = true → ∀ reason, conditions.aborts (.panicked reason)) :
    conditions.Holds request application where
  start call path world isQuiet := starts call path world (isSound ▸ isQuiet)
  check world isQuiet := by
    rw [isSound] at isQuiet
    rw [World.check_quiet isQuiet endless]
    exact ⟨isSound ▸ isQuiet, by simp⟩
  interrupted world isQuiet := by
    rw [isSound] at isQuiet
    rw [World.interrupted_quiet isQuiet endless]
    exact ⟨isSound ▸ isQuiet, by simp⟩
  waitUntil world time isQuiet := by
    rw [isSound] at isQuiet
    have later : World.Quiet request.token { world with now := max world.now time } :=
      ⟨isQuiet.unsignalled, isQuiet.uncancelled⟩
    rw [World.waitUntil_quiet isQuiet endless]
    exact ⟨isSound ▸ later, by simp⟩
  panic := panics

namespace Request

/-- How a field starts: it is resolved without the application, or by a resolver, at once or
later. -/
inductive Starts (request : Request) (application : Application σ) (call : FieldCall) (path : Path)
    (world : World σ) : Started σ × World σ → Prop
  | alone {resolution : Resolution}
      (isResolution : ∀ answers, request.resolve answers call path = resolution) :
      Starts request application call path world (.resolved resolution, world)
  | ready {resolver : Nat} {invocation : Invocation} {outcome : Outcome FieldValue}
      {later : World σ} (isResolution : ∀ answers, request.resolve answers call path =
        .outcome (answers resolver invocation))
      (replied : application.resolve resolver invocation world = (.ready outcome, later)) :
      Starts request application call path world (.resolved (.outcome outcome), later)
  | suspended {resolver : Nat} {invocation : Invocation} {delay : Nat}
      {wake : World σ → Outcome FieldValue × World σ} {later : World σ}
      (isResolution : ∀ answers, request.resolve answers call path =
        .outcome (answers resolver invocation))
      (replied : application.resolve resolver invocation world = (.suspended delay wake, later)) :
      Starts request application call path world (.suspended delay wake, later)

theorem start_starts (request : Request) (application : Application σ) (call : FieldCall)
    (path : Path) (world : World σ) :
    request.Starts application call path world (request.start application path call world) := by
  rw [start]
  by_cases isMeta : call.isMeta = true
  · rw [if_pos isMeta]
    exact .alone fun _ => by rw [resolve, if_pos isMeta]
  · rw [if_neg isMeta]
    cases invoked : request.invocation path call with
    | error error => exact .alone fun _ => by rw [resolve, if_neg isMeta, invoked]
    | ok invocation =>
        cases named : call.definition.resolver with
        | none => exact .alone fun _ => by rw [resolve, if_neg isMeta, invoked, named]
        | some resolver =>
            have isResolution (answers : Answers) : request.resolve answers call path =
                .outcome (answers resolver invocation) := by
              rw [resolve, if_neg isMeta, invoked, named]
            simp only
            cases replied : application.resolve resolver invocation world with
            | mk reply later =>
                cases reply with
                | ready outcome => exact .ready isResolution replied
                | suspended delay wake => exact .suspended isResolution replied

/-- Resolvers answer what a function says, and nothing is aborted. -/
private def quiet (request : Request) (answers : Answers) : Conditions σ where
  sound := World.Quiet request.token
  allowed := request.answeredBy answers
  aborts _ := False

private theorem quiet_holds {request : Request} {answers : Answers} {application : Application σ}
    (answered : application.AnswersBy answers request.token)
    (endless : request.token.deadline = none) (passesOn : request.throwOnUnhandled = false) :
    (request.quiet answers : Conditions σ).Holds request application := by
  apply Conditions.holds_of_quiet rfl endless
  · intro call path world isQuiet
    have starts := start_starts request application call path world
    generalize request.start application path call world = result at starts ⊢
    cases starts with
    | alone isResolution => exact ⟨(isResolution answers).symm, isQuiet⟩
    | ready isResolution replied =>
        rcases answered.ready isQuiet replied with ⟨equal, laterQuiet⟩
        exact ⟨equal ▸ (isResolution answers).symm, laterQuiet⟩
    | suspended isResolution replied =>
        rcases answered.suspended isQuiet replied with ⟨laterQuiet, promised⟩
        refine ⟨fun woken wokenQuiet => ?_, laterQuiet⟩
        rcases promised woken wokenQuiet with ⟨equal, wokenLater⟩
        exact ⟨equal ▸ (isResolution answers).symm, wokenLater⟩
  · intro throws
    rw [passesOn] at throws
    cases throws

/-- The fields under a task nest less deep than the levels that are left. -/
def fitsLevels (request : Request) (levels : Nat) (task : FieldTask) : Prop :=
  request.document.nesting task.selectionSets.flatten < levels

private theorem CollectedFrom.nesting_lt {request : Request} (acyclic : request.document.Acyclic)
    {sets : List (List Selection)} {task : FieldTask}
    (collected : request.CollectedFrom sets task) :
    request.document.nesting task.selectionSets.flatten <
      request.document.nesting sets.flatten := by
  rcases collected with ⟨objectName, group, member, isGroup⟩
  rw [FieldCall.selectionSets, isGroup]
  exact collectFields_nesting_lt acyclic member

/-- The fields under a task that is handed out nest less deep than those under the task before. -/
theorem finish_nesting_lt {request : Request} (acyclic : request.document.Acyclic)
    {task : FieldTask} {resolution : Resolution} {draft later : Draft} {next : List FieldTask}
    (finished : request.finish task resolution draft = .ok (later, next)) :
    ∀ child ∈ next, request.document.nesting child.selectionSets.flatten <
      request.document.nesting task.selectionSets.flatten :=
  fun child member => CollectedFrom.nesting_lt acyclic (finish_collected finished child member)

theorem rootTasks_nesting_lt {request : Request} (acyclic : request.document.Acyclic)
    (rootValue : FieldValue) :
    ∀ task ∈ (request.rootTasks rootValue).2, request.document.nesting task.selectionSets.flatten <
      request.document.nesting request.operation.selections := by
  intro task member
  have collected : request.CollectedFrom [request.operation.selections] task := by
    rw [rootTasks] at member
    cases isRoot : request.rootType? with
    | none =>
        rw [isRoot] at member
        cases member
    | some object =>
        rw [isRoot] at member
        exact request.expandObject_collected _ _ _ _ _ task member
  have smaller := collected.nesting_lt acyclic
  rwa [List.flatten_singleton] at smaller

theorem fitsLevels_depths {request : Request} (acyclic : request.document.Acyclic)
    (levels : Nat) :
    Depths request (request.fitsLevels (levels + 1)) (request.fitsLevels levels) where
  leads fits finished child member :=
    (finish_nesting_lt acyclic finished child member).trans_le (Nat.le_of_lt_succ fits)

theorem fitsLevels_layers {request : Request} (acyclic : request.document.Acyclic)
    (conditions : Conditions σ) : request.Layers conditions request.fitsLevels where
  depths := fitsLevels_depths acyclic
  bottom _ fits := absurd fits (Nat.not_lt_zero _)

/-- There are levels enough for the top-level fields. -/
theorem rootTasks_fitLevels {request : Request} (acyclic : request.document.Acyclic)
    (known : request.operation ∈ request.document.operations)
    (deep : request.document.selectionCount ≤ request.depth) (rootValue : FieldValue) :
    ∀ task ∈ (request.rootTasks rootValue).2, request.fitsLevels request.depth task :=
  fun task member => (rootTasks_nesting_lt acyclic rootValue task member).trans_le
    ((acyclic.nesting_le_selectionCount known).trans deep)

end Request

end Quiet

/-- The executor refines the evaluator. In a document without cycles of fragments, with resolvers
that answer what a function says and scalars that serialize no value to null, every finished run of
the executor shows the data of the evaluator, and both strategies return it, whatever the bound on
resolvers in flight and whenever the suspended ones answer. -/
theorem Request.execution_refines_evaluate (request : Request)
    (acyclic : request.document.Acyclic) (keeps : request.registry.KeepsValues)
    (known : request.operation ∈ request.document.operations)
    (deep : request.document.selectionCount ≤ request.depth)
    (passesOn : request.throwOnUnhandled = false) (endless : request.token.deadline = none)
    (answers : Answers) (rootValue : FieldValue) :
    (∀ draft : Draft,
      request.Runs (request.answeredBy answers) (request.initial rootValue) (draft, 0) →
      draft.tree.data = request.evaluate acyclic answers rootValue) ∧
    ∀ (σ : Type) (application : Application σ) (world : World σ),
      application.AnswersBy answers request.token → world.Quiet request.token →
      (request.executeParallel application rootValue world).2 =
          .ok (request.evaluate acyclic answers rootValue) ∧
        (request.executeSerial application rootValue world).2 =
          .ok (request.evaluate acyclic answers rootValue) := by
  refine ⟨fun draft runs => Runs.data_eq acyclic keeps.serializesValues runs, ?_⟩
  intro σ application world answered isQuiet
  have returned : ∀ {result : Run σ × Except Abort Json},
      request.Ends (request.quiet answers) rootValue result →
      result.2 = .ok (request.evaluate acyclic answers rootValue) := by
    intro result ends
    rcases result with ⟨run, outcome⟩
    cases outcome with
    | error abort => exact ends.elim
    | ok data => rw [ends.2, Runs.data_eq acyclic keeps.serializesValues ends.1]
  have holds := quiet_holds answered endless passesOn
  have layers : request.Layers (request.quiet answers : Conditions σ) request.fitsLevels :=
    fitsLevels_layers acyclic _
  have inLayer := rootTasks_fitLevels acyclic known deep rootValue
  exact ⟨returned (executeParallel_ends holds layers rootValue isQuiet inLayer),
    returned (executeSerial_ends holds layers rootValue isQuiet inLayer)⟩

namespace Greeter

private theorem acyclic : request.document.Acyclic := by
  intro name cycle
  rcases Relation.TransGen.head'_iff.mp cycle with ⟨next, ⟨fragment, found, _⟩, _⟩
  cases found

theorem keepsValues : request.registry.KeepsValues := by
  intro named registered notBuiltIn scalar isScalar
  rcases List.mem_append.mp registered with isBuiltIn | isCustom
  · exact absurd isBuiltIn notBuiltIn
  · rw [List.mem_singleton.mp isCustom] at isScalar
    cases isScalar

def answers : Answers := fun _ _ => .panic none

private theorem answersBy : application.AnswersBy answers request.token where
  ready isQuiet replied := by
    cases replied
    exact ⟨rfl, isQuiet⟩
  suspended _ replied := by cases replied

end Greeter

/-- The evaluator says what both strategies return: the missing greeting of the friend nulls the
friend. -/
theorem Request.execution_refines_evaluate_of_greeter :
    Greeter.request.evaluate Greeter.acyclic Greeter.answers Greeter.root = Greeter.data ∧
      (Greeter.request.executeSerial Greeter.application Greeter.root { state := () }).2 =
        .ok Greeter.data := by
  have refines := (Request.execution_refines_evaluate Greeter.request Greeter.acyclic
    Greeter.keepsValues List.mem_cons_self (Nat.le_refl 3) rfl rfl Greeter.answers
    Greeter.root).2 Unit Greeter.application { state := () } Greeter.answersBy ⟨rfl, rfl⟩
  have evaluated := Except.ok.inj (refines.1.symm.trans Greeter.executed)
  exact ⟨evaluated, refines.2.trans (congrArg Except.ok evaluated)⟩

end GraphQL
