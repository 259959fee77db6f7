import GraphQL.Execution.Operation
import GraphQL.Execution.Subscription
import GraphQL.Schema.Build
import GraphQL.Validation.Plan
import GraphQL.Validation.Request

/-!
The way of a request through the engine: the operation is chosen, the document checked and the
operation executed, while listeners look on.
-/

namespace GraphQL

/-- An onlooker. At each point it may act on the world. -/
structure Listener (σ : Type) where
  beforeValidation : Document → Option String → World σ → World σ := fun _ _ world => world
  afterValidation : RequestCheck → World σ → World σ := fun _ world => world
  beforeExecution : Request → World σ → World σ := fun _ world => world
  afterExecution : Option Json → List ResponseError → World σ → World σ := fun _ _ world => world

structure ExecutionOptions (σ : Type) where
  schema : Option Schema := none
  document : Option Document := none
  operationName : Option String := none
  /-- The provided variables. -/
  variableValues : List (String × Json) := []
  rootValue : FieldValue := .null
  token : CancellationToken
  maxParallelism : Nat := 32
  /-- How long the request may take. -/
  timeout : Option Nat := none
  throwOnUnhandled : Bool := false
  plan : List Rule := defaultPlan
  listeners : List (Listener σ) := []
  application : Application σ
  /-- How many levels a document may have beyond the number of its selections, which only cycles of
  fragments lead to. -/
  cyclicLevels : Nat := 1000000

inductive EngineError where
  | missingSchema
  | missingDocument
  | invalidSchema (error : SchemaError)
  | interrupted (interruption : Interruption)
  | tooDeep

def EngineError.message : EngineError → String
  | .missingSchema => "no schema was provided"
  | .missingDocument => "no document was provided"
  | .invalidSchema error => "the schema is invalid: " ++ error.message
  | .interrupted interruption => "the execution was " ++ interruption.message
  | .tooDeep => "the execution was nested too deep"

inductive ExecutionOutcome (σ : Type) where
  | failed (error : EngineError)
  /-- A panic is passed on to the caller. -/
  | panicked (reason : Option String)
  | completed (result : ExecutionResult) (subscription : Option (Subscription σ))

namespace Request

variable {σ : Type}

def execute (request : Request) (application : Application σ) (rootValue : FieldValue)
    (world : World σ) :
    Run σ × Except Abort (ExecutionResult × Option (Subscription σ)) :=
  let withData (result : Run σ × Except Abort Json) :=
    (result.1, result.2.map fun data => (ExecutionResult.ofExecution (some data) [] none, none))
  match request.operation.kind.strategy with
  | .parallel => withData (request.executeParallel application rootValue world)
  | .serial => withData (request.executeSerial application rootValue world)
  | .streaming =>
      match request.openSource application rootValue world with
      | (world, .error abort) => ({ world := world }, .error abort)
      | (world, .ok (.error error)) =>
          ({ world := world }, .ok (.ofExecution none [error] none, none))
      | (world, .ok (.ok source)) =>
          ({ world := world },
            .ok ({ executed := true },
              some { request := request, application := application, source := source }))

end Request

namespace ExecutionOptions

variable {σ : Type}

def notify (options : ExecutionOptions σ) (tell : Listener σ → World σ → World σ)
    (world : World σ) : World σ :=
  options.listeners.foldl (fun world listener => tell listener world) world

/-- Put what the run has left behind into the result, and tell the listeners. -/
def conclude (options : ExecutionOptions σ) (run : Run σ) (result : ExecutionResult)
    (subscription : Option (Subscription σ)) : ExecutionOutcome σ × World σ :=
  let result := result.extend run.draft.errors run.world.extensions
  let world := options.notify (·.afterExecution result.data result.errors)
    { run.world with extensions := [] }
  (.completed result subscription, world)

def executeChecked (options : ExecutionOptions σ) (request : Request) (world : World σ) :
    ExecutionOutcome σ × World σ :=
  let world := options.notify (·.beforeExecution request) { world with extensions := [] }
  match request.execute options.application options.rootValue world with
  | (run, .ok (result, subscription)) => options.conclude run result subscription
  | (run, .error (.interrupted interruption)) => (.failed (.interrupted interruption), run.world)
  | (run, .error .tooDeep) => (.failed .tooDeep, run.world)
  | (run, .error (.panicked reason)) =>
      if options.throwOnUnhandled then (.panicked reason, run.world)
      else options.conclude run (.ofExecution none [unhandledError reason] none) none

def noRootType (operation : Operation) : ResponseError :=
  (operationFailure
    s!"Schema is not configured to execute {operation.kind.keyword} operation.").withLocations
    [operation.position]

def executeOperation (options : ExecutionOptions σ) (registry : Registry) (document : Document)
    (token : CancellationToken) (operation : Operation) (world : World σ) :
    ExecutionOutcome σ × World σ :=
  let refuse (errors : List ResponseError) (world : World σ) : ExecutionOutcome σ × World σ :=
    (.completed (.rejected errors) none, world)
  let world := options.notify (·.beforeValidation document options.operationName) world
  let check := document.checkRequest registry options.plan operation options.variableValues
  let world := options.notify (·.afterValidation check) world
  if !check.isValid then refuse check.errors world
  else if (registry.root? operation.kind).isNone then refuse [noRootType operation] world
  else
    options.executeChecked
      { registry := registry
        document := document
        operation := operation
        variableValues := check.variableValues
        token := token
        maxParallelism := options.maxParallelism
        throwOnUnhandled := options.throwOnUnhandled
        depth := document.selectionCount + options.cyclicLevels }
      world

def execute (options : ExecutionOptions σ) (world : World σ) : ExecutionOutcome σ × World σ :=
  match options.schema, options.document with
  | none, _ => (.failed .missingSchema, world)
  | _, none => (.failed .missingDocument, world)
  | some schema, some document =>
      match schema.build with
      | .error error => (.failed (.invalidSchema error), world)
      | .ok registry =>
          let token := options.timeout.elim options.token (options.token.withDeadline world.now)
          match world.check token with
          | (some interruption, world) => (.failed (.interrupted interruption), world)
          | (none, world) =>
              match document.selectOperation options.operationName with
              | .error error =>
                  (.completed (.rejected [operationFailure error.message]) none, world)
              | .ok (_, operation) =>
                  options.executeOperation registry document token operation world

end ExecutionOptions

end GraphQL
