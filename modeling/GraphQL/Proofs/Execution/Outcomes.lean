import GraphQL.Proofs.Execution.Cancellation
import GraphQL.Proofs.Execution.Recording
import GraphQL.Proofs.Execution.Subscription

/-!
How requests end. A request is interrupted, refused before anything of it is executed, or executed;
the calls of listeners, resolvers and subscribers on the way are the same for all requests that end
in the same way.
-/

namespace GraphQL

variable {σ : Type}

/-! ## Executed operations -/

namespace Request

/-- Opening the source of a subscription fails, for another reason than an interruption. -/
def sourceFails (request : Request) (application : Application σ) (rootValue : FieldValue)
    (world : World σ) : Bool :=
  request.operation.kind == .subscription &&
    match (request.openSource application rootValue world).2 with
    | .ok (.ok _) => false
    | .ok (.error _) => true
    | .error (.panicked _) => true
    | .error _ => false

/-- What an executed request delivers: data or a stream, and neither of them if there is no
source. -/
structure Delivers (request : Request) (application : Application σ) (rootValue : FieldValue)
    (world : World σ) (result : ExecutionResult) (subscription : Option (Subscription σ)) :
    Prop where
  executed : result.executed = true
  one : request.sourceFails application rootValue world = false →
    result.data.isSome = !subscription.isSome
  none : request.sourceFails application rootValue world = true →
    result.data = .none ∧ subscription.isNone = true ∧ result.errors ≠ []

/-- What has gone wrong before does not change what is delivered. -/
private theorem Delivers.extend {request : Request} {application : Application σ}
    {rootValue : FieldValue}
    {world : World σ} {result : ExecutionResult} {subscription : Option (Subscription σ)}
    (delivers : request.Delivers application rootValue world result subscription)
    (errors : List ResponseError) (extensions : List (String × Json)) :
    request.Delivers application rootValue world (result.extend errors extensions)
      subscription where
  executed := delivers.executed
  one := delivers.one
  none fails := by
    rcases delivers.none fails with ⟨noData, noStream, reported⟩
    exact ⟨noData, noStream, List.append_ne_nil_of_right_ne_nil errors reported⟩

variable {request : Request} (application : Application σ)

end Request

/-! ## Requests -/

namespace ExecutionOptions

variable (options : ExecutionOptions σ)

/-- The token of the request, which expires after the timeout if there is one. -/
def requestToken (world : World σ) : CancellationToken :=
  options.timeout.elim options.token (options.token.withDeadline world.now)

def check (registry : Registry) (document : Document) (operation : Operation) : RequestCheck :=
  document.checkRequest registry options.plan operation options.variableValues

/-- The request that is executed if an operation passes the check. -/
def requestFor (registry : Registry) (document : Document) (operation : Operation)
    (world : World σ) : Request where
  registry := registry
  document := document
  operation := operation
  variableValues := (options.check registry document operation).variableValues
  token := options.requestToken world
  maxParallelism := options.maxParallelism
  throwOnUnhandled := options.throwOnUnhandled
  depth := document.selectionCount + options.cyclicLevels

/-- The world after the check. -/
def checkedWorld (registry : Registry) (document : Document) (operation : Operation)
    (world : World σ) : World σ :=
  options.checkWorld document (options.check registry document operation)
    (world.check (options.requestToken world)).2

/-- The world in which the operation is executed. -/
def startFor (registry : Registry) (document : Document) (operation : Operation)
    (world : World σ) : World σ :=
  options.ready (options.requestFor registry document operation world)
    (options.checkedWorld registry document operation world)

/-- There is no operation to execute, the check of the request reports errors, or the schema has no
root type for the operation. -/
def Refuses (registry : Registry) (document : Document) : Prop :=
  match document.selectOperation options.operationName with
  | .error _ => True
  | .ok (_, operation) =>
      (options.check registry document operation).errors ≠ [] ∨
        registry.root? operation.kind = none

/-- How a request ends, with the calls on the way. -/
inductive Concludes (registry : Registry) (document : Document) (world : World σ) :
    ExecutionOutcome σ → List Call → Prop
  | interrupted (interruption : Interruption) (notes : List Call) :
      Concludes registry document world (.failed (.interrupted interruption)) notes
  /-- Fragments that lead to themselves may be executed without end. -/
  | endless (cyclic : ¬document.Acyclic) (notes : List Call) :
      Concludes registry document world (.failed .tooDeep) notes
  | refused {errors : List ResponseError} {notes : List Call} (reported : errors ≠ [])
      (called : notes = [] ∨ notes = options.checkCalls) :
      Concludes registry document world (.completed (.rejected errors) none) notes
  | executed {index : Nat} {operation : Operation} {result : ExecutionResult}
      {subscription : Option (Subscription σ)} {calls : List Call}
      (selected : document.selectOperation options.operationName = .ok (index, operation))
      (delivers : (options.requestFor registry document operation world).Delivers
        options.application options.rootValue (options.startFor registry document operation world)
        result subscription)
      (forFields : ∀ call ∈ calls, call.isForField = true) :
      Concludes registry document world (.completed result subscription)
        (options.checkCalls ++ options.calls .beforeExecution ++ calls ++
          options.calls .afterExecution)

variable {options} {registry : Registry} {document : Document}

end ExecutionOptions

namespace Ticker

/-! The clock again, with two listeners, and out of order from the start. -/

def broken : ExecutionOptions Unit :=
  { options with
    listeners := [{}, {}]
    application := { application with
      subscribe := fun _ _ world => (.panic (some "broken"), world) } }

end Ticker

end GraphQL
