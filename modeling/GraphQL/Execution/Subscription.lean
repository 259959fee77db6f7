import GraphQL.Execution.Level
import GraphQL.Response.Result

/-!
Subscriptions: one source of events, and for each of them an execution of the operation with the
event as root value. Nothing happens before a result is asked for.
-/

namespace GraphQL

structure Subscription (σ : Type) where
  request : Request
  application : Application σ
  source : EventSource σ
  /-- The number of the next event. -/
  position : Nat := 0
  ended : Bool := false

inductive EventResult where
  | result (result : ExecutionResult)
  /-- A panic that is passed on, after which nothing follows. -/
  | panicked (reason : Option String)

namespace Request

variable {σ : Type}

def noSourceField : ResponseError :=
  { message := "Subscription must select a field with a source stream.", kind := .resolver }

def noSource (name : String) : ResponseError :=
  { message := s!"Subscription field \"{name}\" has no source stream.", kind := .resolver }

def openSource (request : Request) (application : Application σ) (rootValue : FieldValue)
    (world : World σ) : World σ × Except Abort (Except ResponseError (EventSource σ)) :=
  let (draft, tasks) := request.rootTasks rootValue
  match tasks with
  | [] => (world, .ok (.error noSourceField))
  | task :: _ =>
      let locate := draft.locate task task.node
      match task.definition.subscriber with
      | none => (world, .ok (.error (locate (noSource task.definition.name))))
      | some subscriber =>
          match request.invocation (draft.tree.path task.node) task.toFieldCall with
          | .error error => (world, .ok (.error (locate (argumentError error))))
          | .ok invocation =>
              match application.subscribe subscriber invocation world with
              | (.panic reason, world) => (world, .error (.panicked reason))
              | (.suspended delay wake, world) =>
                  match world.interrupted request.token with
                  | (some interruption, world) => (world, .error (.interrupted interruption))
                  | (none, world) =>
                      match world.waitUntil request.token (world.now + delay) with
                      | (some interruption, world) => (world, .error (.interrupted interruption))
                      | (none, world) =>
                          match wake world with
                          | (.panic reason, world) => (world, .error (.panicked reason))
                          | (.error error, world) =>
                              (world, .ok (.error (locate error.toResponse)))
                          | (.value source, world) => (world, .ok (.ok source))

def executeEvent (request : Request) (application : Application σ) (event : Event)
    (world : World σ) : World σ × Except Abort ExecutionResult :=
  match event with
  | .error error => (world, .ok (.ofExecution none [error.toResponse] none))
  | .ok rootValue =>
      match request.executeParallel application rootValue { world with extensions := [] } with
      | (run, .error abort) => (run.world, .error abort)
      | (run, .ok data) =>
          (run.world, .ok (.ofExecution (some data) run.draft.errors (some run.world.extensions)))

end Request

namespace Subscription

variable {σ : Type}

def close (subscription : Subscription σ) : Subscription σ := { subscription with ended := true }

/-- The result of an event that was emitted. A subscription ends when it is interrupted or when a
panic is passed on. -/
def resultOf (subscription : Subscription σ) (event : Event) (world : World σ) :
    Option EventResult × Subscription σ × World σ :=
  match world.check subscription.request.token with
  | (some _, world) => (none, subscription.close, world)
  | (none, world) =>
      match subscription.request.executeEvent subscription.application event world with
      | (world, .ok result) => (some (.result result), subscription, world)
      | (world, .error (.panicked reason)) =>
          if subscription.request.throwOnUnhandled then
            (some (.panicked reason), subscription.close, world)
          else
            (some (.result (.ofExecution none [unhandledError reason] none)), subscription, world)
      | (world, .error _) => (none, subscription.close, world)

/-- Ask for the next result. There is none once the source has ended or the request was
interrupted. -/
def next (subscription : Subscription σ) (world : World σ) :
    Option EventResult × Subscription σ × World σ :=
  if subscription.ended then (none, subscription, world)
  else
    match world.interrupted subscription.request.token with
    | (some _, world) => (none, subscription.close, world)
    | (none, world) =>
        match subscription.source subscription.position with
        | none => (none, subscription.close, world)
        | some pending =>
            match world.waitUntil subscription.request.token (world.now + pending.delay) with
            | (some _, world) => (none, subscription.close, world)
            | (none, world) =>
                let (event, world) := pending.emit world
                resultOf { subscription with position := subscription.position + 1 } event world

end Subscription

end GraphQL
