import GraphQL.Cancellation
import GraphQL.Coercion.Variables
import GraphQL.Document.Basic
import GraphQL.Response.Error
import GraphQL.Schema.Registry

/-!
A request on its way: what is fixed for all of its fields, and the world that resolvers act on.
-/

namespace GraphQL

structure Request where
  registry : Registry
  document : Document
  operation : Operation
  variableValues : Variables
  token : CancellationToken
  /-- How many suspended resolvers may be in flight; zero counts as one. -/
  maxParallelism : Nat := 32
  /-- Whether a panic of a resolver ends the request. -/
  throwOnUnhandled : Bool := false
  /-- How many levels of fields may be nested. No document without cycles of fragments has more
  levels than selections. -/
  depth : Nat

namespace Request

def rootType? (request : Request) : Option NamedType :=
  request.registry.root? request.operation.kind

def inFlightBound (request : Request) : Nat := max 1 request.maxParallelism

end Request

/-- What changes while a request runs, beside its result. The time is that of a clock that moves
only while the engine waits. -/
structure World (σ : Type) where
  /-- The state of the application. -/
  state : σ
  now : Nat := 0
  signals : Signals := []
  /-- When the token of the request is cancelled from outside, if that is going to happen. -/
  cancelAt : Option Nat := none
  /-- The extensions of the response so far. -/
  extensions : List (String × Json) := []

namespace World

variable {σ : Type}

def setExtension (world : World σ) (key : String) (value : Json) : World σ :=
  { world with extensions := Named.put world.extensions (key, value) }

def cancel (world : World σ) (token : CancellationToken) : World σ :=
  { world with signals := token.cancel world.signals }

def check (world : World σ) (token : CancellationToken) : Option Interruption × World σ :=
  let (interruption, signals) := token.check world.now world.signals
  (interruption, { world with signals := signals })

/-- Whether a wait that starts now would end with the cancellation at once. -/
def interrupted (world : World σ) (token : CancellationToken) : Option Interruption × World σ :=
  let (interruption, signals) := token.wait world.now world.signals
  (interruption, { world with signals := signals })

def nextInterruption? (world : World σ) (token : CancellationToken) :
    Option (Nat × Interruption) :=
  match token.deadline, world.cancelAt with
  | none, none => none
  | some deadline, none => some (deadline, .timedOut)
  | none, some time => some (time, .cancelled)
  | some deadline, some time =>
      if deadline ≤ time then some (deadline, .timedOut) else some (time, .cancelled)

def waitUntil (world : World σ) (token : CancellationToken) (time : Nat) :
    Option Interruption × World σ :=
  match world.nextInterruption? token with
  | some (moment, interruption) =>
      if moment ≤ time then
        (some interruption, { world with now := max world.now moment }.cancel token)
      else (none, { world with now := max world.now time })
  | none => (none, { world with now := max world.now time })

end World

end GraphQL
