import GraphQL.Coercion.Arguments
import GraphQL.Execution.Request

/-!
What an application is to the engine: resolvers that are called for fields and answer at once or
after some time, and subscribers that open streams of events.
-/

namespace GraphQL

structure ResolverError where
  message : String
  code : Option String := none
  extensions : List (String × Json) := []

namespace ResolverError

def toResponse (error : ResolverError) : ResponseError :=
  { message := error.message
    kind := .resolver
    code := error.code
    extensions := Named.ofList error.extensions }

end ResolverError

def unhandled : String := "UNHANDLED"

def unhandledError (reason : Option String) : ResponseError :=
  { message :=
      "Unexpected error while executing the operation: " ++ reason.getD "unknown panic payload"
    kind := .unhandled
    code := some unhandled }

inductive Outcome (α : Type) where
  | value (value : α)
  | error (error : ResolverError)
  | panic (reason : Option String)

structure Invocation where
  parent : FieldValue
  arguments : Arguments
  field : FieldDefinition
  /-- The fields of the document that are answered together. -/
  nodes : List Field
  parentType : String
  path : Path
  variableValues : Variables
  token : CancellationToken

inductive Reply (σ : Type) where
  | ready (outcome : Outcome FieldValue)
  | suspended (delay : Nat) (wake : World σ → Outcome FieldValue × World σ)

abbrev Event := Except ResolverError FieldValue

structure PendingEvent (σ : Type) where
  delay : Nat
  emit : World σ → Event × World σ

/-- A source of events by number. The stream ends at the first number without event. -/
abbrev EventSource (σ : Type) := Nat → Option (PendingEvent σ)

inductive SubscriberReply (σ : Type) where
  | panic (reason : Option String)
  | suspended (delay : Nat) (wake : World σ → Outcome (EventSource σ) × World σ)

structure Application (σ : Type) where
  resolve : Nat → Invocation → World σ → Reply σ × World σ
  subscribe : Nat → Invocation → World σ → SubscriberReply σ × World σ

end GraphQL
