/-!
Cancellation tokens. Tokens of one family share a signal; each may have a deadline of its own. The
signals live in a table, so that a check can set one.
-/

namespace GraphQL

inductive Interruption where
  | cancelled
  | timedOut
deriving DecidableEq, Repr

def Interruption.message : Interruption → String
  | .cancelled => "cancelled"
  | .timedOut => "timed out"

structure CancellationToken where
  signal : Nat
  deadline : Option Nat
deriving DecidableEq, Repr

/-- The signals by number: whether each has been given. -/
abbrev Signals := List Bool

namespace CancellationToken

def create (signals : Signals) : CancellationToken × Signals :=
  (⟨signals.length, none⟩, signals ++ [false])

def withTimeout (signals : Signals) (now duration : Nat) : CancellationToken × Signals :=
  (⟨signals.length, some (now + duration)⟩, signals ++ [false])

def withDeadline (token : CancellationToken) (now duration : Nat) : CancellationToken :=
  { token with
    deadline := some (token.deadline.elim (now + duration) (min · (now + duration))) }

def cancel (token : CancellationToken) (signals : Signals) : Signals :=
  signals.set token.signal true

def isSignalled (token : CancellationToken) (signals : Signals) : Bool :=
  (signals[token.signal]?).getD false

def isExpired (token : CancellationToken) (now : Nat) : Bool :=
  token.deadline.any (· ≤ now)

/-- Check a token. An expired token gives the signal, and says so even when it was given before. -/
def check (token : CancellationToken) (now : Nat) (signals : Signals) :
    Option Interruption × Signals :=
  if token.isExpired now then (some .timedOut, token.cancel signals)
  else if token.isSignalled signals then (some .cancelled, signals)
  else (none, signals)

def isCancelled (token : CancellationToken) (now : Nat) (signals : Signals) : Bool × Signals :=
  let (interruption, signals) := token.check now signals
  (interruption.isSome, signals)

def wait (token : CancellationToken) (now : Nat) (signals : Signals) :
    Option Interruption × Signals :=
  if token.isSignalled signals then
    (some (if token.isExpired now then .timedOut else .cancelled), signals)
  else token.check now signals

end CancellationToken

end GraphQL
