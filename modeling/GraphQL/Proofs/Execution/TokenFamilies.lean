import GraphQL.Proofs.Execution.Tokens
import Mathlib.Order.Lattice.Nat
import Mathlib.Order.WithBot

/-!
Families of tokens. All tokens that come from one token share its signal, but each has a deadline of
its own, no later than those it comes from. The signal is given just when some token was cancelled
or was found expired, and from then on no check passes.
-/

namespace GraphQL

namespace CancellationToken

variable {token : CancellationToken} {signals : Signals} {now : Nat}

/-- The deadline of a token has passed. -/
def Expired (token : CancellationToken) (now : Nat) : Prop :=
  ∃ deadline, token.deadline = some deadline ∧ deadline ≤ now

private theorem isExpired_iff : token.isExpired now = true ↔ token.Expired now := by
  rw [isExpired, Option.any_eq_true]
  simp [Expired]

/-- A token that was just made, and the signals after that. -/
inductive Made : CancellationToken → Signals → Prop
  | unbounded (signals : Signals) : Made (create signals).1 (create signals).2
  | bounded (signals : Signals) (now duration : Nat) :
      Made (withTimeout signals now duration).1 (withTimeout signals now duration).2

private theorem Made.unsignalled {root : CancellationToken} (made : root.Made signals) :
    signals[root.signal]? = some false := by
  cases made <;> simp [create, withTimeout]

private theorem isSignalled_of_shared {other : CancellationToken}
    (shared : token.signal = other.signal) :
    token.isSignalled signals = other.isSignalled signals := by
  rw [isSignalled, isSignalled, shared]

private theorem isSignalled_cancel (known : token.signal < signals.length) :
    token.isSignalled (token.cancel signals) = true := by
  simp [isSignalled, cancel, known]

private theorem check_timedOut_iff :
    (token.check now signals).1 = some .timedOut ↔ token.Expired now := by
  rw [← isExpired_iff, check]
  cases token.isExpired now <;> cases token.isSignalled signals <;> simp

private theorem check_cancelled_iff :
    (token.check now signals).1 = some .cancelled ↔
      ¬token.Expired now ∧ token.isSignalled signals = true := by
  rw [← isExpired_iff, check]
  cases token.isExpired now <;> cases token.isSignalled signals <;> simp

private theorem isCancelled_iff :
    (token.isCancelled now signals).1 = true ↔
      token.Expired now ∨ token.isSignalled signals = true := by
  rw [← isExpired_iff, isCancelled, check]
  cases token.isExpired now <;> cases token.isSignalled signals <;> simp

private theorem length_check : (token.check now signals).2.length = signals.length := by
  rw [check]
  cases token.isExpired now <;> cases token.isSignalled signals <;> simp [cancel]

private theorem isSignalled_check (now : Nat) (known : token.signal < signals.length) :
    token.isSignalled (token.check now signals).2 = true ↔
      token.isSignalled signals = true ∨ token.Expired now := by
  rw [← isExpired_iff, check]
  cases token.isExpired now with
  | true => simp [isSignalled_cancel known]
  | false => cases signalled : token.isSignalled signals <;> simp [signalled]

/-- The deadline of a token, beyond all times if there is none. -/
def limit (token : CancellationToken) : WithTop Nat :=
  match token.deadline with
  | none => ⊤
  | some deadline => WithTop.some deadline

private theorem withDeadline_limit (duration : Nat) :
    (token.withDeadline now duration).limit =
      min token.limit (WithTop.some (now + duration)) := by
  rw [limit, limit, withDeadline]
  cases token.deadline with
  | none => exact (min_eq_right le_top).symm
  | some deadline => exact WithTop.coe_min deadline (now + duration)

end CancellationToken

/-! ## Families -/

/-- Something that is done with a token, and what comes of it. -/
inductive TokenEvent where
  | cloned (token : CancellationToken)
  | bounded (token : CancellationToken) (duration : Nat) (derived : CancellationToken)
  | cancelled (token : CancellationToken)
  /-- It was asked whether a token is cancelled. -/
  | asked (token : CancellationToken) (found : Bool)
  | checked (token : CancellationToken) (answer : Option Interruption)

namespace TokenEvent

/-- A token is cancelled, or a check at that time fails because its deadline has passed. -/
def GivesSignal (now : Nat) : TokenEvent → Prop
  | .cancelled _ => True
  | .asked token found => found = true ∧ token.Expired now
  | .checked _ answer => answer = some .timedOut
  | _ => False

/-- A check that fails. -/
def Fails : TokenEvent → Prop
  | .asked _ found => found = true
  | .checked _ answer => answer.isSome = true
  | _ => False

/-- A check that passes. -/
def Passes : TokenEvent → Prop
  | .asked _ found => found = false
  | .checked _ answer => answer = none
  | _ => False

end TokenEvent

/-- An event with its time. -/
abbrev TimedEvent := Nat × TokenEvent

/-- An event that gave the signal at its time. -/
def TimedEvent.GaveSignal (event : TimedEvent) : Prop := event.2.GivesSignal event.1

private theorem gaveSignal_concat {events : List TimedEvent} {now : Nat} {event : TokenEvent} :
    (∃ earlier ∈ events ++ [(now, event)], earlier.GaveSignal) ↔
      (∃ earlier ∈ events, earlier.GaveSignal) ∨ event.GivesSignal now := by
  simp [or_and_right, exists_or, TimedEvent.GaveSignal]

/-- The tokens that came from one token, and the signals. -/
structure TokenFamily where
  tokens : List CancellationToken
  signals : Signals

namespace TokenFamily

/-- What may be done with the tokens of a family at some time. -/
inductive Happens (family : TokenFamily) (now : Nat) : TokenEvent → TokenFamily → Prop
  | clone {token : CancellationToken} (member : token ∈ family.tokens) :
      Happens family now (.cloned token) { family with tokens := token :: family.tokens }
  | bound {token : CancellationToken} (member : token ∈ family.tokens) (duration : Nat) :
      Happens family now (.bounded token duration (token.withDeadline now duration))
        { family with tokens := token.withDeadline now duration :: family.tokens }
  | cancel {token : CancellationToken} (member : token ∈ family.tokens) :
      Happens family now (.cancelled token)
        { family with signals := token.cancel family.signals }
  | ask {token : CancellationToken} (member : token ∈ family.tokens) :
      Happens family now (.asked token (token.isCancelled now family.signals).1)
        { family with signals := (token.isCancelled now family.signals).2 }
  | check {token : CancellationToken} (member : token ∈ family.tokens) :
      Happens family now (.checked token (token.check now family.signals).1)
        { family with signals := (token.check now family.signals).2 }

/-- What happened to a family, one event after another, whatever the clock showed. -/
inductive History (start : TokenFamily) : List TimedEvent → TokenFamily → Prop
  | start : History start [] start
  | next {events : List TimedEvent} {family later : TokenFamily} {now : Nat} {event : TokenEvent}
      (earlier : History start events family) (happens : family.Happens now event later) :
      History start (events ++ [(now, event)]) later

/-- What holds of a family after some events: all tokens share the signal, which was given just when
one of the events gave it, and none of them outlives the first. -/
structure Accounts (root : CancellationToken) (events : List TimedEvent) (family : TokenFamily) :
    Prop where
  shared : ∀ token ∈ family.tokens, token.signal = root.signal
  known : root.signal < family.signals.length
  signalled : root.isSignalled family.signals = true ↔ ∃ event ∈ events, event.GaveSignal
  bounded : ∀ token ∈ family.tokens, token.limit ≤ root.limit

variable {root token : CancellationToken} {events before after : List TimedEvent}
  {start family later : TokenFamily} {now : Nat} {event : TokenEvent}

private theorem Accounts.isSignalled (accounts : family.Accounts root events)
    (member : token ∈ family.tokens) :
    token.isSignalled family.signals = true ↔ ∃ event ∈ events, event.GaveSignal := by
  rw [← accounts.signalled, CancellationToken.isSignalled_of_shared (accounts.shared token member)]

private theorem Accounts.known_of_mem (accounts : family.Accounts root events)
    (member : token ∈ family.tokens) : token.signal < family.signals.length :=
  accounts.shared token member ▸ accounts.known

/-- A token comes from one of the family, which does not touch the signal. -/
private theorem Accounts.derive (accounts : family.Accounts root events)
    (silent : ¬event.GivesSignal now) (shared : token.signal = root.signal)
    (bounded : token.limit ≤ root.limit) :
    Accounts root (events ++ [(now, event)])
      { family with tokens := token :: family.tokens } where
  shared := List.forall_mem_cons.mpr ⟨shared, accounts.shared⟩
  known := accounts.known
  signalled := by
    rw [gaveSignal_concat, or_iff_left silent]
    exact accounts.signalled
  bounded := List.forall_mem_cons.mpr ⟨bounded, accounts.bounded⟩

/-- The signals change as the event answers. -/
private theorem Accounts.signal (accounts : family.Accounts root events)
    (member : token ∈ family.tokens)
    {signals : Signals} (sameLength : signals.length = family.signals.length)
    (given : token.isSignalled signals = true ↔
      token.isSignalled family.signals = true ∨ event.GivesSignal now) :
    Accounts root (events ++ [(now, event)]) { family with signals := signals } where
  shared := accounts.shared
  known := sameLength ▸ accounts.known
  signalled := by
    rw [accounts.isSignalled member,
      CancellationToken.isSignalled_of_shared (accounts.shared token member)] at given
    rw [gaveSignal_concat]
    exact given
  bounded := accounts.bounded

private theorem Happens.accounts (happens : family.Happens now event later)
    (accounts : family.Accounts root events) :
    later.Accounts root (events ++ [(now, event)]) := by
  cases happens with
  | @clone token member =>
      exact accounts.derive (fun gives => gives) (accounts.shared token member)
        (accounts.bounded token member)
  | @bound token member duration =>
      have bounded : (token.withDeadline now duration).limit ≤ root.limit := by
        rw [CancellationToken.withDeadline_limit]
        exact (min_le_left _ _).trans (accounts.bounded token member)
      exact accounts.derive (fun gives => gives) (accounts.shared token member) bounded
  | @cancel token member =>
      have signalled := CancellationToken.isSignalled_cancel (accounts.known_of_mem member)
      exact accounts.signal member (List.length_set ..)
        (by simp [signalled, TokenEvent.GivesSignal])
  | @ask token member =>
      have given := CancellationToken.isSignalled_check now (accounts.known_of_mem member)
      refine accounts.signal member CancellationToken.length_check ?_
      rw [TokenEvent.GivesSignal, CancellationToken.isCancelled_iff,
        and_iff_right_of_imp Or.inl]
      exact given
  | @check token member =>
      have given := CancellationToken.isSignalled_check now (accounts.known_of_mem member)
      refine accounts.signal member CancellationToken.length_check ?_
      rw [TokenEvent.GivesSignal, CancellationToken.check_timedOut_iff]
      exact given

private theorem History.accounts (history : History start events family)
    (accounts : start.Accounts root []) : family.Accounts root events := by
  induction history with
  | start => exact accounts
  | next _ happens induction => exact happens.accounts induction

private theorem History.happened (history : History start events family)
    (split : events = before ++ (now, event) :: after) :
    ∃ middle later, History start before middle ∧ middle.Happens now event later := by
  induction history generalizing after with
  | start => simp at split
  | @next events middle later time last earlier happens induction =>
      rcases List.eq_nil_or_concat after with rfl | ⟨rest, final, rfl⟩
      · have ends := List.append_inj' split rfl
        cases ends.2
        exact ⟨middle, later, ends.1 ▸ earlier, happens⟩
      · rw [List.concat_eq_append, ← List.cons_append, ← List.append_assoc] at split
        exact induction (List.append_inj' split rfl).1

end TokenFamily

/-- What checks of the tokens of a family say. A check says that a token timed out just when its own
deadline has passed, and that it was cancelled just when that has not passed and an earlier event
gave the signal of the family. -/
structure TokenFamily.Classified (events : List TimedEvent) : Prop where
  checked : ∀ (before : List TimedEvent) now token answer after,
    events = before ++ (now, .checked token answer) :: after →
      (answer = some .timedOut ↔ token.Expired now) ∧
      (answer = some .cancelled ↔ ¬token.Expired now ∧ ∃ earlier ∈ before, earlier.GaveSignal)
  asked : ∀ (before : List TimedEvent) now token found after,
    events = before ++ (now, .asked token found) :: after →
      (found = true ↔ token.Expired now ∨ ∃ earlier ∈ before, earlier.GaveSignal)

namespace TokenFamily

variable {root token : CancellationToken} {signals : Signals}
  {events before after : List TimedEvent} {start family later : TokenFamily} {now : Nat}
  {event : TokenEvent}

private theorem made_accounts (made : root.Made signals) : Accounts root [] ⟨[root], signals⟩ where
  shared token member := congrArg _ (List.mem_singleton.mp member)
  known := (List.getElem?_eq_some_iff.mp made.unsignalled).1
  signalled := by simp [CancellationToken.isSignalled, made.unsignalled]
  bounded token member := by rw [List.mem_singleton.mp member]

private theorem History.classified (accounts : start.Accounts root [])
    (history : History start events family) : Classified events where
  checked before now token answer after split := by
    rcases history.happened split with ⟨middle, later, earlier, happens⟩
    cases happens with
    | check member =>
        have given := (earlier.accounts accounts).isSignalled member
        rw [CancellationToken.check_timedOut_iff, CancellationToken.check_cancelled_iff, given]
        exact ⟨.rfl, .rfl⟩
  asked before now token found after split := by
    rcases history.happened split with ⟨middle, later, earlier, happens⟩
    cases happens with
    | ask member =>
        rw [CancellationToken.isCancelled_iff, (earlier.accounts accounts).isSignalled member]

private theorem Classified.gaveSignal (classified : Classified events)
    (split : events = before ++ (now, event) :: after) (fails : event.Fails) :
    ∃ earlier ∈ before ++ [(now, event)], earlier.GaveSignal := by
  rw [gaveSignal_concat]
  cases event with
  | cloned | bounded | cancelled => cases fails
  | asked token found =>
      rcases (classified.asked _ _ _ _ _ split).mp fails with expired | given
      · exact .inr ⟨fails, expired⟩
      · exact .inl given
  | checked token answer =>
      have answers := classified.checked _ _ _ _ _ split
      rcases Option.isSome_iff_exists.mp fails with ⟨interruption, rfl⟩
      cases interruption with
      | timedOut => exact .inr rfl
      | cancelled => exact .inl (answers.2.mp rfl).2

private theorem Classified.not_passes (classified : Classified events)
    (split : events = before ++ (now, event) :: after)
    (given : ∃ earlier ∈ before, earlier.GaveSignal) : ¬event.Passes := by
  cases event with
  | cloned | bounded | cancelled => exact fun passes => passes
  | asked token found =>
      intro passes
      have found := (classified.asked _ _ _ _ _ split).mpr (.inr given)
      rw [TokenEvent.Passes, found] at passes
      cases passes
  | checked token answer =>
      intro passes
      have answers := classified.checked _ _ _ _ _ split
      rw [show answer = none from passes] at answers
      have expired : token.Expired now := by
        by_contra unexpired
        exact nomatch answers.2.mpr ⟨unexpired, given⟩
      exact nomatch answers.1.mpr expired

private theorem Classified.sticky (classified : Classified events)
    (split : events = before ++ (now, event) :: after) (fails : event.Fails) :
    ∀ later ∈ after, ¬later.2.Passes := by
  intro later member
  rcases List.append_of_mem member with ⟨between, rest, rfl⟩
  have again : events = ((before ++ [(now, event)]) ++ between) ++ later :: rest := by
    rw [split]
    simp
  rcases classified.gaveSignal split fails with ⟨giver, listed, gave⟩
  exact classified.not_passes again ⟨giver, List.mem_append_left _ listed, gave⟩

private theorem History.derived (history : History start events family) {duration : Nat}
    {derived : CancellationToken} (listed : (now, .bounded token duration derived) ∈ events) :
    derived = token.withDeadline now duration := by
  rcases List.append_of_mem listed with ⟨before, after, split⟩
  rcases history.happened split with ⟨middle, later, _, happens⟩
  cases happens with
  | bound => rfl

end TokenFamily

/-- Whatever is done with a token that was just made and with the tokens that come from it: checks
fail just when the token has expired or the signal of the family was given, and say which; once one
fails, none passes. The deadline of a derived token is the earlier one of its own and that of the
token it is derived from, and no token outlives the first. -/
theorem family_checks_classified {root : CancellationToken} {signals : Signals}
    (made : root.Made signals) {events : List TimedEvent} {family : TokenFamily}
    (history : TokenFamily.History ⟨[root], signals⟩ events family) :
    TokenFamily.Classified events ∧
    (∀ (before : List TimedEvent) now event after, events = before ++ (now, event) :: after →
      event.Fails → ∀ later ∈ after, ¬later.2.Passes) ∧
    (∀ now token duration derived, (now, .bounded token duration derived) ∈ events →
      derived.limit = min token.limit (WithTop.some (now + duration))) ∧
    ∀ token ∈ family.tokens, token.signal = root.signal ∧ token.limit ≤ root.limit := by
  have begins := TokenFamily.made_accounts made
  have classified := history.classified begins
  have accounts := history.accounts begins
  refine ⟨classified, fun before now event after split => classified.sticky split,
    fun now token duration derived listed => ?_,
    fun token member => ⟨accounts.shared token member, accounts.bounded token member⟩⟩
  rw [history.derived listed]
  exact CancellationToken.withDeadline_limit duration

namespace Kettle

/-! A token without deadline, and one derived from it that expires after five minutes. -/

def whole : CancellationToken := ⟨0, none⟩

def timed : CancellationToken := ⟨0, some 5⟩

/-- That the time is over is found by asking the second token, and then seen by the first. -/
def events : List TimedEvent :=
  [(0, .bounded whole 5 timed), (3, .checked whole none), (5, .asked timed true),
    (6, .checked whole (some .cancelled)), (6, .checked timed (some .timedOut))]

private theorem history :
    TokenFamily.History ⟨[whole], [false]⟩ events ⟨[timed, whole], [true]⟩ := by
  have isWhole : whole ∈ [timed, whole] := List.mem_cons_of_mem _ List.mem_cons_self
  have isTimed : timed ∈ [timed, whole] := List.mem_cons_self
  have first : TokenFamily.History ⟨[whole], [false]⟩ (events.take 1) ⟨[timed, whole], [false]⟩ :=
    .next .start (.bound List.mem_cons_self 5)
  have second : TokenFamily.History ⟨[whole], [false]⟩ (events.take 2) ⟨[timed, whole], [false]⟩ :=
    .next first (.check isWhole)
  have third : TokenFamily.History ⟨[whole], [false]⟩ (events.take 3) ⟨[timed, whole], [true]⟩ :=
    .next second (.ask isTimed)
  have fourth : TokenFamily.History ⟨[whole], [false]⟩ (events.take 4) ⟨[timed, whole], [true]⟩ :=
    .next third (.check isWhole)
  exact .next fourth (.check isTimed)

end Kettle

/-- Asking the token that expires cancels the one that does not. -/
theorem family_checks_classified_of_kettle :
    Kettle.whole.Made [false] ∧
      TokenFamily.History ⟨[Kettle.whole], [false]⟩ Kettle.events
        ⟨[Kettle.timed, Kettle.whole], [true]⟩ ∧
      (∀ later ∈ Kettle.events.drop 3, ¬later.2.Passes) ∧
      Kettle.timed.limit = min Kettle.whole.limit (WithTop.some (0 + 5)) ∧
      ∃ earlier ∈ Kettle.events.take 3, earlier.GaveSignal := by
  have made : Kettle.whole.Made [false] := .unbounded []
  have checks := family_checks_classified made Kettle.history
  have cancelled := (checks.1.checked (Kettle.events.take 3) 6 Kettle.whole (some .cancelled)
    (Kettle.events.drop 4) rfl).2.mp rfl
  have later := checks.2.1 (Kettle.events.take 2) 5 (.asked Kettle.timed true) _ rfl rfl
  exact ⟨made, Kettle.history, later,
    checks.2.2.1 0 Kettle.whole 5 Kettle.timed List.mem_cons_self, cancelled.2⟩

end GraphQL
