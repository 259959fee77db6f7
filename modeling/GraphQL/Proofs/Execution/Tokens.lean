import GraphQL.Execution.Request
import Mathlib.Data.List.Basic
import Mathlib.Order.MinMax

/-!
Tokens over time. A token that is interrupted, because its signal was given or its deadline has
passed, stays so; checks and waits find an interruption just when the token is interrupted.
-/

namespace GraphQL

variable {σ : Type}

namespace World

variable {world before middle after later : World σ} {token : CancellationToken}
  {interruption : Interruption}

/-- Whether a token has expired or its signal was given. -/
def isInterrupted (world : World σ) (token : CancellationToken) : Bool :=
  token.isExpired world.now || token.isSignalled world.signals

/-- Time may have passed and signals may have been given since. No signal is taken back. -/
structure Later (before after : World σ) : Prop where
  now : before.now ≤ after.now
  known : before.signals.length ≤ after.signals.length
  given : ∀ signal : Nat, before.signals[signal]? = some true →
    after.signals[signal]? = some true

theorem Later.refl (world : World σ) : world.Later world :=
  ⟨Nat.le_refl _, Nat.le_refl _, fun _ given => given⟩

theorem Later.trans (first : before.Later middle) (second : middle.Later after) :
    before.Later after where
  now := first.now.trans second.now
  known := first.known.trans second.known
  given signal given := second.given signal (first.given signal given)

private theorem isSignalled_iff {signals : Signals} :
    token.isSignalled signals = true ↔ signals[token.signal]? = some true := by
  rw [CancellationToken.isSignalled]
  cases signals[token.signal]? <;> simp

private theorem isExpired_mono {earlier later : Nat} (goesOn : earlier ≤ later)
    (expired : token.isExpired earlier = true) : token.isExpired later = true := by
  rw [CancellationToken.isExpired, Option.any_eq_true] at expired ⊢
  rcases expired with ⟨deadline, isDeadline, passed⟩
  exact ⟨deadline, isDeadline, decide_eq_true ((of_decide_eq_true passed).trans goesOn)⟩

/-- Once interrupted, a token stays so. -/
theorem Later.isInterrupted (later : before.Later after)
    (interrupted : before.isInterrupted token = true) : after.isInterrupted token = true := by
  rw [World.isInterrupted, Bool.or_eq_true] at interrupted ⊢
  rcases interrupted with expired | signalled
  · exact .inl (isExpired_mono later.now expired)
  · exact .inr (isSignalled_iff.mpr (later.given _ (isSignalled_iff.mp signalled)))

private theorem cancel_later (world : World σ) (token : CancellationToken) :
    world.Later (world.cancel token) where
  now := Nat.le_refl _
  known := by simp [cancel, CancellationToken.cancel]
  given signal given := by
    by_cases same : token.signal = signal
    · have known : signal < world.signals.length := (List.getElem?_eq_some_iff.mp given).1
      simp [cancel, CancellationToken.cancel, same, known]
    · simp [cancel, CancellationToken.cancel, List.getElem?_set_ne same, given]

theorem check_later (world : World σ) (token : CancellationToken) :
    world.Later (world.check token).2 := by
  rw [check, CancellationToken.check]
  cases token.isExpired world.now with
  | true => exact cancel_later world token
  | false => cases token.isSignalled world.signals <;> exact .refl world

theorem interrupted_later (world : World σ) (token : CancellationToken) :
    world.Later (world.interrupted token).2 := by
  rw [interrupted, CancellationToken.wait]
  cases token.isSignalled world.signals with
  | true => exact .refl world
  | false => exact check_later world token

private theorem check_isSome (world : World σ) (token : CancellationToken) :
    (world.check token).1.isSome = world.isInterrupted token := by
  rw [check, CancellationToken.check, isInterrupted]
  cases token.isExpired world.now <;> cases token.isSignalled world.signals <;> rfl

private theorem interrupted_isSome (world : World σ) (token : CancellationToken) :
    (world.interrupted token).1.isSome = world.isInterrupted token := by
  rw [interrupted, CancellationToken.wait, ← check_isSome, check, CancellationToken.check]
  cases token.isExpired world.now <;> cases token.isSignalled world.signals <;> rfl

theorem check_of_interrupted (interrupted : world.isInterrupted token = true) :
    ∃ interruption later, world.check token = (some interruption, later) := by
  have found := world.check_isSome token
  rw [interrupted] at found
  rcases Option.isSome_iff_exists.mp found with ⟨interruption, isFound⟩
  exact ⟨interruption, _, Prod.ext isFound rfl⟩

theorem wait_of_interrupted (interrupted : world.isInterrupted token = true) :
    ∃ interruption later, world.interrupted token = (some interruption, later) := by
  have found := world.interrupted_isSome token
  rw [interrupted] at found
  rcases Option.isSome_iff_exists.mp found with ⟨interruption, isFound⟩
  exact ⟨interruption, _, Prod.ext isFound rfl⟩

/-! Nothing is found as long as the token is live, and the world stays as it is. -/

theorem check_of_live (live : world.isInterrupted token = false) :
    world.check token = (none, world) := by
  rw [isInterrupted, Bool.or_eq_false_iff] at live
  rw [check, CancellationToken.check, live.1, live.2]
  rfl

theorem interrupted_of_live (live : world.isInterrupted token = false) :
    world.interrupted token = (none, world) := by
  rw [isInterrupted, Bool.or_eq_false_iff] at live
  rw [interrupted, CancellationToken.wait, CancellationToken.check, live.1, live.2]
  rfl

theorem live_of_check (clear : world.check token = (none, later)) :
    world.isInterrupted token = false ∧ later = world := by
  have live : world.isInterrupted token = false := by
    rw [← check_isSome, clear]
    rfl
  rw [check_of_live live] at clear
  cases clear
  exact ⟨live, rfl⟩

theorem live_of_interrupted (undisturbed : world.interrupted token = (none, later)) :
    world.isInterrupted token = false ∧ later = world := by
  have live : world.isInterrupted token = false := by
    rw [← interrupted_isSome, undisturbed]
    rfl
  rw [interrupted_of_live live] at undisturbed
  cases undisturbed
  exact ⟨live, rfl⟩

/-! ## Waits -/

private theorem nextInterruption?_kind {moment : Nat}
    (unexpired : token.isExpired world.now = false)
    (found : world.nextInterruption? token = some (moment, interruption)) :
    interruption = if token.isExpired (max world.now moment) then .timedOut else .cancelled := by
  rw [nextInterruption?] at found
  rw [CancellationToken.isExpired] at unexpired ⊢
  cases isDeadline : token.deadline with
  | none =>
      rw [isDeadline] at found
      cases isCancel : world.cancelAt with
      | none =>
          rw [isCancel] at found
          cases found
      | some time =>
          rw [isCancel] at found
          cases found
          rfl
  | some deadline =>
      rw [isDeadline] at found unexpired
      have later : world.now < deadline := by simpa using unexpired
      cases isCancel : world.cancelAt with
      | none =>
          rw [isCancel] at found
          cases found
          simp
      | some time =>
          rw [isCancel] at found
          simp only at found
          split at found
          · cases found
            simp
          · rename_i earlier
            cases found
            simp [Nat.not_le.mp earlier, later]

/-- A wait that is interrupted leaves the token interrupted in the same way. -/
theorem interrupted_of_waitUntil {time : Nat} (known : token.signal < world.signals.length)
    (live : world.isInterrupted token = false)
    (ended : world.waitUntil token time = (some interruption, later)) :
    world.Later later ∧ later.interrupted token = (some interruption, later) := by
  rw [waitUntil] at ended
  rw [isInterrupted, Bool.or_eq_false_iff] at live
  cases next : world.nextInterruption? token with
  | none =>
      rw [next] at ended
      cases ended
  | some found =>
      rcases found with ⟨moment, kind⟩
      rw [next] at ended
      simp only at ended
      split at ended
      · cases ended
        have goesOn : world.Later { world with now := max world.now moment } :=
          ⟨Nat.le_max_left _ _, Nat.le_refl _, fun _ given => given⟩
        have signalled : token.isSignalled
            ({ world with now := max world.now moment }.cancel token).signals = true := by
          rw [isSignalled_iff]
          simp [cancel, CancellationToken.cancel, known]
        refine ⟨goesOn.trans (cancel_later _ token), ?_⟩
        rw [interrupted, CancellationToken.wait, if_pos signalled,
          nextInterruption?_kind live.1 next]
        rfl
      · cases ended

private theorem nextInterruption?_le (world : World σ) {deadline : Nat}
    (isDeadline : token.deadline = some deadline) :
    ∃ moment kind, world.nextInterruption? token = some (moment, kind) ∧ moment ≤ deadline := by
  rw [nextInterruption?, isDeadline]
  cases world.cancelAt with
  | none => exact ⟨deadline, .timedOut, rfl, Nat.le_refl _⟩
  | some time =>
      by_cases first : deadline ≤ time
      · exact ⟨deadline, .timedOut, if_pos first, Nat.le_refl _⟩
      · exact ⟨time, .cancelled, if_neg first, Nat.le_of_not_le first⟩

/-- A wait that is not interrupted leaves the token live. -/
theorem live_of_waitUntil {time : Nat} (live : world.isInterrupted token = false)
    (ended : world.waitUntil token time = (none, later)) :
    world.Later later ∧ later.isInterrupted token = false := by
  rw [isInterrupted, Bool.or_eq_false_iff] at live
  have passes : later = { world with now := max world.now time } := by
    rw [waitUntil] at ended
    split at ended
    · split at ended <;> cases ended
      rfl
    · cases ended
      rfl
  have unexpired : token.isExpired (max world.now time) = false := by
    by_contra expired
    rcases Option.any_eq_true _ _ |>.mp (Bool.not_eq_false _ |>.mp expired) with
      ⟨deadline, isDeadline, passed⟩
    have ahead : world.now < deadline := by
      have unexpired := live.1
      rw [CancellationToken.isExpired, isDeadline] at unexpired
      simpa using unexpired
    rcases nextInterruption?_le world isDeadline with ⟨moment, kind, next, first⟩
    have inTime : moment ≤ time := by
      have passed := of_decide_eq_true passed
      omega
    rw [waitUntil, next] at ended
    simp only [if_pos inTime] at ended
    cases ended
  rw [passes]
  refine ⟨⟨Nat.le_max_left _ _, Nat.le_refl _, fun _ given => given⟩, ?_⟩
  rw [isInterrupted, unexpired, live.2]
  rfl

end World

end GraphQL
