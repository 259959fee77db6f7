import GraphQL.Execution.Engine
import GraphQL.Proofs.Execution.Activity
import GraphQL.Proofs.Execution.Serial
import GraphQL.Proofs.Validation.Cycles

/-!
A subscription answers each event of its source by an execution of its own, in the order of the
events, until the source ends or a check finds that the request was interrupted.
-/

namespace GraphQL

variable {σ : Type}

/-! ## Executions for events -/

namespace Request

/-- The result that an event gets on its own. A value is the root of an execution that starts
without errors and extensions; a failure is the only error of a result without data. -/
inductive Isolated (request : Request) (application : Application σ) (world : World σ) :
    Event → ExecutionResult → Prop
  | value {rootValue : FieldValue} {run : Run σ} {data : Json}
      (executed : request.executeParallel application rootValue { world with extensions := [] } =
        (run, .ok data)) :
      Isolated request application world (.ok rootValue)
        (.ofExecution (some data) run.draft.errors (some run.world.extensions))
  | failure (error : ResolverError) :
      Isolated request application world (.error error)
        { executed := true, errors := [error.toResponse] }

/-- Executions of the request end by an interruption, or with data. -/
structure Concludes (request : Request) : Prop where
  acyclic : request.document.Acyclic
  known : request.operation ∈ request.document.operations
  deep : request.document.selectionCount ≤ request.depth
  reports : request.throwOnUnhandled = false

variable {request : Request} {application : Application σ}

private theorem Concludes.interrupted (concludes : request.Concludes) {rootValue : FieldValue}
    {world : World σ} {run : Run σ} {abort : Abort}
    (aborted : request.executeParallel application rootValue world = (run, .error abort)) :
    ∃ interruption, abort = .interrupted interruption := by
  have holds : (Conditions.abortedBy request.Aborts : Conditions σ).Holds request application :=
    Conditions.abortedBy_holds (fun _ => trivial) (fun throws _ => throws) application
  have ends : request.Ends (Conditions.abortedBy request.Aborts) rootValue
      (request.executeParallel application rootValue world) :=
    executeParallel_ends holds (aborts_layers request) rootValue trivial fun task member _ =>
      rootTasks_fitLevels concludes.acyclic concludes.known concludes.deep rootValue task member
  rw [aborted] at ends
  cases abort with
  | interrupted interruption => exact ⟨interruption, rfl⟩
  | panicked reason =>
      have throws : request.throwOnUnhandled = true := ends
      rw [concludes.reports] at throws
      cases throws
  | tooDeep => exact absurd ⟨concludes.acyclic, concludes.known, concludes.deep⟩ ends

/-- What is done for an event. -/
def eventActivity (request : Request) (application : Application σ) (event : Event)
    (world : World σ) : List Activity :=
  match event with
  | .error _ => []
  | .ok rootValue => request.parallelActivity application rootValue { world with extensions := [] }

private theorem executeEvent_concludes (application : Application σ) (concludes : request.Concludes)
    (event : Event) (world : World σ) :
    match request.executeEvent application event world with
    | (_, .ok result) => request.Isolated application world event result ∧
        Activity.Observed (request.eventActivity application event world) none
    | (_, .error abort) => ∃ interruption, abort = .interrupted interruption ∧
        Activity.Observed (request.eventActivity application event world) (some interruption) := by
  cases event with
  | error error => exact ⟨.failure error, nofun⟩
  | ok rootValue =>
      have observed := request.executeParallel_observed application rootValue
        { world with extensions := [] }
      rw [executeEvent, eventActivity]
      cases executed : request.executeParallel application rootValue
          { world with extensions := [] } with
      | mk run outcome =>
          rw [executed] at observed
          cases outcome with
          | ok data => exact ⟨.value executed, observed⟩
          | error abort =>
              rcases concludes.interrupted executed with ⟨interruption, rfl⟩
              exact ⟨interruption, rfl, observed⟩

private theorem executeEvent_spared (spares : application.Spares request.token)
    (endless : request.token.deadline = none) (event : Event) {world : World σ}
    (isQuiet : world.Quiet request.token) :
    match request.executeEvent application event world with
    | (later, .ok _) => later.Quiet request.token
    | (_, .error abort) => abort.interruption? = none := by
  cases event with
  | error error => exact isQuiet
  | ok rootValue =>
      have fresh : World.Quiet request.token { world with extensions := [] } :=
        ⟨isQuiet.unsignalled, isQuiet.uncancelled⟩
      have spared := executeParallel_spared spares endless rootValue fresh
      rw [executeEvent]
      cases executed : request.executeParallel application rootValue
          { world with extensions := [] } with
      | mk run outcome =>
          rw [executed] at spared
          cases outcome <;> exact spared

end Request

/-! ## Asking once -/

/-- What happens while answers are asked for. -/
inductive Happening (σ : Type) where
  | act (activity : Activity)
  /-- The source emits an event, and leaves a world. -/
  | receive (event : Event) (world : World σ)
  | give (answer : EventResult)

namespace Happening

def interruption? : Happening σ → Option Interruption
  | .act activity => activity.interruption?
  | .receive _ _ => none
  | .give _ => none

def received? : Happening σ → Option (Event × World σ)
  | .act _ => none
  | .receive event world => some (event, world)
  | .give _ => none

def given? : Happening σ → Option EventResult
  | .act _ => none
  | .receive _ _ => none
  | .give answer => some answer

/-- The events that were received, each with the world that it left. -/
def received (history : List (Happening σ)) : List (Event × World σ) := history.filterMap received?

/-- The answers in order. -/
def answers (history : List (Happening σ)) : List EventResult := history.filterMap given?

/-- What happens once an event is waited for: two checks of the token, the event, and what is done
for it. -/
def ofEvent (pending : PendingEvent σ) (world : World σ) (activities : List Activity) :
    List (Happening σ) :=
  .act (.check none) :: .act (.check none) ::
    .receive (pending.emit world).1 (pending.emit world).2 :: activities.map .act

/-- Only the last thing that happens may be a check that finds an interruption. -/
abbrev Observed (happenings : List (Happening σ)) : Option Interruption → Prop :=
  GraphQL.Observed interruption? happenings

private theorem received_acts (activities : List Activity) :
    received (activities.map (act : Activity → Happening σ)) = [] := by
  rw [received, List.filterMap_map]
  exact List.filterMap_eq_nil_iff.mpr fun _ _ => rfl

private theorem answers_acts (activities : List Activity) :
    answers (activities.map (act : Activity → Happening σ)) = [] := by
  rw [answers, List.filterMap_map]
  exact List.filterMap_eq_nil_iff.mpr fun _ _ => rfl

private theorem received_append (first second : List (Happening σ)) :
    received (first ++ second) = received first ++ received second := List.filterMap_append

private theorem answers_append (first second : List (Happening σ)) :
    answers (first ++ second) = answers first ++ answers second := List.filterMap_append

private theorem received_ofEvent (pending : PendingEvent σ) (world : World σ)
    (activities : List Activity) :
    received (ofEvent pending world activities) = [pending.emit world] :=
  congrArg (pending.emit world :: ·) (received_acts activities)

private theorem answers_ofEvent (pending : PendingEvent σ) (world : World σ)
    (activities : List Activity) : answers (ofEvent pending world activities) = [] :=
  answers_acts activities

private theorem observed_acts {activities : List Activity} {found : Option Interruption}
    (observed : Activity.Observed activities found) :
    Observed (activities.map (act : Activity → Happening σ)) found := by
  cases found with
  | none => exact List.forall_mem_map.mpr observed
  | some interruption =>
      rcases observed with ⟨before, last, rfl, isLast, quiet⟩
      exact ⟨before.map act, act last, List.map_append, isLast, List.forall_mem_map.mpr quiet⟩

private theorem observed_ofEvent {activities : List Activity} {found : Option Interruption}
    (pending : PendingEvent σ) (world : World σ) (observed : Activity.Observed activities found) :
    Observed (ofEvent pending world activities) found :=
  .cons rfl (.cons rfl (.cons rfl (observed_acts observed)))

end Happening

namespace Subscription

variable {subscription : Subscription σ}

/-- What is done for an event that was emitted. -/
def resultActivity (subscription : Subscription σ) (event : Event) (world : World σ) :
    List Activity :=
  match world.check subscription.request.token with
  | (some interruption, _) => [.check (some interruption)]
  | (none, world) =>
      .check none :: subscription.request.eventActivity subscription.application event world

/-- What happens when the next answer is asked for, until it is given. -/
def nextHappenings (subscription : Subscription σ) (world : World σ) : List (Happening σ) :=
  if subscription.ended then []
  else
    match world.interrupted subscription.request.token with
    | (some interruption, _) => [.act (.check (some interruption))]
    | (none, world) =>
        match subscription.source subscription.position with
        | none => [.act (.check none)]
        | some pending =>
            match world.waitUntil subscription.request.token (world.now + pending.delay) with
            | (some interruption, _) => [.act (.check none), .act (.check (some interruption))]
            | (none, world) =>
                Happening.ofEvent pending world
                  (subscription.resultActivity (pending.emit world).1 (pending.emit world).2)

/-- What comes of an event that was emitted in a world: an answer, the subscription as it is then,
and what was done for it. -/
inductive Gives (subscription : Subscription σ) (event : Event) (world : World σ) :
    Option EventResult → Subscription σ → List Activity → Prop
  | result {result : ExecutionResult} {activities : List Activity}
      (isolated : subscription.request.Isolated subscription.application world event result)
      (observed : Activity.Observed activities none) :
      Gives subscription event world (some (.result result)) subscription activities
  | interrupted {later : Subscription σ} {activities : List Activity} {interruption : Interruption}
      (closed : later.ended = true) (observed : Activity.Observed activities (some interruption)) :
      Gives subscription event world none later activities

private theorem resultOf_gives (subscription : Subscription σ)
    (concludes : subscription.request.Concludes) (event : Event) (world : World σ) :
    subscription.Gives event world (subscription.resultOf event world).1
      (subscription.resultOf event world).2.1 (subscription.resultActivity event world) := by
  rw [resultOf, resultActivity]
  cases checked : world.check subscription.request.token with
  | mk found later =>
      cases found with
      | some interruption => exact .interrupted rfl (.stop rfl)
      | none =>
          rw [(World.live_of_check checked).2]
          have concluded := Request.executeEvent_concludes subscription.application concludes event
            world
          simp only
          cases executed : subscription.request.executeEvent subscription.application event
              world with
          | mk after outcome =>
              rw [executed] at concluded
              cases outcome with
              | ok result => exact .result concluded.1 (.cons rfl concluded.2)
              | error abort =>
                  rcases concluded with ⟨interruption, rfl, observed⟩
                  exact .interrupted rfl (.cons rfl observed)

/-- What comes of asking for an answer: the answer, the subscription as it is then, and what
happened before the answer was given. -/
inductive Asks (subscription : Subscription σ) :
    Option EventResult → Subscription σ → List (Happening σ) → Prop
  | ended (isEnded : subscription.ended = true) : Asks subscription none subscription []
  /-- Without an event. -/
  | interrupted {later : Subscription σ} {activities : List Activity} {interruption : Interruption}
      (closed : later.ended = true) (observed : Activity.Observed activities (some interruption)) :
      Asks subscription none later (activities.map .act)
  | exhausted {later : Subscription σ} {activities : List Activity} (closed : later.ended = true)
      (missing : subscription.source subscription.position = none)
      (observed : Activity.Observed activities none) :
      Asks subscription none later (activities.map .act)
  /-- With an event that gets no answer. -/
  | dropped {later : Subscription σ} {pending : PendingEvent σ} {world : World σ}
      {activities : List Activity} {interruption : Interruption} (closed : later.ended = true)
      (event : subscription.source subscription.position = some pending)
      (observed : Activity.Observed activities (some interruption)) :
      Asks subscription none later (Happening.ofEvent pending world activities)
  | answered {pending : PendingEvent σ} {world : World σ} {result : ExecutionResult}
      {activities : List Activity}
      (event : subscription.source subscription.position = some pending)
      (isolated : subscription.request.Isolated subscription.application (pending.emit world).2
        (pending.emit world).1 result)
      (observed : Activity.Observed activities none) :
      Asks subscription (some (.result result))
        { subscription with position := subscription.position + 1 }
        (Happening.ofEvent pending world activities)

private theorem Gives.asks {pending : PendingEvent σ} {world : World σ}
    {answer : Option EventResult} {later : Subscription σ} {activities : List Activity}
    (event : subscription.source subscription.position = some pending)
    (gives : { subscription with position := subscription.position + 1 }.Gives
      (pending.emit world).1 (pending.emit world).2 answer later activities) :
    subscription.Asks answer later (Happening.ofEvent pending world activities) := by
  cases gives with
  | result isolated observed => exact .answered event isolated observed
  | interrupted closed observed => exact .dropped closed event observed

private theorem next_asks (concludes : subscription.request.Concludes) (world : World σ) :
    subscription.Asks (subscription.next world).1 (subscription.next world).2.1
      (subscription.nextHappenings world) := by
  rw [next, nextHappenings]
  by_cases ended : subscription.ended = true
  · rw [if_pos ended, if_pos ended]
    exact .ended ended
  · rw [if_neg ended, if_neg ended]
    rcases world.interrupted subscription.request.token with ⟨_ | interruption, world⟩
    · simp only
      cases event : subscription.source subscription.position with
      | none =>
          have nothing : Activity.Observed [.check none] none := .cons rfl .nil
          exact .exhausted rfl event nothing
      | some pending =>
          simp only
          rcases world.waitUntil subscription.request.token (world.now + pending.delay) with
            ⟨_ | interruption, due⟩
          · have gives := resultOf_gives { subscription with position := subscription.position + 1 }
              concludes (pending.emit due).1 (pending.emit due).2
            exact gives.asks event
          · have found : Activity.Observed [.check none, .check (some interruption)]
                (some interruption) := .cons rfl (.stop rfl)
            exact .interrupted rfl found
    · have found : Activity.Observed [.check (some interruption)] (some interruption) := .stop rfl
      exact .interrupted rfl found

/-! ## Asking again and again -/

/-- What happens when answers are asked for one after another. Before each time the world may change
in any way. -/
def history (subscription : Subscription σ) :
    (changes : List (World σ → World σ)) → World σ → List (Happening σ)
  | [], _ => []
  | change :: changes, world =>
      let (answer, later, after) := subscription.next (change world)
      subscription.nextHappenings (change world) ++ answer.toList.map .give ++
        later.history changes after

open Happening (received answers)

/-- How a subscription that was asked some times maps its source to answers. -/
structure Maps (subscription : Subscription σ) (asks : Nat) (history : List (Happening σ)) :
    Prop where
  /-- The events of the source are received in order. -/
  events : ∀ (number : Nat) event world, (received history)[number]? = some (event, world) →
    ∃ pending before, subscription.source (subscription.position + number) = some pending ∧
      pending.emit before = (event, world)
  /-- Each answer is the result of the event with its number, and of nothing else. -/
  isolated : ∀ (number : Nat) answer, (answers history)[number]? = some answer →
    ∃ event world result, (received history)[number]? = some (event, world) ∧
      answer = EventResult.result result ∧
      subscription.request.Isolated subscription.application world event result
  /-- Nothing happens after a check has found an interruption. -/
  stops : history.Pairwise fun earlier _ => earlier.interruption? = none
  /-- Unless a check finds an interruption, all events are answered, and answers are missing only
  once the source has ended. -/
  whole : subscription.ended = false →
    (∀ happening ∈ history, happening.interruption? = none) →
    (answers history).length = (received history).length ∧
      ((answers history).length < asks →
        subscription.source (subscription.position + (answers history).length) = none)

namespace Maps

variable {asks : Nat} {activities : List Activity} {rest : List (Happening σ)}
  {pending : PendingEvent σ} {world : World σ}

private theorem unasked (subscription : Subscription σ) : subscription.Maps 0 [] :=
  ⟨nofun, nofun, .nil, fun _ _ => ⟨rfl, fun fewer => absurd fewer (Nat.not_lt_zero _)⟩⟩

private theorem ended (isEnded : subscription.ended = true) : subscription.Maps asks [] := by
  refine ⟨nofun, nofun, .nil, fun isOpen => ?_⟩
  rw [isEnded] at isOpen
  cases isOpen

private theorem interrupted {interruption : Interruption}
    (observed : Activity.Observed activities (some interruption)) :
    subscription.Maps asks (activities.map .act) := by
  have seen : Happening.Observed (activities.map (.act : Activity → Happening σ)) _ :=
    Happening.observed_acts observed
  refine ⟨?_, ?_, seen.pairwise, fun _ quiet => absurd quiet seen.not_quiet⟩
  · rw [Happening.received_acts]
    exact nofun
  · rw [Happening.answers_acts]
    exact nofun

private theorem exhausted (missing : subscription.source subscription.position = none)
    (observed : Activity.Observed activities none) :
    subscription.Maps asks (activities.map .act) := by
  have seen : Happening.Observed (activities.map (.act : Activity → Happening σ)) _ :=
    Happening.observed_acts observed
  refine ⟨?_, ?_, seen.pairwise, ?_⟩
  · rw [Happening.received_acts]
    exact nofun
  · rw [Happening.answers_acts]
    exact nofun
  · rw [Happening.answers_acts, Happening.received_acts]
    exact fun _ _ => ⟨rfl, fun _ => missing⟩

private theorem dropped (event : subscription.source subscription.position = some pending)
    {interruption : Interruption}
    (observed : Activity.Observed activities (some interruption)) :
    subscription.Maps asks (Happening.ofEvent pending world activities) := by
  have seen := Happening.observed_ofEvent pending world observed
  refine ⟨?_, ?_, seen.pairwise, fun _ quiet => absurd quiet seen.not_quiet⟩
  · rw [Happening.received_ofEvent]
    intro number received left stands
    cases number with
    | zero => exact ⟨pending, world, event, Option.some.inj stands⟩
    | succ number => cases stands
  · rw [Happening.answers_ofEvent]
    exact nofun

private theorem answered {result : ExecutionResult}
    (event : subscription.source subscription.position = some pending)
    (isolated : subscription.request.Isolated subscription.application (pending.emit world).2
      (pending.emit world).1 result)
    (observed : Activity.Observed activities none)
    (later : { subscription with position := subscription.position + 1 }.Maps asks rest) :
    subscription.Maps (asks + 1) (Happening.ofEvent pending world activities ++
      [.give (.result result)] ++ rest) := by
  have allReceived : received (Happening.ofEvent pending world activities ++
      [.give (.result result)] ++ rest) = pending.emit world :: received rest := by
    rw [Happening.received_append, Happening.received_append, Happening.received_ofEvent]
    rfl
  have allAnswers : answers (Happening.ofEvent pending world activities ++
      [.give (.result result)] ++ rest) = .result result :: answers rest := by
    rw [Happening.answers_append, Happening.answers_append, Happening.answers_ofEvent]
    rfl
  have quiet : ∀ happening ∈ Happening.ofEvent pending world activities ++
      [.give (.result result)], happening.interruption? = none :=
    List.forall_mem_append.mpr ⟨Happening.observed_ofEvent pending world observed,
      List.forall_mem_singleton.mpr rfl⟩
  have shift (number : Nat) : subscription.position + (number + 1) =
      subscription.position + 1 + number := by omega
  refine ⟨?_, ?_, ?_, ?_⟩
  · rw [allReceived]
    intro number received left stands
    cases number with
    | zero => exact ⟨pending, world, event, Option.some.inj stands⟩
    | succ number => exact shift number ▸ later.events number received left stands
  · rw [allReceived, allAnswers]
    intro number answer stands
    cases number with
    | zero =>
        cases stands
        exact ⟨_, _, result, rfl, rfl, isolated⟩
    | succ number => exact later.isolated number answer stands
  · apply List.pairwise_append.mpr ⟨_, later.stops, fun earlier member _ _ => quiet earlier member⟩
    exact List.pairwise_of_forall_mem_list fun earlier member _ _ => quiet earlier member
  · intro isOpen allQuiet
    have others := later.whole isOpen (List.forall_mem_append.mp allQuiet).2
    rw [allReceived, allAnswers, List.length_cons, List.length_cons, shift]
    exact ⟨congrArg (· + 1) others.1, fun fewer => others.2 (Nat.lt_of_succ_lt_succ fewer)⟩

end Maps

private theorem history_ended (changes : List (World σ → World σ))
    (ended : subscription.ended = true)
    (world : World σ) : subscription.history changes world = [] := by
  induction changes generalizing world with
  | nil => rfl
  | cons change changes induction =>
      rw [history, next, if_pos ended, nextHappenings, if_pos ended]
      exact induction (change world)

private theorem history_maps (changes : List (World σ → World σ)) (subscription : Subscription σ)
    (concludes : subscription.request.Concludes) (world : World σ) :
    subscription.Maps changes.length (subscription.history changes world) := by
  induction changes generalizing subscription world with
  | nil => exact .unasked subscription
  | cons change changes induction =>
      have asks := next_asks concludes (change world)
      rw [history]
      generalize subscription.next (change world) = outcome at asks ⊢
      generalize subscription.nextHappenings (change world) = happenings at asks ⊢
      rcases outcome with ⟨answer, later, after⟩
      simp only at asks ⊢
      cases asks with
      | ended isEnded =>
          rw [history_ended changes isEnded]
          exact .ended isEnded
      | interrupted closed observed =>
          rw [history_ended changes closed, Option.toList_none, List.map_nil, List.append_nil,
            List.append_nil]
          exact .interrupted observed
      | exhausted closed missing observed =>
          rw [history_ended changes closed, Option.toList_none, List.map_nil, List.append_nil,
            List.append_nil]
          exact .exhausted missing observed
      | dropped closed event observed =>
          rw [history_ended changes closed, Option.toList_none, List.map_nil, List.append_nil,
            List.append_nil]
          exact .dropped event observed
      | answered event isolated observed =>
          exact .answered event isolated observed
            (induction { subscription with position := subscription.position + 1 } concludes after)

/-! ### Nothing cancels the token -/

/-- Neither the resolvers nor the source cancel the token, and it does not expire. -/
structure Spared (subscription : Subscription σ) : Prop where
  endless : subscription.request.token.deadline = none
  resolvers : subscription.application.Spares subscription.request.token
  source : ∀ {number pending}, subscription.source number = some pending → ∀ world : World σ,
    world.Quiet subscription.request.token →
      (pending.emit world).2.Quiet subscription.request.token

private theorem resultOf_spared (subscription : Subscription σ)
    (concludes : subscription.request.Concludes) (spared : subscription.Spared)
    (event : Event) {world : World σ} (isQuiet : world.Quiet subscription.request.token) :
    (subscription.resultOf event world).2.2.Quiet subscription.request.token ∧
      ∀ activity ∈ subscription.resultActivity event world, activity.interruption? = none := by
  have concluded := Request.executeEvent_concludes subscription.application concludes event world
  have kept := Request.executeEvent_spared spared.resolvers spared.endless event isQuiet
  rw [resultOf, resultActivity, World.check_quiet isQuiet spared.endless]
  simp only
  cases executed : subscription.request.executeEvent subscription.application event world with
  | mk after outcome =>
      rw [executed] at concluded kept
      cases outcome with
      | ok result => exact ⟨kept, List.forall_mem_cons.mpr ⟨rfl, concluded.2⟩⟩
      | error abort =>
          rcases concluded with ⟨interruption, rfl, _⟩
          cases kept

private theorem next_spared (concludes : subscription.request.Concludes)
    (spared : subscription.Spared)
    {world : World σ} (isQuiet : world.Quiet subscription.request.token) :
    (subscription.next world).2.2.Quiet subscription.request.token ∧
      Happening.Observed (subscription.nextHappenings world) none := by
  rw [next, nextHappenings]
  by_cases ended : subscription.ended = true
  · rw [if_pos ended, if_pos ended]
    exact ⟨isQuiet, .nil⟩
  · rw [if_neg ended, if_neg ended, World.interrupted_quiet isQuiet spared.endless]
    simp only
    cases event : subscription.source subscription.position with
    | none => exact ⟨isQuiet, .cons rfl .nil⟩
    | some pending =>
        simp only
        rw [World.waitUntil_quiet isQuiet spared.endless]
        let due : World σ := { world with now := max world.now (world.now + pending.delay) }
        have rest := resultOf_spared { subscription with position := subscription.position + 1 }
          concludes ⟨spared.endless, spared.resolvers, spared.source⟩ (pending.emit due).1
          (spared.source event due ⟨isQuiet.unsignalled, isQuiet.uncancelled⟩)
        exact ⟨rest.1, Happening.observed_ofEvent pending due rest.2⟩

private theorem history_spared {changes : List (World σ → World σ)} (subscription : Subscription σ)
    (concludes : subscription.request.Concludes) (spared : subscription.Spared)
    (kept : ∀ change ∈ changes, ∀ world, world.Quiet subscription.request.token →
      (change world).Quiet subscription.request.token)
    {world : World σ} (isQuiet : world.Quiet subscription.request.token) :
    ∀ happening ∈ subscription.history changes world, happening.interruption? = none := by
  induction changes generalizing subscription world with
  | nil => exact nofun
  | cons change changes induction =>
      have parts := List.forall_mem_cons.mp kept
      have asks := next_asks concludes (change world)
      have next := next_spared concludes spared (parts.1 world isQuiet)
      rw [history]
      generalize subscription.next (change world) = outcome at asks next ⊢
      generalize subscription.nextHappenings (change world) = happenings at asks next ⊢
      rcases outcome with ⟨answer, later, after⟩
      simp only at asks next ⊢
      refine List.forall_mem_append.mpr ⟨List.forall_mem_append.mpr ⟨next.2, ?_⟩, ?_⟩
      · exact List.forall_mem_map.mpr fun _ _ => rfl
      · cases asks with
        | ended isEnded => rw [history_ended changes isEnded]; exact nofun
        | interrupted closed _ => rw [history_ended changes closed]; exact nofun
        | exhausted closed _ _ => rw [history_ended changes closed]; exact nofun
        | dropped closed _ _ => rw [history_ended changes closed]; exact nofun
        | answered _ _ _ =>
            exact induction { subscription with position := subscription.position + 1 } concludes
              ⟨spared.endless, spared.resolvers, spared.source⟩ parts.2 next.1

end Subscription

/-! ## Accepted subscriptions -/

namespace Document

theorem selectOperation_mem {document : Document} {name? : Option String} {index : Nat}
    {operation : Operation} (selected : document.selectOperation name? = .ok (index, operation)) :
    operation ∈ document.operations := by
  have listed : (index, operation) ∈ document.indexedOperations := by
    cases name? with
    | some name =>
        rw [selectOperation] at selected
        cases found : document.indexedOperations.find? fun entry => entry.2.name == some name with
        | none =>
            rw [found] at selected
            cases selected
        | some entry =>
            rw [found] at selected
            cases selected
            exact List.mem_of_find?_eq_some found
    | none =>
        rw [selectOperation] at selected
        split at selected
        · cases selected
        · rename_i only
          cases selected
          rw [only]
          exact List.mem_cons_self
        · cases selected
  rcases List.mem_filterMap.mp listed with ⟨⟨definition, place⟩, numbered, isOperation⟩
  cases definition with
  | fragment fragment => cases isOperation
  | operation node =>
      cases isOperation
      exact mem_operations.mpr (List.fst_mem_of_mem_zipIdx numbered)

end Document

namespace ExecutionOptions

variable {options : ExecutionOptions σ} {subscription : Subscription σ}

/-- The subscription is one to the operation that the options choose, accepted by their plan, with
the token of the options. No event was asked for yet. -/
structure Subscribes (options : ExecutionOptions σ) (world : World σ)
    (subscription : Subscription σ) : Prop where
  document : options.document = some subscription.request.document
  operation : ∃ index, subscription.request.document.selectOperation options.operationName =
    .ok (index, subscription.request.operation)
  accepted : subscription.request.document.validate subscription.request.registry options.plan = []
  application : subscription.application = options.application
  token : subscription.request.token =
    options.timeout.elim options.token (options.token.withDeadline world.now)
  throws : subscription.request.throwOnUnhandled = options.throwOnUnhandled
  deep : subscription.request.document.selectionCount ≤ subscription.request.depth
  position : subscription.position = 0
  ended : subscription.ended = false

private theorem execute_streams {request : Request} {application : Application σ}
    {rootValue : FieldValue} {world : World σ} {run : Run σ} {result : ExecutionResult}
    (executed : request.execute application rootValue world =
      (run, .ok (result, some subscription))) :
    ∃ source, subscription = ⟨request, application, source, 0, false⟩ := by
  rw [Request.execute] at executed
  cases strategy : request.operation.kind.strategy with
  | parallel =>
      rw [strategy] at executed
      simp only at executed
      cases outcome : (request.executeParallel application rootValue world).2 with
      | error abort => rw [outcome] at executed; cases executed
      | ok data => rw [outcome] at executed; cases executed
  | serial =>
      rw [strategy] at executed
      simp only at executed
      cases outcome : (request.executeSerial application rootValue world).2 with
      | error abort => rw [outcome] at executed; cases executed
      | ok data => rw [outcome] at executed; cases executed
  | streaming =>
      rw [strategy] at executed
      simp only at executed
      cases opened : request.openSource application rootValue world with
      | mk after outcome =>
          rw [opened] at executed
          rcases outcome with abort | error | source
          · cases executed
          · cases executed
          · cases executed
            exact ⟨source, rfl⟩

private theorem executeChecked_streams {request : Request} {world later : World σ}
    {result : ExecutionResult}
    (executed : options.executeChecked request world =
      (.completed result (some subscription), later)) :
    ∃ source, subscription = ⟨request, options.application, source, 0, false⟩ := by
  rw [executeChecked] at executed
  cases isRun : request.execute options.application options.rootValue
      (options.notify (·.beforeExecution request) { world with extensions := [] }) with
  | mk run outcome =>
      rw [isRun] at executed
      cases outcome with
      | ok found =>
          rcases found with ⟨reached, streams⟩
          cases executed
          exact execute_streams isRun
      | error abort =>
          cases abort with
          | interrupted interruption => cases executed
          | tooDeep => cases executed
          | panicked reason =>
              simp only at executed
              split at executed
              · cases executed
              · cases executed

private theorem executeOperation_subscribes {registry : Registry} {document : Document}
    {operation : Operation} {world checked later : World σ} {result : ExecutionResult}
    (isDocument : options.document = some document)
    (chosen : ∃ index, document.selectOperation options.operationName = .ok (index, operation))
    (executed : options.executeOperation registry document
        (options.timeout.elim options.token (options.token.withDeadline world.now)) operation
        checked =
      (.completed result (some subscription), later)) :
    options.Subscribes world subscription := by
  rw [executeOperation] at executed
  simp only at executed
  split at executed
  · cases executed
  · rename_i valid
    split at executed
    · cases executed
    · rcases executeChecked_streams executed with ⟨source, rfl⟩
      exact
        { document := isDocument
          operation := chosen
          accepted := Document.validate_of_isValid (by simpa using valid)
          application := rfl
          token := rfl
          throws := rfl
          deep := Nat.le_add_right _ _
          position := rfl
          ended := rfl }

private theorem execute_subscribes {world later : World σ} {result : ExecutionResult}
    (executed : options.execute world = (.completed result (some subscription), later)) :
    options.Subscribes world subscription := by
  rw [execute] at executed
  cases isSchema : options.schema with
  | none => rw [isSchema] at executed; cases executed
  | some schema =>
      cases isDocument : options.document with
      | none => rw [isSchema, isDocument] at executed; cases executed
      | some document =>
          rw [isSchema, isDocument] at executed
          simp only at executed
          cases built : schema.build with
          | error error => rw [built] at executed; cases executed
          | ok registry =>
              rw [built] at executed
              simp only at executed
              split at executed
              · cases executed
              · cases chosen : document.selectOperation options.operationName with
                | error error => rw [chosen] at executed; cases executed
                | ok found =>
                    rw [chosen] at executed
                    rcases found with ⟨index, operation⟩
                    exact executeOperation_subscribes isDocument ⟨index, chosen⟩ executed

/-- What the plan makes sure of for executions of the events. -/
private theorem Subscribes.concludes {world : World σ}
    (subscribes : options.Subscribes world subscription)
    (unique : Rules.uniqueFragmentNames ∈ options.plan)
    (acyclic : Rules.noFragmentCycles ∈ options.plan) (reports : options.throwOnUnhandled = false) :
    subscription.request.Concludes := by
  have silent := validate_eq_nil.mp subscribes.accepted
  rcases subscribes.operation with ⟨index, chosen⟩
  exact
    { acyclic := Document.acyclic_of_silent (silent _ unique) (silent _ acyclic)
      known := Document.selectOperation_mem chosen
      deep := subscribes.deep
      reports := subscribes.throws.trans reports }

end ExecutionOptions

/-- A subscription maps its source to answers one to one and in order. Each answer is the result
that its event gets on its own, whatever other events have left behind. However often and whenever a
consumer asks, and whenever the token is cancelled, the answers are those of the first events: of
all of them unless a check finds an interruption, after which nothing happens. No check does if
nothing cancels the token. -/
theorem ExecutionOptions.subscription_maps_events (options : ExecutionOptions σ)
    (unique : Rules.uniqueFragmentNames ∈ options.plan)
    (acyclic : Rules.noFragmentCycles ∈ options.plan) (reports : options.throwOnUnhandled = false)
    {world later : World σ} {result : ExecutionResult} {subscription : Subscription σ}
    (executed : options.execute world = (.completed result (some subscription), later))
    (changes : List (World σ → World σ)) (start : World σ) :
    options.Subscribes world subscription ∧
      subscription.Maps changes.length (subscription.history changes start) ∧
      (subscription.Spared → start.Quiet subscription.request.token →
        (∀ change ∈ changes, ∀ world, world.Quiet subscription.request.token →
          (change world).Quiet subscription.request.token) →
        ∀ happening ∈ subscription.history changes start, happening.interruption? = none) := by
  have subscribes := execute_subscribes executed
  have concludes := subscribes.concludes unique acyclic reports
  exact ⟨subscribes, Subscription.history_maps changes subscription concludes start,
    fun spared isQuiet kept =>
      Subscription.history_spared subscription concludes spared kept isQuiet⟩

namespace Ticker

/-! A clock that strikes, fails and strikes again. -/

def query : NamedType where
  key := .custom 0
  name := "Query"
  shape := .object { fields := [{ name := "ping", type := .named "String" }] }

def clock : NamedType where
  key := .custom 1
  name := "Clock"
  shape := .object { fields := [{ name := "tick", type := .named "Int", subscriber := some 0 }] }

def schema : Schema where
  pool := [query, clock]
  query := query.toInstance
  subscription := some clock.toInstance

def document : Document where
  definitions :=
    [.operation ⟨⟨1, 1⟩, .subscription, none, [], [],
      [.field ⟨⟨1, 16⟩, none, "tick", [], [], []⟩]⟩]

def event? : Nat → Option Event
  | 0 => some (.ok (.json (.int 1)))
  | 1 => some (.error { message := "out of order" })
  | 2 => some (.ok (.json (.int 3)))
  | _ => none

def source : EventSource Unit := fun number =>
  (event? number).map fun event => ⟨1, fun world => (event, world)⟩

def application : Application Unit where
  resolve _ _ world := (.ready (.value .null), world)
  subscribe _ _ world := (.suspended 0 fun world => (.value source, world), world)

def options : ExecutionOptions Unit where
  schema := some schema
  document := some document
  token := ⟨0, none⟩
  application := application

def world : World Unit := { state := (), signals := [false] }

def subscription? : ExecutionOutcome Unit → Option (Subscription Unit)
  | .failed _ => none
  | .panicked _ => none
  | .completed _ subscription => subscription

/-- Of each answer, whether it has data, and the messages of its errors. -/
def shown (changes : List (World Unit → World Unit)) : Option (List (Bool × List String)) :=
  let (outcome, later) := options.execute world
  (subscription? outcome).map fun subscription =>
    (Happening.answers (subscription.history changes later)).map fun
      | .result result => (result.data.isSome, result.errors.map ResponseError.message)
      | .panicked _ => (false, [])

private theorem streams :
    (subscription? (options.execute world).1).isSome = true := by decide +kernel

private theorem spared (request : Request) (endless : request.token.deadline = none) :
    (⟨request, application, source, 0, false⟩ : Subscription Unit).Spared where
  endless := endless
  resolvers := ⟨fun isQuiet => isQuiet, fun _ replied => by cases replied⟩
  source := by
    intro number pending isPending world isQuiet
    rcases Option.map_eq_some_iff.mp isPending with ⟨event, _, rfl⟩
    exact isQuiet

end Ticker

/-- The failure of the clock does not end the subscription. A cancellation does, though nothing in
the clock cancels a token. -/
theorem ExecutionOptions.subscription_maps_events_of_ticker :
    Ticker.shown [id, id, id, id] =
        some [(true, []), (false, ["out of order"]), (true, [])] ∧
      Ticker.shown [id, id, (·.cancel Ticker.options.token), id] =
        some [(true, []), (false, ["out of order"])] ∧
      (∀ request : Request, request.token.deadline = none →
        (⟨request, Ticker.application, Ticker.source, 0, false⟩ : Subscription Unit).Spared) ∧
      ∃ result subscription later,
        Ticker.options.execute Ticker.world = (.completed result (some subscription), later) ∧
          subscription.Maps 4 (subscription.history [id, id, id, id] later) := by
  refine ⟨by decide +kernel, by decide +kernel, Ticker.spared, ?_⟩
  have streams := Ticker.streams
  generalize executed : Ticker.options.execute Ticker.world = reached at streams ⊢
  rcases reached with ⟨outcome, later⟩
  cases outcome with
  | failed error => cases streams
  | panicked reason => cases streams
  | completed result found =>
      cases found with
      | none => cases streams
      | some subscription =>
          have maps := subscription_maps_events Ticker.options
            (by simp [Ticker.options, defaultPlan]) (by simp [Ticker.options, defaultPlan]) rfl
            executed [id, id, id, id] later
          exact ⟨result, subscription, later, rfl, maps.2.1⟩

end GraphQL
