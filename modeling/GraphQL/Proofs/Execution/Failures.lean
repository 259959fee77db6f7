import GraphQL.Proofs.Execution.Schedule
import GraphQL.Schema.Scalars
import Mathlib.Data.List.Permutation

/-!
Errors and nulls belong together. Every failure of a field nulls one position of its own, the first
one on the way up that may be null, and what was nulled stays null and raises no failure any more.
-/

namespace GraphQL

/-! ## Failures and the positions they null -/

/-- A failure has the path of the node at which it arose. From there its null moved up, past types
that exclude it, to the nulled position, which is null. -/
structure Failure.Explained (tree : Tree) (failure : Failure) : Prop where
  path : failure.error.path = some (tree.path failure.node)
  moves : tree.MovesUp failure.node failure.nulled
  above : ∀ top, failure.nulled = some top → tree.path top <+: tree.path failure.node
  isNull : ∀ top, failure.nulled = some top →
    ∃ node, tree.node? top = some node ∧ node.content = .null

/-- The failures and the nulled positions match one to one. -/
structure Draft.Accounts (draft : Draft) : Prop where
  explained : ∀ failure ∈ draft.failures, failure.Explained draft.tree
  distinct : (draft.failures.map Failure.nulled).Nodup
  data : draft.tree.dataIsNull = true ↔ none ∈ draft.failures.map Failure.nulled

private theorem Failure.Explained.mono {before after : Tree} {failure : Failure}
    (explained : failure.Explained before) (formed : before.WellFormed)
    (growth : before.Extends after) : failure.Explained after where
  path := by
    rcases explained.moves.known formed with ⟨node, found⟩
    rw [growth.path_eq found]
    exact explained.path
  moves := explained.moves.mono fun found => (growth.node found).imp fun _ kept => kept.1
  above := by
    intro top isTop
    rcases explained.moves.known formed with ⟨node, found⟩
    rcases explained.isNull top isTop with ⟨above, foundAbove, _⟩
    rw [growth.path_eq found, growth.path_eq foundAbove]
    exact explained.above top isTop
  isNull := by
    intro top isTop
    rcases explained.isNull top isTop with ⟨node, found, isNull⟩
    rcases growth.node found with ⟨content, foundAfter, staysNull⟩
    exact ⟨_, foundAfter, staysNull isNull⟩

/-- Content that nodes were given is there to stay, unless a later failure nulls the node. Later
failures arise at nodes that were not discarded. -/
structure Draft.ContinuesBy (before after : Draft) (later : List Failure) : Prop where
  growth : before.tree.Extends after.tree
  failures : after.failures = before.failures ++ later
  live : ∀ failure ∈ later, before.tree.isDiscarded failure.node = false
  filled : ∀ {id node}, before.tree.node? id = some node → node.content ≠ .pending →
    after.tree.node? id = some node ∨ ∃ failure ∈ later, failure.nulled = some id

namespace Draft.ContinuesBy

private theorem refl (draft : Draft) : draft.ContinuesBy draft [] where
  growth := .refl _
  failures := (List.append_nil _).symm
  live := by simp
  filled found _ := .inl found

private theorem trans {first second third : Draft} {earlier later : List Failure}
    (before : first.ContinuesBy second earlier) (after : second.ContinuesBy third later)
    (formedFirst : first.tree.WellFormed) (formedSecond : second.tree.WellFormed) :
    first.ContinuesBy third (earlier ++ later) where
  growth := before.growth.trans after.growth
  failures := by rw [after.failures, before.failures, List.append_assoc]
  live := by
    intro failure member
    rcases List.mem_append.mp member with isEarlier | isLater
    · exact before.live failure isEarlier
    · exact before.growth.live formedFirst formedSecond (after.live failure isLater)
  filled := by
    intro id node found isFilled
    rcases before.filled found isFilled with kept | ⟨failure, member, nulls⟩
    · rcases after.filled kept isFilled with stillKept | ⟨failure, member, nulls⟩
      · exact .inl stillKept
      · exact .inr ⟨failure, List.mem_append_right _ member, nulls⟩
    · exact .inr ⟨failure, List.mem_append_left _ member, nulls⟩

/-- Only one pending node changes, and gets content. -/
private theorem attach {draft : Draft} {id : NodeId} {node : Node} {content : NodeContent}
    {sprouts : List Tree.Sprout} (found : draft.tree.node? id = some node)
    (isPending : node.content = .pending) :
    draft.ContinuesBy ⟨draft.tree.attach id content sprouts, draft.failures⟩ [] where
  growth := Tree.attach_extends found (by
    intro isNull
    rw [isPending] at isNull
    cases isNull)
  failures := (List.append_nil _).symm
  live := by simp
  filled := by
    intro other before foundBefore isFilled
    refine .inl ?_
    have different : other ≠ id := by
      intro same
      rw [same, found, Option.some.injEq] at foundBefore
      exact isFilled (foundBefore ▸ isPending)
    exact Tree.node?_attach_old foundBefore different _ _

private theorem set {draft : Draft} {id : NodeId} {node : Node} {content : NodeContent}
    (found : draft.tree.node? id = some node) (isPending : node.content = .pending) :
    draft.ContinuesBy (draft.set id content) [] := by
  have attached : draft.ContinuesBy ⟨draft.tree.attach id content [], draft.failures⟩ [] :=
    attach found isPending
  rw [Tree.attach_nil] at attached
  exact attached

/-- A failure nulls one position. -/
private theorem fail {draft : Draft} {node : NodeId} (live : draft.tree.isDiscarded node = false)
    (task : FieldTask) (error : ResponseError) :
    draft.ContinuesBy (draft.fail task node error)
      [⟨draft.locate task node error, node, draft.tree.nullPosition node⟩] where
  growth := draft.tree.nullAt_extends _
  failures := rfl
  live := by
    intro failure member
    rw [List.mem_singleton.mp member]
    exact live
  filled := by
    intro id before found _
    rcases (draft.tree.nullAt_extends (draft.tree.nullPosition node)).node found with
      ⟨content, foundAfter, _⟩
    rcases Tree.nullAt_cases foundAfter with ⟨_, unchanged⟩ | ⟨isTarget, _⟩
    · rw [found] at unchanged
      exact .inl (unchanged.symm ▸ foundAfter)
    · exact .inr ⟨_, List.mem_singleton_self _, isTarget⟩

end Draft.ContinuesBy

namespace Request

variable {request : Request} {allowed : Answering}

private theorem Step.continues {before after : Progress} (step : request.Step allowed before after)
    (valid : before.Valid) : ∃ later, before.1.ContinuesBy after.1 later := by
  cases step with
  | skip lost => exact ⟨[], .refl _⟩
  | answer live answered notMeta => exact ⟨[], .refl _⟩
  | @perform draft duty verdict duties live comes =>
      rcases valid.pending duty (Multiset.mem_cons_self _ _) with ⟨node, found, isPending, _⟩
      cases verdict with
      | failure error => exact ⟨_, .fail live duty.task error⟩
      | null => exact ⟨[], .set found isPending⟩
      | leaf json => exact ⟨[], .set found isPending⟩
      | items item values => exact ⟨[], .attach found isPending⟩
      | object object => exact ⟨[], .attach found isPending⟩

theorem Steps.continues {before after : Progress} (steps : request.Steps allowed before after)
    (valid : before.Valid) : ∃ later, before.1.ContinuesBy after.1 later := by
  induction steps with
  | refl => exact ⟨[], .refl _⟩
  | tail earlier step induction =>
      have middle := Steps.valid earlier valid
      rcases induction with ⟨first, continues⟩
      rcases step.continues middle with ⟨second, further⟩
      exact ⟨first ++ second, continues.trans further valid.formed middle.formed⟩

end Request

/-- Growth without a failure changes nothing about failures. -/
private theorem Draft.Accounts.grow {before after : Draft} (accounts : before.Accounts)
    (formed : before.tree.WellFormed) (growth : before.tree.Extends after.tree)
    (sameFailures : after.failures = before.failures)
    (sameData : after.tree.dataIsNull = before.tree.dataIsNull) : after.Accounts where
  explained failure member :=
    (accounts.explained failure (sameFailures ▸ member)).mono formed growth
  distinct := sameFailures ▸ accounts.distinct
  data := by rw [sameData, sameFailures]; exact accounts.data

private theorem Draft.Accounts.fail {draft : Draft} (accounts : draft.Accounts)
    (formed : draft.tree.WellFormed) {id : NodeId} {node : Node}
    (found : draft.tree.node? id = some node) (live : draft.tree.isDiscarded id = false)
    (task : FieldTask) (error : ResponseError) : (draft.fail task id error).Accounts := by
  have moves := formed.nullPosition_movesUp found
  have growth := draft.tree.nullAt_extends (draft.tree.nullPosition id)
  have fresh : draft.tree.nullPosition id ∉ draft.failures.map Failure.nulled := by
    intro listed
    rcases List.mem_map.mp listed with ⟨failure, member, isNulled⟩
    cases isTarget : draft.tree.nullPosition id with
    | none =>
        have allNull := accounts.data.mpr (isTarget ▸ listed)
        rw [(formed.isLive found live).data] at allNull
        cases allNull
    | some top =>
        rcases (accounts.explained failure member).isNull top (isNulled.trans isTarget) with
          ⟨above, foundAbove, isNull⟩
        rcases moves.target formed top isTarget with ⟨_, _, _, _, _, _, stillLive⟩
        exact (formed.isLive foundAbove (stillLive live)).notNull isNull
  refine ⟨?_, ?_, ?_⟩
  · intro failure member
    rcases List.mem_append.mp member with earlier | last
    · exact (accounts.explained failure earlier).mono formed growth
    · rw [List.mem_singleton.mp last]
      refine ⟨?_, moves.mono fun found => (growth.node found).imp fun _ kept => kept.1, ?_, ?_⟩
      · exact congrArg some (growth.path_eq found).symm
      · intro top isTop
        rcases moves.target formed top isTop with ⟨above, _, foundAbove, _⟩
        have fits := moves.path_prefix formed top isTop
        rw [← growth.path_eq found, ← growth.path_eq foundAbove] at fits
        exact fits
      · intro top isTop
        rcases moves.target formed top isTop with ⟨above, _, foundAbove, _⟩
        have isTarget : draft.tree.nullPosition id = some top := isTop
        refine ⟨{ above with content := .null }, ?_, rfl⟩
        rw [Draft.fail, Tree.propagateNull, isTarget]
        exact Tree.node?_set_self foundAbove _
  · rw [Draft.fail, List.map_append]
    exact accounts.distinct.append (List.nodup_singleton _) (by simpa using fresh)
  · rw [Draft.fail, Tree.propagateNull, List.map_append, List.mem_append, ← accounts.data]
    cases draft.tree.nullPosition id with
    | none => simp [Tree.nullAt]
    | some top => simp [Tree.nullAt, Tree.set]

namespace Request

variable {request : Request} {allowed : Answering}

theorem Step.accounts {before after : Progress} (step : request.Step allowed before after)
    (valid : before.Valid) (accounts : before.1.Accounts) : after.1.Accounts := by
  cases step with
  | skip lost => exact accounts
  | answer live answered notMeta => exact accounts
  | @perform draft duty verdict duties live comes =>
      rcases valid.pending duty (Multiset.mem_cons_self _ _) with ⟨node, found, isPending, _⟩
      have growth : draft.tree.Extends (request.perform duty draft verdict).1.tree :=
        perform_extends found isPending verdict
      cases verdict with
      | failure error => exact accounts.fail valid.formed found live duty.task error
      | null => exact accounts.grow valid.formed growth rfl rfl
      | leaf json => exact accounts.grow valid.formed growth rfl rfl
      | items item values => exact accounts.grow valid.formed growth rfl rfl
      | object object => exact accounts.grow valid.formed growth rfl rfl

theorem Steps.accounts {before after : Progress} (steps : request.Steps allowed before after)
    (valid : before.Valid) (accounts : before.1.Accounts) : after.1.Accounts := by
  induction steps with
  | refl => exact accounts
  | tail earlier step induction => exact step.accounts (Steps.valid earlier valid) induction

theorem initial_accounts (request : Request) (rootValue : FieldValue) :
    (request.initial rootValue).1.Accounts := by
  rw [initial, rootTasks_eq]
  exact ⟨by simp [withSlots], by simp [withSlots], by
    simp [withSlots, Tree.attachSlots, Tree.attach, Tree.set, Tree.empty]⟩

private theorem Runs.accounts {rootValue : FieldValue} {outstanding : Outstanding}
    (runs : request.Runs allowed (request.initial rootValue) outstanding) :
    outstanding.1.Accounts :=
  Steps.accounts (runs.steps (request.initial_valid rootValue)) (request.initial_valid rootValue)
    (request.initial_accounts rootValue)

end Request

/-! ## Paths through data -/

/-- Where a path leads in a JSON value. -/
def Json.follow? : Json → Path → Option Json
  | json, [] => some json
  | json, .key name :: path => (json.get? name).bind (·.follow? path)
  | .array items, .index position :: path => (items[position]?).bind (·.follow? path)
  | _, .index _ :: _ => none

/-- Following the path meets a null, at its end or before. -/
def Json.MeetsNull (json : Json) (path : Path) : Prop :=
  ∃ front, front <+: path ∧ json.follow? front = some .null

private theorem Json.follow?_append (json : Json) (front back : Path) :
    json.follow? (front ++ back) = (json.follow? front).bind (·.follow? back) := by
  induction front generalizing json with
  | nil => rw [List.nil_append, follow?, Option.bind_some]
  | cons segment front induction =>
      cases segment with
      | key name =>
          rw [List.cons_append, follow?, follow?, Option.bind_assoc]
          exact congrArg _ (funext fun inner => induction inner)
      | index position =>
          cases json with
          | array items =>
              rw [List.cons_append, follow?, follow?, Option.bind_assoc]
              exact congrArg _ (funext fun inner => induction inner)
          | _ => rfl

private theorem Json.MeetsNull.extend {json : Json} {path longer : Path}
    (meets : json.MeetsNull path) (fits : path <+: longer) : json.MeetsNull longer := by
  rcases meets with ⟨front, isFront, isNull⟩
  exact ⟨front, isFront.trans fits, isNull⟩

namespace Tree

private theorem follow_field (tree : Tree) {children : List (String × NodeId)}
    {segment : PathSegment} {child : NodeId}
    (distinct : ((children.map fun child =>
      (PathSegment.key child.1, child.2)).map Prod.fst).Nodup)
    (listed : (segment, child) ∈ children.map fun child => (PathSegment.key child.1, child.2)) :
    (Json.object (children.map fun child => (child.1, tree.json child.2))).follow? [segment] =
      some (tree.json child) := by
  rcases List.mem_map.mp listed with ⟨⟨name, id⟩, member, equal⟩
  cases equal
  have distinctNames : (Named.names
      (children.map fun child => (child.1, tree.json child.2))).Nodup := by
    rw [List.map_map] at distinct
    rw [Named.names, List.map_map]
    exact List.Nodup.of_map PathSegment.key (by rwa [List.map_map])
  have entry : Named.value? (children.map fun child => (child.1, tree.json child.2)) name =
      some (tree.json id) :=
    Named.value?_of_mem distinctNames (List.mem_map.mpr ⟨(name, id), member, rfl⟩)
  rw [Json.follow?, Json.get?, entry, Option.bind_some, Json.follow?]

private theorem WellFormed.follow_child {tree : Tree} (formed : tree.WellFormed) {id child : NodeId}
    {node : Node} {segment : PathSegment} (found : tree.node? id = some node)
    (listed : (segment, child) ∈ node.content.children) :
    (tree.json id).follow? [segment] = some (tree.json child) := by
  have distinct := formed.distinct found
  rw [formed.json_eq found]
  rcases node with ⟨content, parent, type, path⟩
  cases content with
  | root children => exact tree.follow_field distinct listed
  | object children => exact tree.follow_field distinct listed
  | array items =>
      rcases List.mem_map.mp listed with ⟨⟨item, index⟩, numbered, equal⟩
      cases equal
      have stands := List.mk_mem_zipIdx_iff_getElem?.mp numbered
      rw [NodeContent.shown, Json.follow?, List.getElem?_map, stands, Option.map_some,
        Option.bind_some, Json.follow?]
  | pending => cases listed
  | leaf value => cases listed
  | null => cases listed

private theorem WellFormed.follow_path {tree : Tree} (formed : tree.WellFormed) (id : NodeId) :
    ∀ {node}, tree.node? id = some node →
      (tree.json rootId).MeetsNull node.path ∨
        (tree.json rootId).follow? node.path = some (tree.json id) := by
  induction id using Nat.strongRecOn with
  | ind id induction =>
      intro node found
      by_cases isRoot : id = rootId
      · rcases formed.root with ⟨fields, foundRoot⟩
        subst isRoot
        rw [foundRoot, Option.some.injEq] at found
        subst found
        exact .inr rfl
      · rcases formed.hangs isRoot found with ⟨top, above, segment, type, hanging⟩
        have fits : above.path <+: node.path := by
          rw [hanging.path]
          exact List.prefix_append _ _
        rcases induction top hanging.smaller hanging.foundAbove with meets | follows
        · exact .inl (meets.extend fits)
        · rcases hanging.listed with listed | isNull
          · refine .inr ?_
            rw [hanging.path, Json.follow?_append, follows, Option.bind_some]
            exact formed.follow_child hanging.foundAbove listed
          · refine .inl ⟨above.path, fits, ?_⟩
            rw [follows, formed.json_eq hanging.foundAbove, isNull, NodeContent.shown]

private theorem WellFormed.discarded_meetsNull {tree : Tree} (formed : tree.WellFormed)
    (id : NodeId) :
    ∀ {node}, tree.node? id = some node → tree.isDiscarded id = true →
      tree.data.MeetsNull node.path := by
  induction id using Nat.strongRecOn with
  | ind id induction =>
      intro node found lost
      rcases (formed.isDiscarded_iff found).mp lost with allNull | isNull |
          ⟨parent, isParent, above⟩
      · refine ⟨[], List.nil_prefix, ?_⟩
        rw [data, allNull]
        rfl
      · cases allNull : tree.dataIsNull with
        | true =>
            refine ⟨[], List.nil_prefix, ?_⟩
            rw [data, allNull]
            rfl
        | false =>
            rw [data_eq, allNull, if_neg Bool.false_ne_true]
            rcases formed.follow_path id found with meets | follows
            · exact meets
            · refine ⟨node.path, List.prefix_refl _, ?_⟩
              rw [follows, formed.json_eq found, isNull, NodeContent.shown]
      · rcases formed.hangs (formed.ne_root_of_parent found isParent) found with
          ⟨top, node', segment, type, hanging⟩
        have sameParent := Option.some.inj (hanging.isParent.symm.trans isParent)
        rw [hanging.path]
        exact (induction top hanging.smaller hanging.foundAbove (sameParent ▸ above)).extend
          (List.prefix_append _ _)

/-- Where a null passed and arrived, the node it came from is discarded. -/
private theorem MovesUp.discarded {tree : Tree} (formed : tree.WellFormed) {id : NodeId}
    {target : Option NodeId} (moves : tree.MovesUp id target)
    (arrived : ∀ top, target = some top →
      ∃ node, tree.node? top = some node ∧ node.content = .null)
    (lost : target = none → tree.dataIsNull = true) : tree.isDiscarded id = true := by
  induction moves with
  | stays found _ _ =>
      rcases arrived _ rfl with ⟨node, foundTop, isNull⟩
      exact (formed.isDiscarded_iff foundTop).mpr (.inr (.inl isNull))
  | climbs found _ _ isParent _ induction =>
      exact (formed.isDiscarded_iff found).mpr (.inr (.inr ⟨_, isParent, induction arrived lost⟩))
  | reachesRoot => simp [isDiscarded, lost rfl]

end Tree

/-! ## Results -/

/-- What the data of a finished draft shows of its failures. -/
structure Draft.Shows (draft : Draft) (data : Json) : Prop where
  errors : ∀ error ∈ draft.errors, ∃ path, error.path = some path ∧ data.MeetsNull path
  /-- Null data has one failure to it. -/
  null : data = .null → ∃ front failure back, draft.failures = front ++ failure :: back ∧
    failure.nulled = none ∧ ∀ other ∈ front ++ back, other.nulled ≠ none

private theorem Draft.Accounts.shows {draft : Draft} (accounts : draft.Accounts)
    (formed : draft.tree.WellFormed) : draft.Shows draft.tree.data where
  errors := by
    intro error member
    rcases List.mem_map.mp member with ⟨failure, isFailure, equal⟩
    subst equal
    have explained := accounts.explained failure isFailure
    rcases explained.moves.known formed with ⟨node, found⟩
    refine ⟨draft.tree.path failure.node, explained.path, ?_⟩
    rw [Tree.path_eq found]
    apply formed.discarded_meetsNull failure.node found
    apply explained.moves.discarded formed explained.isNull
    intro isRoot
    exact accounts.data.mpr (isRoot ▸ List.mem_map_of_mem isFailure)
  null := by
    intro isNull
    have allNull : draft.tree.dataIsNull = true := by
      cases allNull : draft.tree.dataIsNull with
      | true => rfl
      | false =>
          rcases formed.root with ⟨fields, foundRoot⟩
          rw [Tree.data_eq, allNull, if_neg Bool.false_ne_true, formed.json_eq foundRoot] at isNull
          cases isNull
    rcases List.mem_map.mp (accounts.data.mp allNull) with ⟨failure, member, isRoot⟩
    rcases List.append_of_mem member with ⟨front, back, split⟩
    refine ⟨front, failure, back, split, isRoot, ?_⟩
    intro other elsewhere otherIsRoot
    have distinct := accounts.distinct
    rw [split, List.map_append, List.map_cons, isRoot] at distinct
    have apart := (List.nodup_middle.mp distinct)
    rw [← List.map_append] at apart
    exact (List.nodup_cons.mp apart).1 (List.mem_map.mpr ⟨other, elsewhere, otherIsRoot⟩)

namespace Request

/-- Resolvers may answer anything. -/
def anyAnswer : Answering := fun _ _ _ => True

/-- In every state that finishing tasks leads to, in any order and with any answers, the failures
match the nulled positions, and from there on nothing that is null or below a null ever changes or
fails. The data of a result shows a null on the path of each error. -/
theorem failures_match_nulls (request : Request) (rootValue : FieldValue) :
    (∀ before after : Outstanding, request.Runs anyAnswer (request.initial rootValue) before →
      request.Runs anyAnswer before after →
      after.1.Accounts ∧ (∃ later, before.1.ContinuesBy after.1 later) ∧
        ∀ id node, before.1.tree.node? id = some node →
          before.1.tree.isDiscarded id = true → after.1.tree.isDiscarded id = true) ∧
    ∀ (σ : Type) (application : Application σ) (world : World σ) (run : Run σ) (data : Json),
      (request.executeParallel application rootValue world = (run, .ok data) ∨
        request.executeSerial application rootValue world = (run, .ok data)) →
      run.draft.Accounts ∧ run.draft.Shows data := by
  constructor
  · intro before after first second
    have validBefore := first.valid
    have validAfter := Runs.valid (first.trans second)
    rcases Steps.continues (second.steps validBefore) validBefore with ⟨later, continues⟩
    refine ⟨Runs.accounts (first.trans second), ⟨later, continues⟩, ?_⟩
    intro id node found lost
    exact continues.growth.discarded validBefore.formed validAfter.formed found lost
  · intro σ application world run data executed
    have ends : request.Ends (Conditions.any : Conditions σ) rootValue (run, .ok data) := by
      rcases executed with isParallel | isSerial
      · rw [← isParallel]
        exact executeParallel_ends (Conditions.any_holds request application) (Layers.any request)
          rootValue trivial fun _ _ => trivial
      · rw [← isSerial]
        exact executeSerial_ends (Conditions.any_holds request application) (Layers.any request)
          rootValue trivial fun _ _ => trivial
    have runs : request.Runs anyAnswer (request.initial rootValue) (run.draft, 0) := ends.1
    have accounts := runs.accounts
    refine ⟨accounts, ?_⟩
    rw [ends.2]
    exact accounts.shows runs.valid.formed

end Request

namespace Greeter

/-! A greeting that must not be null, of a greeter and of a friend who has none. -/

def type : NamedType where
  key := .custom 0
  name := "Greeter"
  shape := .object
    { fields :=
        [{ name := "greeting", type := .nonNull (.named "String") },
          { name := "friend", type := .named "Greeter" }] }

def registry : Registry where
  types := Scalar.all ++ [type]
  query := type
  mutation := none
  subscription := none
  directives := []
  possibleTypes := []

def greeting : Selection := .field ⟨⟨1, 3⟩, none, "greeting", [], [], []⟩

def operation : Operation :=
  ⟨⟨1, 1⟩, .query, none, [], [], [greeting, .field ⟨⟨1, 12⟩, none, "friend", [], [], [greeting]⟩]⟩

def request : Request where
  registry := registry
  document := ⟨[.operation operation]⟩
  operation := operation
  variableValues := []
  token := ⟨0, none⟩
  depth := 3

def root : FieldValue :=
  .json (.object [("greeting", .string "Hello"), ("friend", .object [])])

/-- No field has a resolver of its own. -/
def application : Application Unit where
  resolve _ _ world := (.ready (.panic none), world)
  subscribe _ _ world := (.panic none, world)

def data : Json := .object [("greeting", .string "Hello"), ("friend", .null)]

theorem executed : (request.executeParallel application root { state := () }).2 = .ok data := by
  cbv

end Greeter

/-- The missing greeting of the friend nulls the friend. -/
theorem Request.failures_match_nulls_of_greeter :
    ∃ run : Run Unit,
      Greeter.request.executeParallel Greeter.application Greeter.root { state := () } =
        (run, .ok Greeter.data) ∧
      run.draft.failures.map Failure.nulled = [some 2] ∧ run.draft.Accounts ∧
      run.draft.Shows Greeter.data :=
  ⟨_, rfl, rfl, (Request.failures_match_nulls Greeter.request Greeter.root).2 Unit
    Greeter.application { state := () } _ Greeter.data (.inl rfl)⟩

end GraphQL
