import GraphQL.Proofs.Named
import GraphQL.Proofs.Validation.Discovery
import GraphQL.Proofs.Validation.Visits
import GraphQL.Proofs.Validation.Walk
import GraphQL.Validation.Rules.Variables
import Mathlib.Algebra.GroupWithZero.Nat

/-!
What the rules about variables record: for every operation and every fragment all that the walk
comes by in it. Following spreads then finds everything that they lead to.
-/

namespace GraphQL

namespace Usages

variable {α : Type} {usages : Usages α}

/-! ## Following spreads -/

/-- The spreads in all fragments that have not been visited. -/
private def ahead (entries : List (String × Recorded α)) (visited : List String) : Nat :=
  (entries.map fun entry => if visited.contains entry.1 then 0 else entry.2.spreads.length).sum

private theorem followBound_eq (spreads : List String) :
    usages.followBound spreads = spreads.length + ahead usages.fragments [] := by
  simp [followBound, ahead, List.sum_eq_foldl]

private theorem ahead_cons (key : String) (recorded : Recorded α)
    (entries : List (String × Recorded α)) (visited : List String) :
    ahead ((key, recorded) :: entries) visited =
      (if visited.contains key then 0 else recorded.spreads.length) + ahead entries visited := by
  rw [ahead, List.map_cons, List.sum_cons, ahead]

private theorem ahead_le (entries : List (String × Recorded α)) (visited : List String)
    (name : String) :
    ahead entries (visited ++ [name]) ≤ ahead entries visited := by
  induction entries with
  | nil => exact Nat.le_refl 0
  | cons head tail induction =>
      rw [ahead_cons, ahead_cons]
      apply Nat.add_le_add _ induction
      split <;> split <;> simp_all

private theorem ahead_visit (entries : List (String × Recorded α)) {visited : List String}
    {name : String} (new : visited.contains name = false) :
    (((Named.value? entries name).map Recorded.spreads).getD []).length +
      ahead entries (visited ++ [name]) ≤ ahead entries visited := by
  induction entries with
  | nil => simp [Named.value?, Named.find?, ahead]
  | cons head tail induction =>
      rcases head with ⟨key, recorded⟩
      rw [Named.value?_cons, ahead_cons, ahead_cons]
      by_cases same : key = name
      · subst same
        have rest := ahead_le tail visited key
        have isVisited : (visited ++ [key]).contains key = true := by simp
        simp only [isVisited, new, ↓reduceIte, Bool.false_eq_true, Option.map_some,
          Option.getD_some]
        omega
      · have kept : (visited ++ [name]).contains key = visited.contains key := by simp [same]
        rw [if_neg same, kept]
        omega

private theorem follow_discovers (usages : Usages α) (fuel : Nat) (visited stack : List String)
    (enough : stack.length + ahead usages.fragments visited < fuel) :
    Discovers usages.spreadsOf visited stack (usages.follow fuel visited stack) := by
  fun_induction usages.follow fuel visited stack with
  | case1 => omega
  | case2 visited => exact .done
  | case3 fuel visited name stack known induction =>
      rw [List.length_cons] at enough
      exact .known (by simpa using known) (induction (by omega))
  | case4 fuel visited name stack new induction =>
      have uses := ahead_visit usages.fragments (by simpa using new)
      have enoughLater : (usages.spreadsOf name ++ stack).length +
          ahead usages.fragments (visited ++ [name]) < fuel := by
        rw [List.length_cons] at enough
        rw [List.length_append]
        change (usages.spreadsOf name).length + _ ≤ _ at uses
        omega
      rcases (induction enoughLater).of_append with ⟨between, inside, later⟩
      exact .enters (by simpa using new) inside later

/-- What is reached from spreads is what is discovered from them. -/
theorem reachable_discovers (usages : Usages α) (spreads : List String) :
    Discovers usages.spreadsOf [] spreads (usages.reachable spreads) :=
  usages.follow_discovers _ [] spreads (by rw [followBound_eq]; exact Nat.lt_succ_self _)

/-- What spreads reach contains them, and the spreads of everything in it. -/
theorem reachable_closed (usages : Usages α) (spreads : List String) :
    spreads ⊆ usages.reachable spreads ∧
      ∀ name ∈ usages.reachable spreads, usages.spreadsOf name ⊆ usages.reachable spreads := by
  have discovers := usages.reachable_discovers spreads
  exact ⟨discovers.names_subset, fun name member =>
    (discovers.closed member).resolve_left List.not_mem_nil⟩

/-! ## Recording -/

private theorem modifyCurrent_modifyCurrent (first second : Recorded α → Recorded α) :
    (usages.modifyCurrent first).modifyCurrent second =
      usages.modifyCurrent fun recorded => second (first recorded) := by
  rcases usages with ⟨operations, fragments, current⟩
  cases current with
  | none => rfl
  | operation index =>
      simp only [modifyCurrent, List.modify_modify_eq]
      rfl
  | fragment name =>
      simp only [modifyCurrent, List.map_map]
      congr 2
      funext entry
      by_cases same : entry.1 = name <;> simp [same]

private theorem modifyCurrent_id : usages.modifyCurrent (fun recorded => recorded) = usages := by
  rcases usages with ⟨operations, fragments, current⟩
  cases current with
  | none => rfl
  | operation index =>
      have kept : operations.modify index id = operations := List.modify_id index operations
      exact congrArg (Usages.mk · fragments (.operation index)) kept
  | fragment name => simp [modifyCurrent]

end Usages

namespace Rules

variable {α : Type} {record? : Scope → Literal → Option α} {registry : Registry}
  {usages : Usages α}

/-- What a visit adds to what is recorded. -/
def recordVisit (record? : Scope → Literal → Option α) (recorded : Recorded α)
    (visit : ScopedVisit) : Recorded α :=
  match visit.visit with
  | .spread spread => { recorded with spreads := recorded.spreads ++ [spread.name] }
  | .value literal =>
      { recorded with usages := recorded.usages ++ (record? visit.scope literal).toList }
  | _ => recorded

private theorem track_eq {visit : ScopedVisit} (inside : visit.visit.IsInner) :
    track record? usages visit =
      usages.modifyCurrent fun recorded => recordVisit record? recorded visit := by
  rcases visit with ⟨scope, visit⟩
  cases visit with
  | enterOperation | leaveOperation | enterFragment | leaveFragment => cases inside
  | spread spread => rfl
  | value literal =>
      simp only [track, recordVisit]
      cases record? scope literal with
      | none => simpa using Usages.modifyCurrent_id.symm
      | some usage => rfl
  | _ => exact Usages.modifyCurrent_id.symm

private theorem foldl_track {visits : List ScopedVisit} (within : Walk.Each Visit.IsInner visits) :
    visits.foldl (track record?) usages =
      usages.modifyCurrent fun recorded => visits.foldl (recordVisit record?) recorded := by
  induction visits generalizing usages with
  | nil => exact Usages.modifyCurrent_id.symm
  | cons head tail induction =>
      have parts := List.forall_mem_cons.mp within
      rw [List.foldl_cons, track_eq parts.1, induction parts.2,
        Usages.modifyCurrent_modifyCurrent]
      rfl

/-- The way through an operation gives it an entry of its own. -/
theorem foldl_operation {operation : Operation} {scope : Scope} {visits : List ScopedVisit}
    (within : Walk.Each Visit.IsInner visits) :
    (⟨scope, .enterOperation operation⟩ ::
        (visits ++ [⟨scope, .leaveOperation operation⟩])).foldl (track record?) usages =
      { operations :=
          usages.operations ++ [(operation, visits.foldl (recordVisit record?) {})]
        fragments := usages.fragments } := by
  rw [List.foldl_cons, List.foldl_append, foldl_track within]
  have modified : (usages.operations ++ [(operation, ({} : Recorded α))]).modify
      usages.operations.length
        (fun entry => (entry.1, visits.foldl (recordVisit record?) entry.2)) =
      usages.operations ++ [(operation, visits.foldl (recordVisit record?) {})] := by
    rw [List.modify_eq_take_cons_drop (by simp)]
    simp
  exact congrArg (Usages.mk · usages.fragments .none) modified

private theorem value?_enterFragment (usages : Usages α) (fragment name : String) :
    Named.value? (usages.enterFragment fragment).fragments name =
      (Named.value? usages.fragments name).or (if fragment = name then some {} else none) := by
  rw [Usages.enterFragment]
  split
  · rename_i known
    rw [Named.contains_eq] at known
    by_cases same : fragment = name
    · subst same
      rcases Option.isSome_iff_exists.mp known with ⟨recorded, found⟩
      rw [found, Option.some_or]
    · rw [if_neg same, Option.or_none]
  · rw [Named.value?_append, Named.value?_cons]
    rfl

/-- The way through a fragment adds to the entry of its name. -/
theorem foldl_fragment {fragment : Fragment} {scope : Scope} {visits : List ScopedVisit}
    (within : Walk.Each Visit.IsInner visits) :
    ∃ entries, (⟨scope, .enterFragment fragment⟩ ::
        (visits ++ [⟨scope, .leaveFragment fragment⟩])).foldl (track record?) usages =
      { operations := usages.operations, fragments := entries } ∧
      ∀ name, Named.value? entries name =
        if fragment.name = name then
          some (visits.foldl (recordVisit record?) ((Named.value? usages.fragments name).getD {}))
        else Named.value? usages.fragments name := by
  refine ⟨(usages.enterFragment fragment.name).fragments.map fun entry => (entry.1,
    if entry.1 = fragment.name then visits.foldl (recordVisit record?) entry.2 else entry.2),
    ?_, ?_⟩
  · rw [List.foldl_cons, List.foldl_append, foldl_track within]
    rfl
  · intro name
    have changed := Named.value?_map
      (fun key recorded => if key = fragment.name then visits.foldl (recordVisit record?) recorded
        else recorded) (usages.enterFragment fragment.name).fragments name
    rw [changed, value?_enterFragment]
    by_cases same : fragment.name = name
    · cases Named.value? usages.fragments name <;> simp [same]
    · have different : name ≠ fragment.name := fun equal => same equal.symm
      simp [same, different]

/-- What is taken from one visit. -/
def usageAt? (record? : Scope → Literal → Option α) (visit : ScopedVisit) : Option α :=
  match visit.visit with
  | .value literal => record? visit.scope literal
  | _ => none

def spreadAt? (visit : ScopedVisit) : Option String :=
  match visit.visit with
  | .spread spread => some spread.name
  | _ => none

/-- What some visits give to record. -/
def recordedIn (record? : Scope → Literal → Option α) (visits : List ScopedVisit) : Recorded α where
  usages := visits.filterMap (usageAt? record?)
  spreads := visits.filterMap spreadAt?

theorem foldl_recordVisit (visits : List ScopedVisit) (recorded : Recorded α) :
    visits.foldl (recordVisit record?) recorded =
      { usages := recorded.usages ++ (recordedIn record? visits).usages
        spreads := recorded.spreads ++ (recordedIn record? visits).spreads } := by
  induction visits generalizing recorded with
  | nil => simp [recordedIn]
  | cons head tail induction =>
      rw [List.foldl_cons, induction, recordVisit, recordedIn, recordedIn, List.filterMap_cons,
        List.filterMap_cons]
      rcases head with ⟨scope, visit⟩
      cases visit with
      | spread spread => simp [usageAt?, spreadAt?]
      | value literal => cases taken : record? scope literal <;> simp [usageAt?, spreadAt?, taken]
      | _ => simp [usageAt?, spreadAt?]

/-- Everything in some visits has been taken down. -/
structure Shows (record? : Scope → Literal → Option α) (visits : List ScopedVisit)
    (recorded : Recorded α) : Prop where
  usages : ∀ scope literal usage, ⟨scope, .value literal⟩ ∈ visits →
    record? scope literal = some usage → usage ∈ recorded.usages
  spreads : ∀ scope spread, ⟨scope, .spread spread⟩ ∈ visits → spread.name ∈ recorded.spreads

/-- Recordings that only grow. -/
structure Enlarges (before after : Recorded α) : Prop where
  usages : before.usages ⊆ after.usages
  spreads : before.spreads ⊆ after.spreads

private theorem Enlarges.refl (recorded : Recorded α) : Enlarges recorded recorded :=
  ⟨List.Subset.refl _, List.Subset.refl _⟩

private theorem Enlarges.trans {first second third : Recorded α} (grows : Enlarges first second)
    (later : Enlarges second third) : Enlarges first third :=
  ⟨List.Subset.trans grows.usages later.usages, List.Subset.trans grows.spreads later.spreads⟩

private theorem Shows.grows {visits : List ScopedVisit} {before after : Recorded α}
    (shows : Shows record? visits before) (grows : Enlarges before after) :
    Shows record? visits after where
  usages := fun scope literal usage visited isUsage =>
    grows.usages (shows.usages scope literal usage visited isUsage)
  spreads := fun scope spread visited => grows.spreads (shows.spreads scope spread visited)

private theorem grows_foldl (visits : List ScopedVisit) (recorded : Recorded α) :
    Enlarges recorded (visits.foldl (recordVisit record?) recorded) := by
  rw [foldl_recordVisit]
  exact ⟨List.subset_append_left _ _, List.subset_append_left _ _⟩

private theorem shows_foldl (visits : List ScopedVisit) (recorded : Recorded α) :
    Shows record? visits (visits.foldl (recordVisit record?) recorded) := by
  rw [foldl_recordVisit]
  constructor
  · intro scope literal usage visited isUsage
    exact List.mem_append_right _ (List.mem_filterMap.mpr ⟨_, visited, isUsage⟩)
  · intro scope spread visited
    exact List.mem_append_right _ (List.mem_filterMap.mpr ⟨_, visited, rfl⟩)

/-! ## Definitions -/

private theorem inner_value (literal : Literal) :
    Walk.EachOfValue Visit.IsInner registry literal := by
  intro scope visit member
  rw [Visit.IsInner, Walk.kind_value scope literal visit member]
  rfl

private theorem inner_arguments (written : ArgumentList) :
    Walk.EachOfArguments Visit.IsInner registry written := fun _ _ => inner_value _

private theorem beside_inner : Walk.Beside Visit.IsInner := fun _ _ inside => inside

mutual

theorem inner_selection :
    (selection : Selection) → Walk.EachOfSelection Visit.IsInner registry selection
  | .field ⟨_, _, _, _, _, under⟩ =>
      Walk.each_field beside_inner (inner_arguments _)
        (fun _ _ => inner_arguments _) (inner_selections under)
  | .spread ⟨_, _, _⟩ =>
      Walk.each_spread beside_inner (fun _ _ => inner_arguments _)
  | .inline ⟨_, _, _, under⟩ =>
      Walk.each_inline beside_inner (fun _ _ => inner_arguments _)
        (inner_selections under)

private theorem inner_selections :
    (selections : List Selection) → ∀ selection ∈ selections,
      Walk.EachOfSelection Visit.IsInner registry selection
  | [] => fun _ member => by cases member
  | selection :: selections =>
      List.forall_mem_cons.mpr ⟨inner_selection selection, inner_selections selections⟩

end

theorem inner_directives (scope : Scope) (location : DirectiveLocation)
    (applied : List Directive) :
    Walk.Each Visit.IsInner (Walk.directives registry scope location applied) :=
  Walk.each_directives beside_inner (fun _ _ => inner_arguments _) _ _

theorem inner_selectionSet (scope : Scope) (owner : Position) (selections : List Selection) :
    Walk.Each Visit.IsInner (Walk.selectionSet registry scope owner selections) :=
  Walk.each_selectionSet beside_inner (inner_selections selections) _ _

theorem inner_variableDefinitions (scope : Scope) (definitions : List VariableDefinition) :
    Walk.Each Visit.IsInner (definitions.flatMap (Walk.variableDefinition registry scope)) :=
  .flatMap fun _ _ =>
    Walk.each_variableDefinition beside_inner (fun _ _ => inner_value _) _

private theorem Shows.bounded {visits : List ScopedVisit} {recorded : Recorded α}
    {first last : ScopedVisit} (shows : Shows record? visits recorded)
    (isFirst : first.visit.kind.bounds = true) (isLast : last.visit.kind.bounds = true) :
    Shows record? (first :: (visits ++ [last])) recorded := by
  have inside {visit : ScopedVisit} (notBound : visit.visit.IsInner)
      (member : visit ∈ first :: (visits ++ [last])) : visit ∈ visits := by
    simp only [List.mem_cons, List.mem_append, List.not_mem_nil, or_false] at member
    rcases member with equal | within | equal
    · rw [equal, Visit.IsInner, isFirst] at notBound
      cases notBound
    · exact within
    · rw [equal, Visit.IsInner, isLast] at notBound
      cases notBound
  exact
    { usages := fun scope literal usage visited isUsage =>
        shows.usages scope literal usage (inside rfl visited) isUsage
      spreads := fun scope spread visited => shows.spreads scope spread (inside rfl visited) }

/-- Entries stay, and those of fragments only grow. -/
structure Continues (before after : Usages α) : Prop where
  operations : before.operations ⊆ after.operations
  fragments : ∀ name recorded, Named.value? before.fragments name = some recorded →
    ∃ later, Named.value? after.fragments name = some later ∧ Enlarges recorded later

private theorem Continues.refl (usages : Usages α) : Continues usages usages :=
  ⟨List.Subset.refl _, fun _ recorded found => ⟨recorded, found, .refl recorded⟩⟩

private theorem Continues.trans {first second third : Usages α} (continues : Continues first second)
    (later : Continues second third) : Continues first third where
  operations := List.Subset.trans continues.operations later.operations
  fragments := by
    intro name recorded found
    rcases continues.fragments name recorded found with ⟨between, foundBetween, grows⟩
    rcases later.fragments name between foundBetween with ⟨last, foundLast, growsLater⟩
    exact ⟨last, foundLast, grows.trans growsLater⟩

/-- The entry of a definition has everything in it. -/
def Taken (record? : Scope → Literal → Option α) (registry : Registry) (usages : Usages α)
    (definition : Definition) : Prop :=
  ∃ recorded, Shows record? (Walk.definition registry definition) recorded ∧
    match definition with
    | .operation operation => (operation, recorded) ∈ usages.operations
    | .fragment fragment => Named.value? usages.fragments fragment.name = some recorded

private theorem Taken.continues {before after : Usages α} {definition : Definition}
    (taken : Taken record? registry before definition) (continues : Continues before after) :
    Taken record? registry after definition := by
  rcases taken with ⟨recorded, shows, entry⟩
  cases definition with
  | operation operation => exact ⟨recorded, shows, continues.operations entry⟩
  | fragment fragment =>
      rcases continues.fragments _ _ entry with ⟨later, found, grows⟩
      exact ⟨later, shows.grows grows, found⟩

private theorem foldl_definition (usages : Usages α) (definition : Definition) :
    Continues usages ((Walk.definition registry definition).foldl (track record?) usages) ∧
      Taken record? registry ((Walk.definition registry definition).foldl (track record?) usages)
        definition := by
  cases definition with
  | operation operation =>
      rw [Taken, Walk.definition, Walk.operation]
      dsimp only
      rw [foldl_operation (((inner_variableDefinitions _ _).append
        (inner_directives _ _ _)).append (inner_selectionSet _ _ _))]
      constructor
      · exact ⟨List.subset_append_left _ _, fun _ recorded found => ⟨recorded, found, .refl _⟩⟩
      · exact ⟨_, (shows_foldl _ {}).bounded rfl rfl,
          List.mem_append_right _ (List.mem_singleton_self _)⟩
  | fragment fragment =>
      rw [Taken, Walk.definition, Walk.fragment]
      dsimp only
      rcases foldl_fragment ((inner_directives _ _ _).append (inner_selectionSet _ _ _)) with
        ⟨entries, isState, found⟩
      rw [isState]
      constructor
      · refine ⟨List.Subset.refl _, fun name recorded isEntry => ?_⟩
        rw [found name, isEntry, Option.getD_some]
        split
        · exact ⟨_, rfl, grows_foldl _ recorded⟩
        · exact ⟨recorded, rfl, .refl recorded⟩
      · exact ⟨_, (shows_foldl _ _).bounded rfl rfl, (found fragment.name).trans (if_pos rfl)⟩

/-- After the walk every definition has been taken down. -/
theorem foldl_definitions (definitions : List Definition) (usages : Usages α) :
    Continues usages
        ((definitions.flatMap (Walk.definition registry)).foldl (track record?) usages) ∧
      ∀ definition ∈ definitions, Taken record? registry
        ((definitions.flatMap (Walk.definition registry)).foldl (track record?) usages)
        definition := by
  induction definitions generalizing usages with
  | nil => exact ⟨.refl usages, fun _ member => by cases member⟩
  | cons head tail induction =>
      rw [List.flatMap_cons, List.foldl_append]
      have here : Continues usages ((Walk.definition registry head).foldl (track record?) usages) ∧
          _ := foldl_definition usages head
      have later := induction ((Walk.definition registry head).foldl (track record?) usages)
      exact ⟨here.1.trans later.1,
        List.forall_mem_cons.mpr ⟨here.2.continues later.1, later.2⟩⟩

/-! ## The judgement -/

variable {subject : Subject} {code : String}
  {judge : Subject → Operation → List α → List Finding}

private theorem not_leaveDocument {definition : Definition} {visit : ScopedVisit}
    (member : visit ∈ Walk.definition registry definition) : visit.visit ≠ .leaveDocument := by
  have inner {visits : List ScopedVisit} (within : Walk.Each Visit.IsInner visits)
      (member : visit ∈ visits) : visit.visit ≠ .leaveDocument := by
    intro isLast
    have isInner := within visit member
    rw [isLast] at isInner
    cases isInner
  cases definition with
  | operation operation =>
      rcases List.mem_cons.mp member with rfl | member
      · exact Visit.noConfusion
      · rcases List.mem_append.mp member with within | last
        · exact inner (((inner_variableDefinitions _ _).append (inner_directives _ _ _)).append
            (inner_selectionSet _ _ _)) within
        · rw [List.mem_singleton.mp last]
          exact Visit.noConfusion
  | fragment fragment =>
      rcases List.mem_cons.mp member with rfl | member
      · exact Visit.noConfusion
      · rcases List.mem_append.mp member with within | last
        · exact inner ((inner_directives _ _ _).append (inner_selectionSet _ _ _)) within
        · rw [List.mem_singleton.mp last]
          exact Visit.noConfusion

/-- The walk up to its end. -/
def inwardWalk (document : Document) (registry : Registry) : List ScopedVisit :=
  ⟨{}, .enterDocument⟩ :: document.definitions.flatMap (Walk.definition registry)

theorem not_end_of_inward {document : Document} {visit : ScopedVisit}
    (member : visit ∈ inwardWalk document registry) : visit.visit ≠ .leaveDocument := by
  rcases List.mem_cons.mp member with rfl | member
  · exact Visit.noConfusion
  · rcases List.mem_flatMap.mp member with ⟨definition, _, inside⟩
    exact not_leaveDocument inside

/-- All that is recorded of a document. -/
def recordings (record? : Scope → Literal → Option α) (document : Document) (registry : Registry) :
    Usages α :=
  (inwardWalk document registry).foldl (track record?) {}

private theorem usageRule_step {visit : ScopedVisit} (notEnd : visit.visit ≠ .leaveDocument)
    (usages : Usages α) :
    Rule.Running.step subject visit ⟨usageRule code record? judge, usages⟩ =
      (⟨usageRule code record? judge, track record? usages visit⟩, []) := by
  rcases visit with ⟨scope, visit⟩
  cases visit with
  | leaveDocument => exact absurd rfl notEnd
  | _ => rfl

/-- A rule about usages reports what it has against the operations at the end, each by what its
entry and the fragments it reaches show. -/
theorem validate_usageRule (document : Document) (registry : Registry) :
    document.validate registry [usageRule code record? judge] =
      ((recordings record? document registry).operations.flatMap fun entry =>
        judge ⟨registry, document⟩ entry.1
          ((recordings record? document registry).ofOperation entry.2)).map
        (usageRule code record? judge).report := by
  have steps : ∀ visit ∈ inwardWalk document registry, ∀ usages : Usages α,
      Rule.Running.step ⟨registry, document⟩ visit ⟨usageRule code record? judge, usages⟩ =
        (⟨usageRule code record? judge, track record? usages visit⟩, []) :=
    fun _ member => usageRule_step (not_end_of_inward member)
  have sees : (usageRule code record? judge).Sees ⟨{}, .leaveDocument⟩ := rfl
  have run := @Rule.run_advance _ (usageRule code record? judge) _ (track record?) steps
    [⟨{}, .leaveDocument⟩] {}
  rw [validate_one]
  exact (run.trans (Rule.run_of_sees sees _)).trans (List.append_nil _)

end Rules

end GraphQL
