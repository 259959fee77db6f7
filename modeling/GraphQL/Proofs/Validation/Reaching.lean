import GraphQL.Proofs.Document.Nesting
import GraphQL.Proofs.Validation.Usages

/-!
The definitions that an operation reaches through spreads. A rule about usages judges an operation
by everything that stands in them.
-/

namespace GraphQL

namespace Subject

variable {schema : Schema} {subject : Subject} {operation : Operation} {definition : Definition}
  {owner : Position} {parent : Option NamedType} {selections : List Selection}

/-- One definition as a document of its own. -/
def only (subject : Subject) (definition : Definition) : Subject :=
  ⟨subject.registry, ⟨[definition]⟩⟩

private theorem only_walk_subset (listed : definition ∈ subject.document.definitions) :
    (subject.only definition).document.walk subject.registry ⊆
      subject.document.walk subject.registry := by
  apply List.cons_subset_cons
  apply List.append_subset.mpr
  refine ⟨fun visit visited => List.mem_append_left _ ?_, List.subset_append_right _ _⟩
  rcases List.mem_flatMap.mp visited with ⟨other, isOther, inside⟩
  exact List.mem_flatMap.mpr ⟨definition, listed, List.mem_singleton.mp isOther ▸ inside⟩

private theorem Passed.only (passed : subject.Passed)
    (listed : definition ∈ subject.document.definitions) : (subject.only definition).Passed where
  leaves := fun scope field visited => passed.leaves scope field (only_walk_subset listed visited)
  inlines := fun scope fragment visited =>
    passed.inlines scope fragment (only_walk_subset listed visited)
  fragments := fun scope fragment visited =>
    passed.fragments scope fragment (only_walk_subset listed visited)
  arguments := fun scope written visited =>
    passed.arguments scope written (only_walk_subset listed visited)

/-- The definitions that an operation reaches: itself, and fragments through spreads. -/
inductive Reaches (subject : Subject) (operation : Operation) : Definition → Prop
  | self : Reaches subject operation (.operation operation)
  | spread {definition : Definition} {owner : Position} {parent : Option NamedType}
      {selections : List Selection} {spread : FragmentSpread} {fragment : Fragment}
      (earlier : Reaches subject operation definition)
      (has : (subject.only definition).HasSelections owner parent selections)
      (member : .spread spread ∈ selections)
      (found : subject.document.fragment? spread.name = some fragment) :
      Reaches subject operation (.fragment fragment)

theorem Reaches.mem (reaches : subject.Reaches operation definition)
    (member : operation ∈ subject.document.operations) :
    definition ∈ subject.document.definitions := by
  cases reaches with
  | self => exact Document.mem_operations.mp member
  | spread earlier has isSpread found =>
      exact Document.mem_fragments.mp (Document.fragment?_mem found).1

/-- What is selected in a definition that is reached stands in one that is reached. -/
theorem Reaches.selects (reaches : subject.Reaches operation definition)
    (has : (subject.only definition).HasSelections owner parent selections)
    {selected : SelectedField} (selects : subject.Selects parent selections selected) :
    ∃ around, subject.Reaches operation around ∧ (subject.only around).HasField selected := by
  induction selects generalizing definition owner with
  | field member => exact ⟨definition, reaches, owner, _, _, _, has, member, rfl⟩
  | inline member inside induction => exact induction reaches (.inline has member)
  | spread member found inside induction =>
      exact induction (.spread reaches has member found) (.fragment (List.mem_singleton_self _))

/-- Selection sets nest no deeper than those that they stand in. -/
private theorem HasSelections.nestingOf_le (follow : String → Nat) {bound : Nat}
    (has : subject.HasSelections owner parent selections)
    (operations : ∀ operation ∈ subject.document.operations,
      nestingOf follow operation.selections ≤ bound)
    (fragments : ∀ fragment ∈ subject.document.fragments,
      nestingOf follow fragment.selections ≤ bound) :
    nestingOf follow selections ≤ bound := by
  induction has with
  | operation member => exact operations _ member
  | fragment member => exact fragments _ member
  | @field _ _ _ field _ member induction =>
      have inside := (nesting_le_nestingOf follow member).trans induction
      rw [Selection.nesting, Field.nesting_eq] at inside
      exact Nat.le_of_succ_le inside
  | @inline _ _ _ fragment _ member induction =>
      have inside := (nesting_le_nestingOf follow member).trans induction
      rwa [Selection.nesting, InlineFragment.nesting_eq] at inside

/-- What an operation reaches nests no deeper than the operation. -/
theorem Reaches.nesting_le (acyclic : subject.document.Acyclic)
    (reaches : subject.Reaches operation definition)
    (has : (subject.only definition).HasSelections owner parent selections) :
    subject.document.nesting selections ≤ subject.document.nesting operation.selections := by
  induction reaches generalizing owner parent selections with
  | self =>
      refine has.nestingOf_le _ (fun other member => ?_) (fun fragment member => by cases member)
      rw [List.mem_singleton.mp member]
      exact Nat.le_refl _
  | @spread definition _ _ around spread fragment earlier hasAround member found induction =>
      refine has.nestingOf_le _ (fun other member => by cases member) fun other isFragment => ?_
      rw [List.mem_singleton.mp isFragment]
      have here := nesting_le_nestingOf
        (subject.document.fragmentNesting subject.document.fragments.length) member
      rw [Selection.nesting, acyclic.fragmentNesting_eq found] at here
      exact here.trans (induction hasAround)

/-- The walk comes by everything in the selection sets of a definition. -/
theorem HasSelections.visits (yields : schema.Yields subject.registry) (passed : subject.Passed)
    (listed : definition ∈ subject.document.definitions)
    (has : (subject.only definition).HasSelections owner parent selections)
    {selection : Selection} (member : selection ∈ selections) :
    ∃ scope, Walk.Inside subject.registry parent scope ∧
      Walk.selection subject.registry scope selection ⊆
        Walk.definition subject.registry definition := by
  have yields : schema.Yields (subject.only definition).registry := yields
  rcases has.walked yields (passed.only listed) (List.ne_nil_of_mem member) with ⟨scope, walked⟩
  refine ⟨scope, walked.inside, fun visit visited => ?_⟩
  have shown := walked.walks (selection_subset_walk member visited)
  have inside := Rules.inner_selection selection scope visit visited
  rcases List.mem_cons.mp shown with equal | within
  · rw [equal] at inside
    cases inside
  · rcases List.mem_append.mp within with within | last
    · rcases List.mem_flatMap.mp within with ⟨other, isOther, within⟩
      exact List.mem_singleton.mp isOther ▸ within
    · rw [List.mem_singleton.mp last] at inside
      cases inside

end Subject

namespace Rules

variable {α : Type} {record? : Scope → Literal → Option α} {schema : Schema} {subject : Subject}
  {usages : Usages α} {operation : Operation} {code : String}
  {judge : Subject → Operation → List α → List Finding}

/-- What an operation reaches is followed from its own entry. -/
private theorem followed_of_reaches (yields : schema.Yields subject.registry)
    (passed : subject.Passed) (taken : ∀ definition ∈ subject.document.definitions,
      Taken record? subject.registry usages definition)
    (member : operation ∈ subject.document.operations) :
    ∃ recorded, (operation, recorded) ∈ usages.operations ∧
      ∀ definition, subject.Reaches operation definition →
        ∃ shown, Shows record? (Walk.definition subject.registry definition) shown ∧
          shown.usages ⊆ usages.ofOperation recorded ∧
          shown.spreads ⊆ usages.reachable recorded.spreads := by
  rcases taken _ (Document.mem_operations.mp member) with ⟨recorded, shows, entry⟩
  have closed := usages.reachable_closed recorded.spreads
  refine ⟨recorded, entry, fun definition reaches => ?_⟩
  induction reaches with
  | self => exact ⟨recorded, shows, List.subset_append_left _ _, closed.1⟩
  | @spread definition owner parent selections spread fragment earlier has isSpread found
      induction =>
      rcases induction with ⟨shown, shows, _, follows⟩
      rcases has.visits yields passed (earlier.mem member) isSpread with ⟨scope, _, visited⟩
      have isFragment := Document.fragment?_mem found
      rcases taken _ (Document.mem_fragments.mp isFragment.1) with ⟨inside, showsInside, isEntry⟩
      have isEntry : Named.value? usages.fragments fragment.name = some inside := isEntry
      have followed : fragment.name ∈ usages.reachable recorded.spreads := by
        rw [isFragment.2]
        exact follows (shows.spreads _ spread (visited List.mem_cons_self))
      refine ⟨inside, showsInside, fun usage isUsage => ?_, ?_⟩
      · apply List.mem_append_right
        exact List.mem_flatMap.mpr ⟨fragment.name, followed, by rw [isEntry]; exact isUsage⟩
      · have inFragment := closed.2 _ followed
        rw [Usages.spreadsOf, isEntry] at inFragment
        exact inFragment

/-- A rule about usages that reports nothing has nothing against some usages of an operation, which
include all of those in the definitions that it reaches. -/
theorem usageRule_judges (yields : schema.Yields subject.registry) (passed : subject.Passed)
    (silent : subject.document.validate subject.registry [usageRule code record? judge] = [])
    (member : operation ∈ subject.document.operations) :
    ∃ used, judge subject operation used = [] ∧
      ∀ definition, subject.Reaches operation definition → ∀ scope literal usage,
        ⟨scope, .value literal⟩ ∈ Walk.definition subject.registry definition →
        record? scope literal = some usage → usage ∈ used := by
  rw [validate_usageRule, List.map_eq_nil_iff, List.flatMap_eq_nil_iff] at silent
  have taken : ∀ definition ∈ subject.document.definitions,
      Taken record? subject.registry (recordings record? subject.document subject.registry)
        definition :=
    (foldl_definitions subject.document.definitions {}).2
  rcases followed_of_reaches yields passed taken member with ⟨recorded, entry, reaches⟩
  refine ⟨_, silent _ entry, fun definition isReached scope literal usage visited isUsage => ?_⟩
  rcases reaches definition isReached with ⟨shown, shows, uses, _⟩
  exact uses (shows.usages scope literal usage visited isUsage)

end Rules

end GraphQL
