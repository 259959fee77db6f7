import GraphQL.Proofs.Execution.Merged
import GraphQL.Proofs.Validation.Usages
import GraphQL.Validation.Rules.Fragments

/-!
Whether a fragment can apply where it is spread. Validation compares the types of the fragment and
of the selections around it; execution asks for each object whether the condition holds. Types that
do not overlap have no object in common, and others have one unless they are one type without
objects, so the fields of a fragment that the rule rejects are never collected.
-/

namespace GraphQL

private theorem Registry.overlap_comm (registry : Registry) (left right : NamedType) :
    registry.overlap left right = registry.overlap right left := by
  have anyComm : (registry.possible left.name).any (registry.isPossible right) =
      (registry.possible right.name).any (registry.isPossible left) := by
    rw [Bool.eq_iff_iff, List.any_eq_true, List.any_eq_true]
    simp only [Registry.isPossible, List.contains_iff_mem, and_comm]
  rw [overlap, overlap]
  by_cases same : left.name = right.name
  · rw [if_pos same, if_pos same.symm]
  · rw [if_neg same, if_neg (Ne.symm same), anyComm]
    cases left.isAbstract <;> cases right.isAbstract <;> rfl

namespace Request

variable {request : Request} {schema : Schema} {condition parent object : NamedType}

/-! ## Conditions at runtime -/

private theorem conditionHolds_of_runsAs
    (known : request.registry.lookup? condition.name = some condition)
    (runsAs : request.RunsAs condition object) :
    request.conditionHolds condition.name object.name = true := by
  rw [conditionHolds, Bool.or_eq_true]
  rcases runsAs with ⟨_, same⟩ | ⟨isAbstract, _, isPossible⟩
  · exact .inl (by simp [same])
  · exact .inr (by simp [known, isAbstract, isPossible])

private theorem RunsAs.object?_eq (runsAs : request.RunsAs parent object)
    (known : request.registry.lookup? parent.name = some parent) :
    request.registry.object? object.name = some object := by
  rcases runsAs with ⟨isObject, rfl⟩ | ⟨_, registered, _⟩
  · exact Option.filter_eq_some_iff.mpr ⟨known, isObject⟩
  · exact registered

/-- A condition holds for the objects that are of the type that it names. -/
private theorem conditionHolds_iff
    (known : request.registry.lookup? condition.name = some condition)
    (registered : request.registry.object? object.name = some object) :
    request.conditionHolds condition.name object.name = true ↔
      request.RunsAs condition object := by
  refine ⟨fun holds => ?_, conditionHolds_of_runsAs known⟩
  rcases runsAs_of_conditionHolds registered holds with ⟨type, found, runsAs⟩
  rw [known] at found
  cases found
  exact runsAs

/-! ## Types that overlap -/

private theorem runsAs_iff_of_isObject (isObject : parent.isObject = true) :
    request.RunsAs parent object ↔ object = parent :=
  ⟨fun runsAs => runsAs.eq_of_isObject isObject, fun same => .inl ⟨isObject, same⟩⟩

private theorem runsAs_iff_of_isAbstract (isAbstract : parent.isAbstract = true) :
    request.RunsAs parent object ↔ request.registry.object? object.name = some object ∧
      request.registry.isPossible parent object.name = true := by
  constructor
  · rintro (⟨isObject, _⟩ | ⟨_, runsAs⟩)
    · exact absurd isAbstract (NamedType.not_isAbstract isObject)
    · exact runsAs
  · exact fun runsAs => .inr ⟨isAbstract, runsAs⟩

private theorem exists_runsAs (yields : schema.Yields request.registry)
    (isAbstract : parent.isAbstract = true) {name : String}
    (isPossible : request.registry.isPossible parent name = true) :
    ∃ object, object.name = name ∧ request.RunsAs parent object := by
  rcases yields.object_of_possible isPossible with ⟨object, registered⟩
  have isName : object.name = name :=
    (Named.find?_mem (Registry.isObject_of_object? registered).1).2
  subst isName
  exact ⟨object, rfl, .inr ⟨isAbstract, registered, isPossible⟩⟩

private theorem overlap_of_isObject
    (registered : request.registry.object? object.name = some object)
    (parentComposite : parent.isComposite = true) (differ : object.name ≠ parent.name) :
    request.registry.overlap object parent = true ↔ request.RunsAs parent object := by
  have isObject := (Registry.isObject_of_object? registered).2
  rw [NamedType.isComposite, Bool.or_eq_true] at parentComposite
  rw [Registry.overlap, if_neg differ, if_neg (NamedType.not_isAbstract isObject)]
  rcases parentComposite with parentObject | parentAbstract
  · rw [if_neg (NamedType.not_isAbstract parentObject), runsAs_iff_of_isObject parentObject]
    exact ⟨fun wrong => absurd wrong Bool.false_ne_true,
      fun same => absurd (congrArg NamedType.name same) differ⟩
  · rw [if_pos parentAbstract, runsAs_iff_of_isAbstract parentAbstract]
    exact ⟨fun isPossible => ⟨registered, isPossible⟩, And.right⟩

/-- Composite types of different names overlap if some object is of both. -/
private theorem overlap_iff (yields : schema.Yields request.registry)
    (known : request.registry.lookup? condition.name = some condition)
    (parentKnown : request.registry.lookup? parent.name = some parent)
    (isComposite : condition.isComposite = true) (parentComposite : parent.isComposite = true)
    (differ : condition.name ≠ parent.name) :
    request.registry.overlap condition parent = true ↔
      ∃ object, request.RunsAs condition object ∧ request.RunsAs parent object := by
  by_cases isObject : condition.isObject = true
  · simp only [runsAs_iff_of_isObject isObject, exists_eq_left]
    exact overlap_of_isObject (Option.filter_eq_some_iff.mpr ⟨known, isObject⟩) parentComposite
      differ
  by_cases parentObject : parent.isObject = true
  · simp only [runsAs_iff_of_isObject parentObject, exists_eq_right]
    rw [Registry.overlap_comm]
    exact overlap_of_isObject (Option.filter_eq_some_iff.mpr ⟨parentKnown, parentObject⟩)
      isComposite (Ne.symm differ)
  have isAbstract : condition.isAbstract = true := by
    simpa [NamedType.isComposite, isObject] using isComposite
  have parentAbstract : parent.isAbstract = true := by
    simpa [NamedType.isComposite, parentObject] using parentComposite
  rw [Registry.overlap, if_neg differ, if_pos isAbstract, if_pos parentAbstract, List.any_eq_true]
  constructor
  · rintro ⟨name, listed, isPossible⟩
    rcases exists_runsAs yields isAbstract (List.contains_iff_mem.mpr listed) with
      ⟨object, rfl, runsAs⟩
    exact ⟨object, runsAs, .inr ⟨parentAbstract, runsAs.object?_eq known, isPossible⟩⟩
  · rintro ⟨object, runsAs, parentRunsAs⟩
    exact ⟨object.name,
      List.contains_iff_mem.mp ((runsAs_iff_of_isAbstract isAbstract).mp runsAs).2,
      ((runsAs_iff_of_isAbstract parentAbstract).mp parentRunsAs).2⟩

private theorem exists_runsAs_iff (yields : schema.Yields request.registry)
    (isComposite : parent.isComposite = true) :
    (∃ object, request.RunsAs parent object) ↔
      ¬(parent.isAbstract = true ∧ request.registry.possible parent.name = []) := by
  constructor
  · rintro ⟨object, runsAs⟩ ⟨isAbstract, none⟩
    have listed := List.contains_iff_mem.mp ((runsAs_iff_of_isAbstract isAbstract).mp runsAs).2
    rw [none] at listed
    cases listed
  · intro some
    by_cases isAbstract : parent.isAbstract = true
    · rcases List.exists_mem_of_ne_nil _ fun none => some ⟨isAbstract, none⟩ with ⟨name, listed⟩
      rcases exists_runsAs yields isAbstract (List.contains_iff_mem.mpr listed) with
        ⟨object, _, runsAs⟩
      exact ⟨object, runsAs⟩
    · exact ⟨parent, .inl ⟨by simpa [NamedType.isComposite, isAbstract] using isComposite, rfl⟩⟩

/-! ## Fragments that do not apply -/

/-- Taking in the selection leaves the fields as they are, whatever was collected before. -/
def CollectsNothing (request : Request) (object : NamedType) (selection : Selection) : Prop :=
  ∀ nesting collection, (Collection.addSelection request object.name
    (Collection.addFragment request object.name nesting) selection collection).groups =
      collection.groups

private theorem collectsNothing_inline {node : InlineFragment} {name : String}
    (isCondition : node.condition = some name)
    (apart : request.conditionHolds name object.name = false) :
    request.CollectsNothing object (.inline node) := by
  intro nesting collection
  rcases node with ⟨position, condition, applied, under⟩
  cases isCondition
  rw [Collection.addSelection, Collection.addInline, Option.all_some, apart, Bool.and_false,
    if_neg Bool.false_ne_true]

private theorem collectsNothing_spread {node : FragmentSpread} {fragment : Fragment}
    (found : request.document.fragment? node.name = some fragment)
    (apart : request.conditionHolds fragment.condition object.name = false) :
    request.CollectsNothing object (.spread node) := by
  intro nesting collection
  rw [Collection.addSelection]
  split
  · rfl
  · cases nesting with
    | zero => rfl
    | succ nesting =>
        rw [Collection.addFragment, found]
        simp only [apart, Bool.false_eq_true, ↓reduceIte]

end Request

/-! ## Types at fragments -/

/-- The visit to a fragment shows the type of the selections around it, if any. An inline fragment
has the type that its condition names, and without condition the one around it. -/
structure ScopedVisit.Aligned (registry : Registry) (visit : ScopedVisit) : Prop where
  registered : visit.visit.kind = .spread ∨ visit.visit.kind = .inline →
    ∀ type ∈ visit.scope.parent, type ∈ registry.types
  unconditional : ∀ node, visit.visit = .enterInline node → node.condition = none →
    visit.scope.parent = (visit.scope.namedType? registry).filter NamedType.isComposite
  conditional : ∀ node name, visit.visit = .enterInline node → node.condition = some name →
    visit.scope.type = Walk.outputType? registry (.named name)

namespace Walk

variable {registry : Registry} {visits : List ScopedVisit}

private theorem registered_of_selectionScope {scope : Scope}
    (here : scope.parent = (selectionScope registry scope).parent) :
    ∀ type ∈ scope.parent, type ∈ registry.types := by
  intro type isParent
  rw [here] at isParent
  rcases Option.bind_eq_some_iff.mp (Option.filter_eq_some_iff.mp isParent).1 with
    ⟨reference, _, resolved⟩
  exact (Named.find?_mem resolved).1

private theorem aligned_of_kind {visit : ScopedVisit}
    (other : ¬(visit.visit.kind = .spread ∨ visit.visit.kind = .inline)) :
    visit.Aligned registry :=
  ⟨fun isFragment => absurd isFragment other,
    fun _ isInline => absurd (.inr (congrArg Visit.kind isInline)) other,
    fun _ _ isInline => absurd (.inr (congrArg Visit.kind isInline)) other⟩

private theorem aligned_attached (attached : Each Visit.IsAttached visits) :
    ∀ visit ∈ visits, visit.Aligned registry := by
  refine fun visit member => aligned_of_kind fun isFragment => ?_
  have isAttached := attached visit member
  rw [Visit.IsAttached] at isAttached
  rcases isFragment with isSpread | isInline
  · rw [isSpread] at isAttached
    cases isAttached
  · rw [isInline] at isAttached
    cases isAttached

private theorem aligned_selectionSet {scope : Scope} {owner : Position} {under : List Selection}
    (within : ∀ visit ∈ selections registry (selectionScope registry scope) under,
      visit.Aligned registry) :
    ∀ visit ∈ selectionSet registry scope owner under, visit.Aligned registry := by
  refine List.forall_mem_cons.mpr ⟨aligned_of_kind (by simp [Visit.kind]), ?_⟩
  exact List.forall_mem_append.mpr ⟨within,
    List.forall_mem_singleton.mpr (aligned_of_kind (by simp [Visit.kind]))⟩

mutual

private theorem aligned_selection (scope : Scope)
    (here : scope.parent = (selectionScope registry scope).parent) :
    (node : Selection) → ∀ visit ∈ selection registry scope node, visit.Aligned registry
  | .field ⟨_, _, _, _, _, under⟩ => by
      rw [selection, field]
      refine List.forall_mem_cons.mpr ⟨aligned_of_kind (by simp [Visit.kind]),
        List.forall_mem_append.mpr ⟨List.forall_mem_append.mpr ⟨List.forall_mem_append.mpr
          ⟨aligned_attached (attached_arguments _ _ _),
            aligned_attached (attached_directives _ _ _)⟩, ?_⟩,
          List.forall_mem_singleton.mpr (aligned_of_kind (by simp [Visit.kind]))⟩⟩
      split
      · exact List.forall_mem_nil _
      · exact aligned_selectionSet (aligned_selections _ rfl under)
  | .spread node => by
      rw [selection]
      exact List.forall_mem_cons.mpr
        ⟨⟨fun _ => registered_of_selectionScope here, fun _ isInline => (by cases isInline),
            fun _ _ isInline => by cases isInline⟩,
          aligned_attached (attached_directives _ _ _)⟩
  | .inline ⟨_, condition, _, under⟩ => by
      have registered := registered_of_selectionScope here
      rw [selection, inlineFragment]
      refine List.forall_mem_cons.mpr ⟨?_, List.forall_mem_append.mpr
        ⟨List.forall_mem_append.mpr ⟨aligned_attached (attached_directives _ _ _),
          aligned_selectionSet (aligned_selections _ rfl under)⟩,
          List.forall_mem_singleton.mpr ?_⟩⟩
      · refine ⟨fun _ => registered, fun node isInline unconditional => ?_,
          fun node name isInline conditional => ?_⟩
        · cases isInline
          cases unconditional
          exact here
        · cases isInline
          cases conditional
          rfl
      · exact ⟨fun _ => registered, fun _ isInline => (by cases isInline),
          fun _ _ isInline => by cases isInline⟩

private theorem aligned_selections (scope : Scope)
    (here : scope.parent = (selectionScope registry scope).parent) :
    (under : List Selection) →
      ∀ visit ∈ selections registry scope under, visit.Aligned registry
  | [] => List.forall_mem_nil _
  | node :: under => by
      rw [selections]
      exact List.forall_mem_append.mpr
        ⟨aligned_selection scope here node, aligned_selections scope here under⟩

end

private theorem aligned_walk (document : Document) :
    ∀ visit ∈ document.walk registry, visit.Aligned registry := by
  have outer {visit : ScopedVisit} (isOuter : visit.visit.kind.bounds = true) :
      visit.Aligned registry := by
    refine aligned_of_kind fun isFragment => ?_
    rcases isFragment with isSpread | isInline
    · rw [isSpread] at isOuter
      cases isOuter
    · rw [isInline] at isOuter
      cases isOuter
  refine List.forall_mem_cons.mpr ⟨outer rfl, List.forall_mem_append.mpr
    ⟨List.forall_mem_flatMap.mpr fun definition _ => ?_,
      List.forall_mem_singleton.mpr (outer rfl)⟩⟩
  cases definition with
  | operation operation =>
      have defined (scope : Scope) : Each Visit.IsAttached
          (operation.variableDefinitions.flatMap (variableDefinition registry scope)) :=
        .flatMap fun _ _ => attached_variableDefinition _ _
      exact List.forall_mem_cons.mpr ⟨outer rfl, List.forall_mem_append.mpr
        ⟨List.forall_mem_append.mpr ⟨List.forall_mem_append.mpr
          ⟨aligned_attached (defined _), aligned_attached (attached_directives _ _ _)⟩,
          aligned_selectionSet (aligned_selections _ rfl _)⟩,
          List.forall_mem_singleton.mpr (outer rfl)⟩⟩
  | fragment fragment =>
      exact List.forall_mem_cons.mpr ⟨outer rfl, List.forall_mem_append.mpr
        ⟨List.forall_mem_append.mpr ⟨aligned_attached (attached_directives _ _ _),
          aligned_selectionSet (aligned_selections _ rfl _)⟩,
          List.forall_mem_singleton.mpr (outer rfl)⟩⟩

end Walk

/-! ## What the rule rejects -/

/-- The visit that enters a selection. -/
def Selection.entry : Selection → Visit
  | .field node => .enterField node
  | .spread node => .spread node
  | .inline node => .enterInline node

namespace Request

variable {request : Request} {schema : Schema} {condition parent object : NamedType}

/-- A condition does not hold for objects of a type that it does not overlap with. -/
private theorem not_conditionHolds (yields : schema.Yields request.registry)
    (known : request.registry.lookup? condition.name = some condition)
    (parentKnown : request.registry.lookup? parent.name = some parent)
    (isComposite : condition.isComposite = true) (parentComposite : parent.isComposite = true)
    (disjoint : request.registry.overlap condition parent = false)
    (runsAs : request.RunsAs parent object) :
    request.conditionHolds condition.name object.name = false := by
  have differ : condition.name ≠ parent.name := by
    intro same
    rw [Registry.overlap, if_pos same] at disjoint
    cases disjoint
  by_contra holds
  have both := (conditionHolds_iff known (runsAs.object?_eq parentKnown)).mp (by simpa using holds)
  have overlaps := (overlap_iff yields known parentKnown isComposite parentComposite differ).mpr
    ⟨object, both, runsAs⟩
  rw [disjoint] at overlaps
  cases overlaps

private theorem disjointTypes?_eq_some {registry : Registry}
    {fragmentType around : Option NamedType}
    (disjoint : Rules.disjointTypes? registry fragmentType around = some (condition, parent)) :
    (fragmentType = some condition ∧ condition.isComposite = true) ∧
      (around = some parent ∧ parent.isComposite = true) ∧
      registry.overlap condition parent = false := by
  rw [Rules.disjointTypes?] at disjoint
  split at disjoint
  · rename_i isFragment isAround
    split at disjoint
    · cases disjoint
    · rename_i apart
      cases disjoint
      exact ⟨Option.filter_eq_some_iff.mp isFragment, Option.filter_eq_some_iff.mp isAround,
        by simpa using apart⟩
  · cases disjoint

private theorem apart_of_disjoint (yields : schema.Yields request.registry)
    (listed : condition ∈ request.registry.types) (parentListed : parent ∈ request.registry.types)
    {fragmentType around : Option NamedType}
    (disjoint : Rules.disjointTypes? request.registry fragmentType around =
      some (condition, parent)) (runsAs : request.RunsAs parent object) :
    request.conditionHolds condition.name object.name = false := by
  rcases disjointTypes?_eq_some disjoint with ⟨⟨_, isComposite⟩, ⟨_, parentComposite⟩, apart⟩
  exact not_conditionHolds yields (yields.lookup_of_mem listed)
    (yields.lookup_of_mem parentListed) isComposite parentComposite apart runsAs

private theorem collectsNothing_of_inline (yields : schema.Yields request.registry) {scope : Scope}
    {node : InlineFragment}
    (aligned : ScopedVisit.Aligned request.registry ⟨scope, .enterInline node⟩)
    (disjoint : Rules.disjointTypes? request.registry (scope.namedType? request.registry)
      scope.parent = some (condition, parent)) (runsAs : request.RunsAs parent object) :
    request.CollectsNothing object (.inline node) := by
  rcases disjointTypes?_eq_some disjoint with ⟨⟨isType, isComposite⟩, ⟨isParent, _⟩, apart⟩
  cases isCondition : node.condition with
  | none =>
      have same := aligned.unconditional node rfl isCondition
      rw [isParent, isType, Option.filter_some, if_pos isComposite] at same
      cases same
      rw [Registry.overlap, if_pos rfl] at apart
      cases apart
  | some name =>
      have isOutput := aligned.conditional node name rfl isCondition
      have found : request.registry.lookup? name = some condition := by
        rw [Scope.namedType?, isOutput, Walk.outputType?] at isType
        split at isType
        · exact isType
        · cases isType
      have listed := Named.find?_mem found
      have isName : condition.name = name := listed.2
      exact collectsNothing_inline isCondition (isName ▸ apart_of_disjoint yields listed.1
        (aligned.registered (.inr rfl) parent isParent) disjoint runsAs)

private theorem collectsNothing_of_spread (yields : schema.Yields request.registry) {scope : Scope}
    {node : FragmentSpread} (aligned : ScopedVisit.Aligned request.registry ⟨scope, .spread node⟩)
    (disjoint : Rules.disjointTypes? request.registry
      ((request.document.fragment? node.name).bind fun fragment =>
        request.registry.lookup? fragment.condition) scope.parent = some (condition, parent))
    (runsAs : request.RunsAs parent object) : request.CollectsNothing object (.spread node) := by
  rcases disjointTypes?_eq_some disjoint with ⟨⟨isType, _⟩, ⟨isParent, _⟩, _⟩
  rcases Option.bind_eq_some_iff.mp isType with ⟨fragment, isFragment, found⟩
  have listed := Named.find?_mem found
  have isName : condition.name = fragment.condition := listed.2
  exact collectsNothing_spread isFragment (isName ▸ apart_of_disjoint yields listed.1
    (aligned.registered (.inl rfl) parent isParent) disjoint runsAs)

/-- Whatever the rule rejects is a selection that collects nothing for any object of the type of the
selections around it. -/
private theorem rejected_collectsNothing (yields : schema.Yields request.registry)
    {error : ValidationError}
    (found : error ∈ request.document.validate request.registry [Rules.possibleFragmentSpreads]) :
    ∃ scope selection parent,
      ⟨scope, selection.entry⟩ ∈ request.document.walk request.registry ∧
        error.locations = [selection.position] ∧ scope.parent = some parent ∧
        ∀ object, request.RunsAs parent object → request.CollectsNothing object selection := by
  rcases Rule.mem_stateless.mp found with ⟨⟨scope, visit⟩, member, _, finding, finds, rfl⟩
  have aligned := Walk.aligned_walk _ _ member
  cases visit with
  | enterInline node =>
      dsimp only at finds
      split at finds
      · rename_i disjoint
        rw [List.mem_singleton.mp finds]
        exact ⟨scope, .inline node, _, member, rfl, (disjointTypes?_eq_some disjoint).2.1.1,
          fun _ => collectsNothing_of_inline yields aligned disjoint⟩
      · cases finds
  | spread node =>
      dsimp only at finds
      split at finds
      · rename_i disjoint
        rw [List.mem_singleton.mp finds]
        exact ⟨scope, .spread node, _, member, rfl, (disjointTypes?_eq_some disjoint).2.1.1,
          fun _ => collectsNothing_of_spread yields aligned disjoint⟩
      · cases finds
  | _ => cases finds

/-- The comparison of types agrees with the conditions at runtime: where a condition and a type
overlap it can hold for an object of the type, unless there are no such objects, and elsewhere it
holds for none. So a fragment is rejected only where nothing of it can be collected. -/
theorem overlap_agrees (built : schema.build = .ok request.registry)
    (listed : condition ∈ request.registry.types) (parentListed : parent ∈ request.registry.types)
    (isComposite : condition.isComposite = true) (parentComposite : parent.isComposite = true) :
    (request.registry.overlap condition parent = false → ∀ object, request.RunsAs parent object →
      request.conditionHolds condition.name object.name = false) ∧
    (request.registry.overlap condition parent = true →
      ¬(condition = parent ∧ parent.isAbstract = true ∧
        request.registry.possible parent.name = []) →
      ∃ object, request.RunsAs parent object ∧
        request.conditionHolds condition.name object.name = true) ∧
    request.registry.overlap condition parent = request.registry.overlap parent condition ∧
    ∀ error ∈ request.document.validate request.registry [Rules.possibleFragmentSpreads],
      ∃ scope selection parent,
        ⟨scope, selection.entry⟩ ∈ request.document.walk request.registry ∧
          error.locations = [selection.position] ∧ scope.parent = some parent ∧
          ∀ object, request.RunsAs parent object → request.CollectsNothing object selection := by
  have yields := Schema.build_yields built
  have known := yields.lookup_of_mem listed
  have parentKnown := yields.lookup_of_mem parentListed
  refine ⟨fun disjoint object => ?_, fun overlaps some => ?_,
    request.registry.overlap_comm condition parent, fun _ => rejected_collectsNothing yields⟩
  · exact not_conditionHolds yields known parentKnown isComposite parentComposite disjoint
  · by_cases same : condition.name = parent.name
    · have equal : condition = parent := by
        rw [same, parentKnown] at known
        exact (Option.some.inj known).symm
      subst equal
      rcases (exists_runsAs_iff yields isComposite).mpr fun none => some ⟨rfl, none⟩ with
        ⟨object, runsAs⟩
      exact ⟨object, runsAs, conditionHolds_of_runsAs known runsAs⟩
    · rcases (overlap_iff yields known parentKnown isComposite parentComposite same).mp
        overlaps with ⟨object, runsAs, parentRunsAs⟩
      exact ⟨object, parentRunsAs, conditionHolds_of_runsAs known runsAs⟩

end Request

namespace Petshop

/-! A fragment on an object type that is no possible type of the interface around it. -/

def pet : NamedType where
  key := .custom 0
  name := "Pet"
  shape := .interface { fields := [{ name := "name", type := .named "String" }] }

def dog : NamedType where
  key := .custom 1
  name := "Dog"
  shape := .object
    { interfaces := [.named "Pet"], fields := [{ name := "name", type := .named "String" }] }

def bowl : NamedType where
  key := .custom 2
  name := "Bowl"
  shape := .object { fields := [{ name := "color", type := .named "String" }] }

def query : NamedType where
  key := .custom 3
  name := "Query"
  shape := .object
    { fields :=
        [{ name := "pet", type := .named "Pet" }, { name := "bowl", type := .named "Bowl" }] }

def schema : Schema where
  pool := [pet, dog, bowl, query]
  query := query.toInstance
  types := [pet.toInstance, dog.toInstance, bowl.toInstance]

def registry : Registry where
  types := Scalar.all ++ Meta.all ++ [query, pet, dog, bowl]
  query := query
  mutation := none
  subscription := none
  directives := DirectiveDefinition.builtIn
  possibleTypes := [("Pet", ["Dog"])]

def rejected : InlineFragment :=
  ⟨⟨1, 9⟩, some "Bowl", [], [.field ⟨⟨1, 23⟩, none, "color", [], [], []⟩]⟩

def operation : Operation :=
  ⟨⟨1, 1⟩, .query, none, [], [], [.field ⟨⟨1, 3⟩, none, "pet", [], [], [.inline rejected]⟩]⟩

def request : Request where
  registry := registry
  document := ⟨[.operation operation]⟩
  operation := operation
  variableValues := []
  token := ⟨0, none⟩
  depth := 10

end Petshop

/-- No pet is a bowl, and the fragment on bowls is rejected. -/
theorem Request.overlap_agrees_of_petshop :
    Petshop.schema.build = .ok Petshop.request.registry ∧
      Petshop.bowl ∈ Petshop.request.registry.types ∧ Petshop.pet ∈ Petshop.request.registry.types ∧
      Petshop.bowl.isComposite = true ∧ Petshop.pet.isComposite = true ∧
      Petshop.request.registry.overlap Petshop.bowl Petshop.pet = false ∧
      Petshop.request.conditionHolds Petshop.bowl.name Petshop.dog.name = false ∧
      (Petshop.request.document.validate Petshop.request.registry
          [Rules.possibleFragmentSpreads]).map ValidationError.locations =
        [[Petshop.rejected.position]] ∧
      ∀ error ∈ Petshop.request.document.validate Petshop.request.registry
          [Rules.possibleFragmentSpreads], ∃ scope selection parent,
        ⟨scope, selection.entry⟩ ∈ Petshop.request.document.walk Petshop.request.registry ∧
          error.locations = [selection.position] ∧ scope.parent = some parent ∧
          ∀ object, Petshop.request.RunsAs parent object →
            Petshop.request.CollectsNothing object selection := by
  have built : Petshop.schema.build = .ok Petshop.request.registry := rfl
  have listed : Petshop.bowl ∈ Petshop.request.registry.types := by
    simp [Petshop.request, Petshop.registry]
  have parentListed : Petshop.pet ∈ Petshop.request.registry.types := by
    simp [Petshop.request, Petshop.registry]
  have apart : Petshop.request.registry.overlap Petshop.bowl Petshop.pet = false := by decide
  have registered : Petshop.request.registry.object? Petshop.dog.name = some Petshop.dog := rfl
  have runsAs : Petshop.request.RunsAs Petshop.pet Petshop.dog := .inr ⟨rfl, registered, by decide⟩
  have agrees := Request.overlap_agrees built listed parentListed rfl rfl
  exact ⟨built, listed, parentListed, rfl, rfl, apart, agrees.1 apart Petshop.dog runsAs, rfl,
    agrees.2.2.2⟩

end GraphQL
