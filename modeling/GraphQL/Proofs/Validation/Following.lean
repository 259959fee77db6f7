import GraphQL.Proofs.Document.Nesting
import GraphQL.Proofs.Validation.Occurrences

/-!
What the rules about usages come to. In a document whose fragments have different names they record
for each definition exactly what is written in it, and follow each operation to the fragments that
it reaches.
-/

namespace GraphQL

namespace Document

variable {document : Document} {name target : String}

/-- The names that a fragment spreads; one that is not defined spreads none. -/
def spreadNames (document : Document) (name : String) : List String :=
  ((document.fragment? name).map fun fragment =>
    (spreadsOf fragment.selections).map FragmentSpread.name).getD []

/-- The variables in a fragment; one that is not defined has none. -/
def occurrencesIn (document : Document) (name : String) : List (String × Position) :=
  ((document.fragment? name).map Fragment.occurrences).getD []

private theorem mem_spreadNames :
    target ∈ document.spreadNames name ↔ document.SpreadsTo name target := by
  rw [spreadNames, SpreadsTo]
  cases document.fragment? name with
  | none => simp
  | some fragment => simp [List.mem_map]

end Document

namespace Rules

variable {α : Type} {record? : Scope → Literal → Option α} {registry : Registry}
  {document : Document}

/-! ## What is recorded -/

private theorem recordedIn_bounded {first last : ScopedVisit} (visits : List ScopedVisit)
    (isFirst : first.visit.kind.bounds = true) (isLast : last.visit.kind.bounds = true) :
    recordedIn record? (first :: (visits ++ [last])) = recordedIn record? visits := by
  have none {visit : ScopedVisit} (bound : visit.visit.kind.bounds = true) :
      usageAt? record? visit = none ∧ spreadAt? visit = none := by
    rcases visit with ⟨scope, visit⟩
    cases visit <;> first | exact ⟨rfl, rfl⟩ | cases bound
  simp [recordedIn, (none isFirst).1, (none isFirst).2, (none isLast).1, (none isLast).2]

private theorem foldl_walkOperation (operation : Operation) (usages : Usages α) :
    (Walk.operation registry operation).foldl (track record?) usages =
      { operations :=
          usages.operations ++
            [(operation, recordedIn record? (Walk.operation registry operation))]
        fragments := usages.fragments } := by
  rw [Walk.operation, recordedIn_bounded _ rfl rfl, foldl_operation
    (((inner_variableDefinitions _ _).append (inner_directives _ _ _)).append
      (inner_selectionSet _ _ _)), foldl_recordVisit]
  rfl

private theorem foldl_walkFragment (fragment : Fragment) (before : List (Operation × Recorded α))
    {entries : List (String × Recorded α)} (new : Named.value? entries fragment.name = none) :
    ∃ after, (Walk.fragment registry fragment).foldl (track record?)
        { operations := before, fragments := entries } =
      { operations := before, fragments := after } ∧
      ∀ name, Named.value? after name =
        if fragment.name = name then some (recordedIn record? (Walk.fragment registry fragment))
        else Named.value? entries name := by
  rw [Walk.fragment, recordedIn_bounded _ rfl rfl]
  rcases foldl_fragment ((inner_directives _ _ _).append (inner_selectionSet _ _ _)) with
    ⟨after, isState, found⟩
  refine ⟨after, isState, fun name => ?_⟩
  rw [found name, foldl_recordVisit]
  by_cases same : fragment.name = name
  · subst same
    rw [if_pos rfl, if_pos rfl, new]
    rfl
  · rw [if_neg same, if_neg same]

/-- The walk through definitions records each of them, in order. -/
private theorem foldl_walkDefinitions (definitions : List Definition)
    (before : List (Operation × Recorded α)) (entries : List (String × Recorded α))
    (distinct : (Named.names (Document.fragments ⟨definitions⟩)).Nodup)
    (new : ∀ name ∈ Named.names (Document.fragments ⟨definitions⟩),
      Named.value? entries name = none) :
    ∃ after, (definitions.flatMap (Walk.definition registry)).foldl (track record?)
        { operations := before, fragments := entries } =
      { operations := before ++ (Document.operations ⟨definitions⟩).map fun operation =>
          (operation, recordedIn record? (Walk.operation registry operation))
        fragments := after } ∧
      (∀ fragment ∈ Document.fragments ⟨definitions⟩, Named.value? after fragment.name =
        some (recordedIn record? (Walk.fragment registry fragment))) ∧
      ∀ name ∉ Named.names (Document.fragments ⟨definitions⟩),
        Named.value? after name = Named.value? entries name := by
  induction definitions generalizing before entries with
  | nil =>
      refine ⟨entries, ?_, fun _ member => (List.not_mem_nil member).elim, fun _ _ => rfl⟩
      simp [Document.operations]
  | cons head tail induction =>
      rw [List.flatMap_cons, List.foldl_append]
      cases head with
      | operation operation =>
          rw [Walk.definition, foldl_walkOperation]
          rcases induction (before ++
            [(operation, recordedIn record? (Walk.operation registry operation))]) entries distinct
            new with ⟨after, isState, found⟩
          refine ⟨after, ?_, found⟩
          rw [isState, List.append_assoc]
          rfl
      | fragment fragment =>
          have apart : fragment.name ∉ Named.names (Document.fragments ⟨tail⟩) ∧
              (Named.names (Document.fragments ⟨tail⟩)).Nodup := List.nodup_cons.mp distinct
          have news := List.forall_mem_cons.mp new
          rcases foldl_walkFragment fragment before news.1 with ⟨between, isBetween, foundBetween⟩
          have stillNew : ∀ name ∈ Named.names (Document.fragments ⟨tail⟩),
              Named.value? between name = none := by
            intro name member
            have different : fragment.name ≠ name := fun same => apart.1 (same ▸ member)
            rw [foundBetween, if_neg different]
            exact news.2 name member
          rcases induction before between apart.2 stillNew with ⟨after, isState, found, kept⟩
          refine ⟨after, ?_, List.forall_mem_cons.mpr ⟨?_, found⟩, fun name other => ?_⟩
          · rw [Walk.definition, isBetween, isState]
            rfl
          · rw [kept _ apart.1, foundBetween, if_pos rfl]
          · have different : fragment.name ≠ name := Ne.symm (List.ne_of_not_mem_cons other)
            rw [kept _ (List.not_mem_of_not_mem_cons other), foundBetween, if_neg different]

/-- In a document whose fragments have different names everything is recorded as it is written. -/
private theorem recordings_eq (distinct : (Named.names document.fragments).Nodup) :
    (recordings record? document registry).operations = document.operations.map (fun operation =>
        (operation, recordedIn record? (Walk.operation registry operation))) ∧
      ∀ name, Named.value? (recordings record? document registry).fragments name =
        (document.fragment? name).map fun fragment =>
          recordedIn record? (Walk.fragment registry fragment) := by
  rcases foldl_walkDefinitions document.definitions [] [] distinct (fun _ _ => rfl) with
    ⟨after, isState, found, kept⟩
  have isState : recordings record? document registry = _ := isState
  rw [isState]
  refine ⟨List.nil_append _, fun name => ?_⟩
  cases fragment? : document.fragment? name with
  | none =>
      apply kept
      intro member
      rcases List.mem_map.mp member with ⟨fragment, isFragment, isName⟩
      have isName : fragment.name = name := isName
      rw [← isName, Document.fragment?_of_mem distinct isFragment] at fragment?
      cases fragment?
  | some fragment =>
      have isFragment := Document.fragment?_mem fragment?
      rw [← isFragment.2]
      exact found fragment isFragment.1

private theorem spreadsOf_recordings (distinct : (Named.names document.fragments).Nodup) :
    (recordings record? document registry).spreadsOf = document.spreadNames := by
  funext name
  rw [Usages.spreadsOf, (recordings_eq distinct).2, Document.spreadNames]
  cases document.fragment? name with
  | none => rfl
  | some fragment => exact spreads_fragment fragment

/-- An operation is followed to what is discovered from its spreads. -/
private theorem reachable_recordings (distinct : (Named.names document.fragments).Nodup)
    (operation : Operation) :
    Discovers document.spreadNames [] ((spreadsOf operation.selections).map FragmentSpread.name)
      ((recordings record? document registry).reachable
        (recordedIn record? (Walk.operation registry operation)).spreads) := by
  rw [← spreadsOf_recordings distinct, ← spreads_operation operation]
  exact (recordings record? document registry).reachable_discovers _

/-- The usages of an operation are those in it and in the fragments that are discovered. -/
private theorem ofOperation_recordings (distinct : (Named.names document.fragments).Nodup)
    {operation : Operation} {reached : List String}
    (discovers : Discovers document.spreadNames []
      ((spreadsOf operation.selections).map FragmentSpread.name) reached) :
    (recordings record? document registry).ofOperation
        (recordedIn record? (Walk.operation registry operation)) =
      (Walk.operation registry operation).filterMap (usageAt? record?) ++
        reached.flatMap fun name => ((document.fragment? name).map fun fragment =>
          (Walk.fragment registry fragment).filterMap (usageAt? record?)).getD [] := by
  rw [Usages.ofOperation, discovers.unique (reachable_recordings distinct operation)]
  congr 2
  funext name
  rw [(recordings_eq distinct).2]
  cases document.fragment? name <;> rfl

/-! ## What is reported -/

/-- The variables that are used in an operation, itself and through fragments. -/
def usedVariables (document : Document) (operation : Operation) (reached : List String) :
    List (String × Position) :=
  operation.occurrences ++ reached.flatMap document.occurrencesIn

private theorem ofOperation_occurrences (distinct : (Named.names document.fragments).Nodup)
    {operation : Operation} {reached : List String}
    (discovers : Discovers document.spreadNames []
      ((spreadsOf operation.selections).map FragmentSpread.name) reached) :
    (recordings variableAtPosition? document registry).ofOperation
        (recordedIn variableAtPosition? (Walk.operation registry operation)) =
      usedVariables document operation reached := by
  rw [ofOperation_recordings distinct discovers]
  refine congrArg₂ List.append (occurrences_operation operation) ?_
  congr 1
  funext name
  rw [Document.occurrencesIn]
  cases document.fragment? name with
  | none => rfl
  | some fragment => exact occurrences_fragment fragment

private theorem usageAt?_variableName (visit : ScopedVisit) :
    usageAt? variableName? visit = (occurrenceAt? visit).map Prod.fst := by
  rcases visit with ⟨scope, visit⟩
  cases visit with
  | value literal => cases literal <;> rfl
  | _ => rfl

private theorem ofOperation_names (distinct : (Named.names document.fragments).Nodup)
    {operation : Operation} {reached : List String}
    (discovers : Discovers document.spreadNames []
      ((spreadsOf operation.selections).map FragmentSpread.name) reached) :
    (recordings variableName? document registry).ofOperation
        (recordedIn variableName? (Walk.operation registry operation)) =
      (usedVariables document operation reached).map Prod.fst := by
  have names (visits : List ScopedVisit) : visits.filterMap (usageAt? variableName?) =
      (visits.filterMap occurrenceAt?).map Prod.fst := by
    rw [List.map_filterMap]
    simp only [usageAt?_variableName]
  rw [ofOperation_recordings distinct discovers, usedVariables, List.map_append, List.map_flatMap,
    names, occurrences_operation]
  congr 2
  funext name
  rw [Document.occurrencesIn]
  cases document.fragment? name with
  | none => rfl
  | some fragment => exact (names _).trans (congrArg _ (occurrences_fragment fragment))

/-- What is reported where an operation does not define a variable. -/
def undefinedVariable (operation : Operation) : String × Position → ValidationError
  | (name, position) =>
      { code := "NO_UNDEFINED_VARIABLES"
        message :=
          match operation.name with
          | some around => s!"Variable \"${name}\" is not defined by operation \"{around}\"."
          | none => s!"Variable \"${name}\" is not defined."
        locations := [position, operation.position] }

/-- What is reported where a variable is defined in vain. -/
def unusedVariable (operation : Operation) (definition : VariableDefinition) :
    ValidationError where
  code := "NO_UNUSED_VARIABLES"
  message :=
    match operation.name with
    | some around => s!"Variable \"${definition.name}\" is never used in operation \"{around}\"."
    | none => s!"Variable \"${definition.name}\" is never used."
  locations := [definition.position]

def unusedFragment (fragment : Fragment) : ValidationError where
  code := "NO_UNUSED_FRAGMENTS"
  message := s!"Fragment \"{fragment.name}\" is never used."
  locations := [fragment.position]

/-- For each operation what is discovered from its spreads. -/
private def Follows (document : Document) (reached : Operation → List String) : Prop :=
  ∀ operation, Discovers document.spreadNames []
    ((spreadsOf operation.selections).map FragmentSpread.name) (reached operation)

variable {reached : Operation → List String}

private theorem Follows.mem_iff (follows : Follows document reached) (operation : Operation)
    (name : String) :
    name ∈ reached operation ↔ ∃ spread ∈ spreadsOf operation.selections,
      Relation.ReflTransGen document.SpreadsTo spread.name name := by
  have sameRelation : (fun name target => target ∈ document.spreadNames name) =
      document.SpreadsTo := by
    funext name target
    exact propext Document.mem_spreadNames
  rw [(follows operation).mem_iff, sameRelation]
  simp only [List.mem_map, exists_exists_and_eq_and]

private theorem not_contains_eq (names : List String) (name : String) :
    (!names.contains name) = decide (name ∉ names) := by
  simp

private theorem validate_noUndefinedVariables (distinct : (Named.names document.fragments).Nodup)
    (follows : Follows document reached) :
    document.validate registry [noUndefinedVariables] =
      document.operations.flatMap fun operation =>
        ((usedVariables document operation (reached operation)).filter fun occurrence =>
          occurrence.1 ∉ definedNames operation).map (undefinedVariable operation) := by
  refine (validate_usageRule document registry).trans ?_
  rw [(recordings_eq distinct).1, List.flatMap_map, List.map_flatMap]
  congr 1
  funext operation
  rw [ofOperation_occurrences distinct (follows operation), List.map_map]
  refine congrArg₂ List.map rfl (List.filter_congr fun occurrence _ => ?_)
  exact not_contains_eq _ _

private theorem validate_noUnusedVariables (distinct : (Named.names document.fragments).Nodup)
    (follows : Follows document reached) :
    document.validate registry [noUnusedVariables] =
      document.operations.flatMap fun operation =>
        (operation.variableDefinitions.filter fun definition =>
          definition.name ∉ (usedVariables document operation (reached operation)).map
            Prod.fst).map (unusedVariable operation) := by
  refine (validate_usageRule document registry).trans ?_
  rw [(recordings_eq distinct).1, List.flatMap_map, List.map_flatMap]
  congr 1
  funext operation
  rw [ofOperation_names distinct (follows operation), List.map_map]
  refine congrArg₂ List.map rfl (List.filter_congr fun definition _ => ?_)
  exact not_contains_eq _ _

/-- The rule about unused fragments records spreads only. -/
private def nothing? (_ : Scope) (_ : Literal) : Option Unit := none

private theorem noUnusedFragments_step {subject : Subject} {visit : ScopedVisit}
    (notEnd : visit.visit ≠ .leaveDocument) (usages : Usages Unit) :
    Rule.Running.step subject visit ⟨noUnusedFragments, usages⟩ =
      (⟨noUnusedFragments, track nothing? usages visit⟩, []) := by
  rcases visit with ⟨scope, visit⟩
  cases visit with
  | leaveDocument => exact absurd rfl notEnd
  | _ => rfl

private theorem validate_noUnusedFragments (document : Document) (registry : Registry) :
    document.validate registry [noUnusedFragments] =
      (document.fragments.filter fun fragment =>
        !((recordings nothing? document registry).operations.flatMap fun entry =>
          (recordings nothing? document registry).reachable entry.2.spreads).contains
            fragment.name).map unusedFragment := by
  have steps : ∀ visit ∈ inwardWalk document registry, ∀ usages : Usages Unit,
      Rule.Running.step ⟨registry, document⟩ visit ⟨noUnusedFragments, usages⟩ =
        (⟨noUnusedFragments, track nothing? usages visit⟩, []) :=
    fun _ member => noUnusedFragments_step (not_end_of_inward member)
  have sees : noUnusedFragments.Sees ⟨{}, .leaveDocument⟩ := rfl
  have run := @Rule.run_advance _ noUnusedFragments _ (track nothing?) steps
    [⟨{}, .leaveDocument⟩] {}
  rw [validate_one]
  refine ((run.trans (Rule.run_of_sees sees _)).trans (List.append_nil _)).trans ?_
  exact List.map_map

end Rules

/-- Each operation is followed to the fragments that its spreads lead to, each once and in
depth-first order, and the rules about usages report exactly what is then missing: the variables
that are used but not defined, those that are defined but not used, and the fragments that no
operation is led to. -/
theorem Document.usages_followed {document : Document}
    (distinct : (Named.names document.fragments).Nodup) (registry : Registry) :
    ∃ reached : Operation → List String,
      (∀ operation,
        (∀ order, Discovers document.spreadNames []
            ((spreadsOf operation.selections).map FragmentSpread.name) order ↔
          order = reached operation) ∧
        (reached operation).Nodup ∧
        ∀ name, name ∈ reached operation ↔ ∃ spread ∈ spreadsOf operation.selections,
          Relation.ReflTransGen document.SpreadsTo spread.name name) ∧
      (∀ (α : Type) (record? : Scope → Literal → Option α),
        (Rules.recordings record? document registry).operations.map (fun entry =>
            (entry.1, (Rules.recordings record? document registry).reachable entry.2.spreads)) =
          document.operations.map fun operation => (operation, reached operation)) ∧
      document.validate registry [Rules.noUndefinedVariables] =
        document.operations.flatMap (fun operation =>
          ((Rules.usedVariables document operation (reached operation)).filter fun occurrence =>
            occurrence.1 ∉ Rules.definedNames operation).map (Rules.undefinedVariable operation)) ∧
      document.validate registry [Rules.noUnusedVariables] =
        document.operations.flatMap (fun operation =>
          (operation.variableDefinitions.filter fun definition =>
            definition.name ∉ (Rules.usedVariables document operation (reached operation)).map
              Prod.fst).map (Rules.unusedVariable operation)) ∧
      document.validate registry [Rules.noUnusedFragments] =
        (document.fragments.filter fun fragment =>
          ∀ operation ∈ document.operations, fragment.name ∉ reached operation).map
            Rules.unusedFragment := by
  let usages := Rules.recordings Rules.nothing? document registry
  let reached (operation : Operation) : List String :=
    usages.reachable (Rules.recordedIn Rules.nothing? (Walk.operation registry operation)).spreads
  have follows : Rules.Follows document reached :=
    fun operation => Rules.reachable_recordings distinct operation
  have reachable (α : Type) (record? : Scope → Literal → Option α) :
      (Rules.recordings record? document registry).operations.map (fun entry =>
          (entry.1, (Rules.recordings record? document registry).reachable entry.2.spreads)) =
        document.operations.map fun operation => (operation, reached operation) := by
    rw [(Rules.recordings_eq distinct).1, List.map_map]
    refine List.map_congr_left fun operation _ => Prod.ext rfl ?_
    exact (follows operation).unique (Rules.reachable_recordings distinct operation)
  refine ⟨reached, fun operation => ⟨fun order => ⟨(follows operation).unique, ?_⟩,
    (follows operation).nodup List.nodup_nil, follows.mem_iff operation⟩, reachable,
    Rules.validate_noUndefinedVariables distinct follows,
    Rules.validate_noUnusedVariables distinct follows, ?_⟩
  · rintro rfl
    exact follows operation
  · rw [Rules.validate_noUnusedFragments]
    refine congrArg _ (List.filter_congr fun fragment _ => ?_)
    have used : (usages.operations.flatMap fun entry => usages.reachable entry.2.spreads) =
        document.operations.flatMap reached := by
      have pairs := congrArg (List.flatMap Prod.snd) (reachable Unit Rules.nothing?)
      rwa [List.flatMap_map, List.flatMap_map] at pairs
    rw [used, Rules.not_contains_eq, decide_eq_decide, List.mem_flatMap]
    simp only [not_exists, not_and]

namespace Errands

/-! An operation that is led in a circle through two fragments and to one that is not there. -/

def spare : VariableDefinition := ⟨⟨1, 12⟩, "spare", .named "Int", none⟩

def operation : Operation :=
  ⟨⟨1, 1⟩, .query, none, [⟨⟨1, 8⟩, "count", .named "Int", none⟩, spare], [],
    [.spread ⟨⟨2, 3⟩, "Outer", []⟩]⟩

def outer : Fragment :=
  ⟨⟨4, 1⟩, "Outer", "Query", [],
    [.field ⟨⟨5, 3⟩, none, "errands", [("first", .variable "limit")], [],
        [.spread ⟨⟨6, 5⟩, "Lost", []⟩]⟩,
      .spread ⟨⟨7, 3⟩, "Inner", []⟩]⟩

def inner : Fragment :=
  ⟨⟨9, 1⟩, "Inner", "Query", [],
    [.field ⟨⟨10, 3⟩, none, "errands", [("first", .variable "count")], [], []⟩,
      .spread ⟨⟨11, 3⟩, "Outer", []⟩]⟩

def alone : Fragment :=
  ⟨⟨13, 1⟩, "Alone", "Query", [], [.spread ⟨⟨14, 3⟩, "Alone", []⟩]⟩

def document : Document where
  definitions := [.operation operation, .fragment outer, .fragment inner, .fragment alone]

private theorem discovers :
    Discovers document.spreadNames [] ((spreadsOf operation.selections).map FragmentSpread.name)
      ["Outer", "Lost", "Inner"] := by
  have ofOuter : document.spreadNames "Outer" = ["Lost", "Inner"] := rfl
  have ofLost : document.spreadNames "Lost" = [] := rfl
  have ofInner : document.spreadNames "Inner" = ["Outer"] := rfl
  refine .enters (by decide) ?_ .done
  rw [ofOuter]
  refine .enters (by decide) (by rw [ofLost]; exact .done) (.enters (by decide) ?_ .done)
  rw [ofInner]
  exact .known (by decide) .done

end Errands

/-- The variable that only a fragment uses is reported, and so are the variable and the fragment
that nothing uses. -/
theorem Document.usages_followed_of_errands :
    (Named.names Errands.document.fragments).Nodup ∧ ∀ registry,
      Errands.document.validate registry [Rules.noUndefinedVariables] =
        [Rules.undefinedVariable Errands.operation ("limit", ⟨5, 3⟩)] ∧
      Errands.document.validate registry [Rules.noUnusedVariables] =
        [Rules.unusedVariable Errands.operation Errands.spare] ∧
      Errands.document.validate registry [Rules.noUnusedFragments] =
        [Rules.unusedFragment Errands.alone] := by
  have distinct : (Named.names Errands.document.fragments).Nodup := by decide
  refine ⟨distinct, fun registry => ?_⟩
  rcases usages_followed distinct registry with
    ⟨reached, orders, _, undefined, unusedVariables, unusedFragments⟩
  have order : reached Errands.operation = ["Outer", "Lost", "Inner"] :=
    (((orders Errands.operation).1 _).mp Errands.discovers).symm
  have operations : Errands.document.operations = [Errands.operation] := rfl
  rw [undefined, unusedVariables, unusedFragments, operations, List.flatMap_singleton,
    List.flatMap_singleton, order]
  refine ⟨rfl, rfl, ?_⟩
  simp only [List.forall_mem_singleton, order]
  rfl

end GraphQL
