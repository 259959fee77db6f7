import GraphQL.Proofs.Schema.Registration
import GraphQL.Proofs.Validation.Plan
import GraphQL.Proofs.Validation.SelectionSets
import GraphQL.Proofs.Validation.Visits
import GraphQL.Validation.Plan

/-!
The walk through a document enters its selection sets and no others, and where the other rules have
nothing to say it enters each with the type that it is on.
-/

namespace GraphQL

/-- The kinds of visits to what is attached to a node: variables, directives, arguments, values. -/
def NodeKind.isAttached : NodeKind → Bool
  | .variableDefinition => true
  | .directive => true
  | .argument => true
  | .value => true
  | _ => false

def Visit.IsAttached (visit : Visit) : Prop := visit.kind.isAttached = true

namespace Walk

variable {registry : Registry}

/-! ## Visits beside selections -/

mutual

theorem kind_value (scope : Scope) :
    (literal : Literal) → ∀ visit ∈ value registry scope literal, visit.visit.kind = .value
  | .list items => by
      rw [value]
      exact List.forall_mem_cons.mpr ⟨rfl, kind_values _ items⟩
  | .object fields => by
      rw [value]
      exact List.forall_mem_cons.mpr ⟨rfl, kind_fieldValues scope _ fields⟩
  | .variable _ => List.forall_mem_singleton.mpr rfl
  | .int _ => List.forall_mem_singleton.mpr rfl
  | .float _ => List.forall_mem_singleton.mpr rfl
  | .string _ => List.forall_mem_singleton.mpr rfl
  | .boolean _ => List.forall_mem_singleton.mpr rfl
  | .null => List.forall_mem_singleton.mpr rfl
  | .enum _ => List.forall_mem_singleton.mpr rfl

private theorem kind_values (scope : Scope) :
    (items : List Literal) → ∀ visit ∈ values registry scope items, visit.visit.kind = .value
  | [] => fun _ member => by cases member
  | item :: items => by
      rw [values]
      exact List.forall_mem_append.mpr ⟨kind_value scope item, kind_values scope items⟩

private theorem kind_fieldValues (scope : Scope)
    (definitions : Option (List InputValueDefinition)) : (fields : List (String × Literal)) →
      ∀ visit ∈ fieldValues registry scope definitions fields, visit.visit.kind = .value
  | [] => fun _ member => by cases member
  | (_, item) :: fields => by
      rw [fieldValues]
      exact List.forall_mem_append.mpr
        ⟨kind_value _ item, kind_fieldValues scope definitions fields⟩

end

private theorem attached_value (scope : Scope) (literal : Literal) :
    Each Visit.IsAttached (value registry scope literal) := by
  intro visit member
  rw [Visit.IsAttached, kind_value scope literal visit member]
  rfl

theorem attached_arguments (scope : Scope) (written : ArgumentList)
    (definitions : Option (List InputValueDefinition)) :
    Each Visit.IsAttached (arguments registry scope written definitions) :=
  .cons rfl (.flatMap fun _ _ => .cons rfl (attached_value _ _))

theorem attached_directives (scope : Scope) (location : DirectiveLocation)
    (applied : List Directive) :
    Each Visit.IsAttached (directives registry scope location applied) :=
  .flatMap fun _ _ => .cons rfl (attached_arguments _ _ _)

theorem attached_variableDefinition (scope : Scope) (definition : VariableDefinition) :
    Each Visit.IsAttached (variableDefinition registry scope definition) := by
  refine .cons rfl ?_
  cases definition.default with
  | none => exact .nil
  | some literal => exact attached_value _ literal

/-- Visits that enter or leave no selection set. -/
private def Aside (visits : List ScopedVisit) : Prop :=
  ∀ visit ∈ visits, visit.visit.kind ≠ .selections

private theorem Aside.append {left right : List ScopedVisit} (asideLeft : Aside left)
    (asideRight : Aside right) : Aside (left ++ right) :=
  List.forall_mem_append.mpr ⟨asideLeft, asideRight⟩

private theorem Aside.cons {visit : ScopedVisit} {visits : List ScopedVisit}
    (aside : visit.visit.kind ≠ .selections) (later : Aside visits) : Aside (visit :: visits) :=
  List.forall_mem_cons.mpr ⟨aside, later⟩

private theorem Each.aside {visits : List ScopedVisit} (attached : Each Visit.IsAttached visits) :
    Aside visits := by
  intro visit member isSelections
  have isAttached := attached visit member
  rw [Visit.IsAttached, isSelections] at isAttached
  cases isAttached

private theorem Aside.not_mem {visits : List ScopedVisit} (aside : Aside visits) {scope : Scope}
    {owner : Position} {under : List Selection} :
    ⟨scope, .enterSelections owner under⟩ ∉ visits :=
  fun member => aside _ member rfl

/-! ## Types of selection sets -/

/-- The scope in a selection set on a type. Inline fragments without condition are on the same
type. -/
structure Inside (registry : Registry) (parent : Option NamedType) (scope : Scope) : Prop where
  here : scope.parent = parent
  again : (selectionScope registry scope).parent = parent

private theorem inside_selectionScope {scope : Scope} {parent : Option NamedType}
    (reached : (selectionScope registry scope).parent = parent) :
    Inside registry parent (selectionScope registry scope) :=
  ⟨reached, reached⟩

private theorem selectionScope_none {scope : Scope} (unknown : scope.type = none) :
    (selectionScope registry scope).parent = none := by
  simp [selectionScope, Scope.namedType?, unknown]

private theorem selectionScope_some {scope : Scope} {type : TypeRef} {target : NamedType}
    (known : scope.type = some type) (resolved : registry.resolve? type = some target)
    (composite : target.isComposite = true) :
    (selectionScope registry scope).parent = some target := by
  simp [selectionScope, Scope.namedType?, known, resolved, Option.filter, composite]

private theorem isOutput_of_isComposite {type : NamedType} (composite : type.isComposite = true) :
    type.isOutput = true := by
  rw [NamedType.isComposite, NamedType.isObject, NamedType.isAbstract] at composite
  rw [NamedType.isOutput]
  split <;> simp_all

private theorem isComposite_of_isOutput {type : NamedType} (output : type.isOutput = true)
    (notLeaf : type.isLeaf = false) : type.isComposite = true := by
  rw [NamedType.isLeaf] at notLeaf
  rw [NamedType.isOutput] at output
  rw [NamedType.isComposite, NamedType.isObject, NamedType.isAbstract]
  cases shape : type.shape <;> simp_all

private theorem selectionScope_condition {scope : Scope} {name : String}
    (known : scope.type = outputType? registry (.named name))
    (composite : ∀ type, registry.lookup? name = some type → type.isComposite = true) :
    (selectionScope registry scope).parent = registry.lookup? name := by
  have resolves : registry.resolve? (.named name) = registry.lookup? name := rfl
  cases found : registry.lookup? name with
  | none =>
      apply selectionScope_none
      rw [known, outputType?, if_neg]
      simp [Registry.isOutput, resolves, found]
  | some type =>
      have isComposite := composite type found
      have isNamed : scope.type = some (.named name) := by
        rw [known, outputType?, if_pos]
        simp [Registry.isOutput, resolves, found, isOutput_of_isComposite isComposite]
      exact selectionScope_some isNamed (resolves.trans found) isComposite

end Walk

/-- What the other rules have made sure of at each visit. -/
structure Subject.Passed (subject : Subject) : Prop where
  leaves : ∀ scope field, ⟨scope, .enterField field⟩ ∈ subject.document.walk subject.registry →
    field.selections ≠ [] → ∀ type, scope.namedType? subject.registry = some type →
      type.isLeaf = false
  inlines : ∀ scope fragment,
    ⟨scope, .enterInline fragment⟩ ∈ subject.document.walk subject.registry →
      ∀ name, fragment.condition = some name → ∀ type,
        subject.registry.lookup? name = some type → type.isComposite = true
  fragments : ∀ scope fragment,
    ⟨scope, .enterFragment fragment⟩ ∈ subject.document.walk subject.registry →
      ∀ type, subject.registry.lookup? fragment.condition = some type → type.isComposite = true
  arguments : ∀ scope written,
    ⟨scope, .arguments written⟩ ∈ subject.document.walk subject.registry →
      (Named.names written).Nodup

namespace Walk

variable {schema : Schema} {registry : Registry} {scope : Scope} {parent : Option NamedType}

private theorem inside_field (yields : schema.Yields registry)
    (registered : ∀ type, parent = some type → type ∈ registry.types)
    (within : Inside registry parent scope) (node : Field)
    (notLeaf : ∀ type,
      (fieldScope registry scope node.position node.name).namedType? registry = some type →
        type.isLeaf = false) :
    Inside registry ((SelectedField.on registry parent node).inner registry)
      (selectionScope registry (fieldScope registry scope node.position node.name)) := by
  apply inside_selectionScope
  have sameDefinition : fieldDefinition? registry scope node.name =
      (SelectedField.on registry parent node).definition := by
    rw [fieldDefinition?, within.here]
    rfl
  have isType : (fieldScope registry scope node.position node.name).type =
      (SelectedField.on registry parent node).definition.bind fun definition =>
        outputType? registry definition.type := by
    rw [← sameDefinition]
    rfl
  rw [SelectedField.inner, SelectedField.type?]
  cases defined : (SelectedField.on registry parent node).definition with
  | none =>
      rw [defined] at isType
      exact selectionScope_none isType
  | some definition =>
      rcases Option.bind_eq_some_iff.mp defined with ⟨type, isParent, isField⟩
      have output := yields.isOutput_field (registered type isParent) isField
      have known : (fieldScope registry scope node.position node.name).type =
          some definition.type := by
        rw [isType, defined, Option.bind_some, outputType?, if_pos output]
      rcases (Option.any_eq_true _ _).mp output with ⟨target, resolved, isOutput⟩
      have composite := isComposite_of_isOutput isOutput
        (notLeaf target (by rw [Scope.namedType?, known, Option.bind_some, resolved]))
      rw [Option.map_some, Option.bind_some, resolved]
      exact selectionScope_some known resolved composite

private theorem inside_inline (within : Inside registry parent scope) (node : InlineFragment)
    (composite : ∀ name, node.condition = some name → ∀ type,
      registry.lookup? name = some type → type.isComposite = true) :
    Inside registry (node.inner registry parent)
      (selectionScope registry (inlineScope registry scope node.position node.condition)) := by
  apply inside_selectionScope
  rw [InlineFragment.inner]
  cases condition : node.condition with
  | none => exact within.again
  | some name => exact selectionScope_condition rfl (composite name condition)

end Walk

/-! ## Entered selection sets -/

namespace Subject

open Walk

variable {schema : Schema} {subject : Subject} {owner : Position} {parent : Option NamedType}
  {selections : List Selection}

theorem HasSelections.registered (yields : schema.Yields subject.registry)
    (has : subject.HasSelections owner parent selections) {type : NamedType}
    (isParent : parent = some type) : type ∈ subject.registry.types := by
  induction has generalizing type with
  | operation member => exact (Named.find?_mem (yields.roots _ _ isParent).2).1
  | fragment member => exact (Named.find?_mem isParent).1
  | field around member induction =>
      rcases Option.bind_eq_some_iff.mp isParent with ⟨reference, _, resolved⟩
      exact (Named.find?_mem resolved).1
  | inline around member induction =>
      rw [InlineFragment.inner] at isParent
      split at isParent
      · exact (Named.find?_mem isParent).1
      · exact induction isParent

theorem selection_subset_walk {scope : Scope} {selection : Selection}
    (member : selection ∈ selections) :
    Walk.selection subject.registry scope selection ⊆
      Walk.selections subject.registry scope selections := by
  induction selections with
  | nil => cases member
  | cons head tail induction =>
      rw [Walk.selections]
      rcases List.mem_cons.mp member with equal | later
      · rw [equal]
        exact List.subset_append_left _ _
      · exact List.Subset.trans (induction later) (List.subset_append_right _ _)

/-- The scope in which the walk goes through a selection set. -/
structure WalksIn (subject : Subject) (owner : Position) (parent : Option NamedType)
    (selections : List Selection) (scope : Scope) : Prop where
  inside : Inside subject.registry parent scope
  enters : ⟨scope, .enterSelections owner selections⟩ ∈ subject.document.walk subject.registry
  walks : Walk.selections subject.registry scope selections ⊆
    subject.document.walk subject.registry

private theorem walksIn_definition {definition : Definition} {scope : Scope}
    (member : definition ∈ subject.document.definitions)
    (reached : (selectionScope subject.registry scope).parent = parent)
    (within : Walk.selectionSet subject.registry scope owner selections ⊆
      Walk.definition subject.registry definition) :
    subject.WalksIn owner parent selections (selectionScope subject.registry scope) := by
  have shown : Walk.selectionSet subject.registry scope owner selections ⊆
      subject.document.walk subject.registry := fun visit inside =>
    List.mem_cons_of_mem _ (List.mem_append_left _
      (List.mem_flatMap.mpr ⟨definition, member, within inside⟩))
  have parts := List.cons_subset.mp shown
  exact ⟨inside_selectionScope reached, parts.1, (List.append_subset.mp parts.2).1⟩

private theorem operation_reached (yields : schema.Yields subject.registry) (operation : Operation)
    (position : Position) :
    (selectionScope subject.registry
      { type := (subject.registry.root? operation.kind).map fun root => .named root.name
        position := position }).parent = subject.registry.root? operation.kind := by
  cases isRoot : subject.registry.root? operation.kind with
  | none => exact selectionScope_none rfl
  | some root =>
      have sound := yields.roots _ _ isRoot
      exact selectionScope_some rfl sound.2 (by simp [NamedType.isComposite, sound.1])

private theorem fragment_reached (passed : subject.Passed) {fragment : Fragment}
    (member : fragment ∈ subject.document.fragments) (position : Position) :
    (selectionScope subject.registry
      { type := outputType? subject.registry (.named fragment.condition)
        position := position }).parent = subject.registry.lookup? fragment.condition := by
  have entered : ⟨_, .enterFragment fragment⟩ ∈ subject.document.walk subject.registry :=
    List.mem_cons_of_mem _ (List.mem_append_left _
      (List.mem_flatMap.mpr ⟨_, Document.mem_fragments.mp member, List.mem_cons_self⟩))
  exact selectionScope_condition rfl (passed.fragments _ _ entered)

private theorem walksIn_operation (yields : schema.Yields subject.registry) {operation : Operation}
    (member : operation ∈ subject.document.operations) :
    subject.WalksIn operation.position (subject.registry.root? operation.kind)
      operation.selections (selectionScope subject.registry
        { type := (subject.registry.root? operation.kind).map fun root => .named root.name
          position := operation.position }) :=
  walksIn_definition (Document.mem_operations.mp member)
    (operation_reached yields operation operation.position)
    fun _ inside => List.mem_cons_of_mem _
      (List.mem_append_left _ (List.mem_append_right _ inside))

private theorem walksIn_fragment (passed : subject.Passed) {fragment : Fragment}
    (member : fragment ∈ subject.document.fragments) :
    subject.WalksIn fragment.position (subject.registry.lookup? fragment.condition)
      fragment.selections (selectionScope subject.registry
        { type := outputType? subject.registry (.named fragment.condition)
          position := fragment.position }) :=
  walksIn_definition (Document.mem_fragments.mp member)
    (fragment_reached passed member fragment.position)
    fun _ inside => List.mem_cons_of_mem _
      (List.mem_append_left _ (List.mem_append_right _ inside))

/-- The walk enters every selection set that is not empty, with its type. -/
theorem HasSelections.walked (yields : schema.Yields subject.registry) (passed : subject.Passed)
    (has : subject.HasSelections owner parent selections) (some : selections ≠ []) :
    ∃ scope, subject.WalksIn owner parent selections scope := by
  induction has with
  | operation member => exact ⟨_, walksIn_operation yields member⟩
  | fragment member => exact ⟨_, walksIn_fragment passed member⟩
  | @field _ _ _ node around member induction =>
      rcases induction (List.ne_nil_of_mem member) with ⟨scope, walked⟩
      have shown := List.Subset.trans (selection_subset_walk member) walked.walks
      cases node with
      | mk position label name written applied under =>
        rw [Walk.selection, Walk.field, if_neg (by simpa using some)] at shown
        have parts := List.cons_subset.mp shown
        simp only [List.append_subset, List.cons_subset] at parts
        exact ⟨_, inside_field yields (fun type isParent => around.registered yields isParent)
          walked.inside _ (passed.leaves _ _ parts.1 some), parts.2.1.2.1, parts.2.1.2.2.1⟩
  | @inline _ _ _ node around member induction =>
      rcases induction (List.ne_nil_of_mem member) with ⟨scope, walked⟩
      have shown := List.Subset.trans (selection_subset_walk member) walked.walks
      cases node with
      | mk position condition applied under =>
        rw [Walk.selection, Walk.inlineFragment] at shown
        have parts := List.cons_subset.mp shown
        simp only [List.append_subset, List.cons_subset] at parts
        exact ⟨_, inside_inline walked.inside _ (passed.inlines _ _ parts.1), parts.2.1.2.1,
          parts.2.1.2.2.1⟩

mutual

private theorem hasSelections_of_selection (yields : schema.Yields subject.registry)
    (passed : subject.Passed) {scope inner : Scope} {owner innerOwner : Position}
    {parent : Option NamedType} {around under : List Selection}
    (has : subject.HasSelections owner parent around)
    (within : Inside subject.registry parent scope) :
    (selection : Selection) → selection ∈ around →
      Walk.selection subject.registry scope selection ⊆
        subject.document.walk subject.registry →
      ⟨inner, .enterSelections innerOwner under⟩ ∈
        Walk.selection subject.registry scope selection →
      subject.HasSelections innerOwner inner.parent under
  | .field ⟨position, label, name, written, applied, []⟩, _, _, entered => by
      have aside : Aside (Walk.selection subject.registry scope
          (.field ⟨position, label, name, written, applied, []⟩)) :=
        .cons (fun isSelections => by cases isSelections)
          (((Aside.append (attached_arguments _ _ _).aside (attached_directives _ _ _).aside).append
            (fun visit member => by cases member)).append
            (.cons (fun isSelections => by cases isSelections)
              (fun visit member => by cases member)))
      exact absurd entered aside.not_mem
  | .field ⟨position, label, name, written, applied, head :: tail⟩, member, shown, entered => by
      rw [Walk.selection, Walk.field, if_neg (by simp)] at shown entered
      have parts := List.cons_subset.mp shown
      simp only [List.append_subset, List.cons_subset] at parts
      have inside := inside_field yields (fun type isParent => has.registered yields isParent)
        within ⟨position, label, name, written, applied, head :: tail⟩
        (passed.leaves _ _ parts.1 (List.cons_ne_nil head tail))
      simp only [List.mem_cons, List.mem_append] at entered
      rcases entered with equal | (((asideVisit | asideVisit) | equal | within | equal | none) |
        equal | none)
      · cases equal
      · exact absurd asideVisit (attached_arguments _ _ _).aside.not_mem
      · exact absurd asideVisit (attached_directives _ _ _).aside.not_mem
      · cases equal
        exact inside.here ▸ .field has member
      · exact hasSelections_of_selections yields passed (.field has member) inside (head :: tail)
          (List.Subset.refl _) parts.2.1.2.2.1 within
      · cases equal
      · cases none
      · cases equal
      · cases none
  | .spread node, _, _, entered => by
      have aside : Aside (Walk.selection subject.registry scope (.spread node)) :=
        .cons (fun isSelections => by cases isSelections) (attached_directives _ _ _).aside
      exact absurd entered aside.not_mem
  | .inline ⟨position, condition, applied, under⟩, member, shown, entered => by
      rw [Walk.selection, Walk.inlineFragment] at shown entered
      have parts := List.cons_subset.mp shown
      simp only [List.append_subset, List.cons_subset] at parts
      have inside := inside_inline within ⟨position, condition, applied, under⟩
        (passed.inlines _ _ parts.1)
      simp only [List.mem_cons, List.mem_append] at entered
      rcases entered with equal | ((asideVisit | equal | within | equal | none) | equal | none)
      · cases equal
      · exact absurd asideVisit (attached_directives _ _ _).aside.not_mem
      · cases equal
        exact inside.here ▸ .inline has member
      · exact hasSelections_of_selections yields passed (.inline has member) inside under
          (List.Subset.refl _) parts.2.1.2.2.1 within
      · cases equal
      · cases none
      · cases equal
      · cases none

private theorem hasSelections_of_selections (yields : schema.Yields subject.registry)
    (passed : subject.Passed) {scope inner : Scope} {owner innerOwner : Position}
    {parent : Option NamedType} {around under : List Selection}
    (has : subject.HasSelections owner parent around)
    (within : Inside subject.registry parent scope) :
    (selections : List Selection) → selections ⊆ around →
      Walk.selections subject.registry scope selections ⊆
        subject.document.walk subject.registry →
      ⟨inner, .enterSelections innerOwner under⟩ ∈
        Walk.selections subject.registry scope selections →
      subject.HasSelections innerOwner inner.parent under
  | [], _, _, entered => by cases entered
  | selection :: selections, subset, shown, entered => by
      rw [Walk.selections] at shown entered
      have members := List.cons_subset.mp subset
      have parts := List.append_subset.mp shown
      rcases List.mem_append.mp entered with here | later
      · exact hasSelections_of_selection yields passed has within selection members.1 parts.1 here
      · exact hasSelections_of_selections yields passed has within selections members.2 parts.2
          later

end

private theorem hasSelections_of_selectionSet (yields : schema.Yields subject.registry)
    (passed : subject.Passed) {scope inner : Scope} {innerOwner : Position}
    {under : List Selection} (has : subject.HasSelections owner parent selections)
    (walked : subject.WalksIn owner parent selections (selectionScope subject.registry scope))
    (entered : ⟨inner, .enterSelections innerOwner under⟩ ∈
      Walk.selectionSet subject.registry scope owner selections) :
    subject.HasSelections innerOwner inner.parent under := by
  rw [Walk.selectionSet] at entered
  simp only [List.mem_cons, List.mem_append] at entered
  rcases entered with equal | within | equal | none
  · cases equal
    exact walked.inside.here ▸ has
  · exact hasSelections_of_selections yields passed has walked.inside selections
      (List.Subset.refl _) walked.walks within
  · cases equal
  · cases none

/-- Every selection set that the walk enters is one of the document's, with its type. -/
theorem hasSelections_of_entered (yields : schema.Yields subject.registry)
    (passed : subject.Passed) {scope : Scope}
    (entered : ⟨scope, .enterSelections owner selections⟩ ∈
      subject.document.walk subject.registry) :
    subject.HasSelections owner scope.parent selections := by
  rw [Document.walk] at entered
  simp only [List.mem_cons, List.mem_append, List.mem_flatMap] at entered
  rcases entered with equal | ⟨definition, member, inside⟩ | equal | none
  · cases equal
  · cases definition with
    | operation operation =>
        rw [Walk.definition, Walk.operation] at inside
        simp only [List.mem_cons, List.mem_append] at inside
        rcases inside with equal | (((asideVisit | asideVisit) | within) | equal | none)
        · cases equal
        · exact absurd asideVisit
            (Each.flatMap fun _ _ => attached_variableDefinition _ _).aside.not_mem
        · exact absurd asideVisit (attached_directives _ _ _).aside.not_mem
        · exact hasSelections_of_selectionSet yields passed
            (.operation (Document.mem_operations.mpr member))
            (walksIn_operation yields (Document.mem_operations.mpr member)) within
        · cases equal
        · cases none
    | fragment fragment =>
        rw [Walk.definition, Walk.fragment] at inside
        simp only [List.mem_cons, List.mem_append] at inside
        rcases inside with equal | ((asideVisit | within) | equal | none)
        · cases equal
        · exact absurd asideVisit (attached_directives _ _ _).aside.not_mem
        · exact hasSelections_of_selectionSet yields passed
            (.fragment (Document.mem_fragments.mpr member))
            (walksIn_fragment passed (Document.mem_fragments.mpr member)) within
        · cases equal
        · cases none
  · cases equal
  · cases none

/-- No field of a selection set has two arguments of one name. -/
theorem HasSelections.distinct_arguments (yields : schema.Yields subject.registry)
    (passed : subject.Passed) (has : subject.HasSelections owner parent selections) {node : Field}
    (member : .field node ∈ selections) : (Named.names node.arguments).Nodup := by
  rcases has.walked yields passed (List.ne_nil_of_mem member) with ⟨scope, walked⟩
  have shown := List.Subset.trans (selection_subset_walk member) walked.walks
  apply passed.arguments { fieldScope subject.registry scope node.position node.name with
    arguments := (fieldScope subject.registry scope node.position node.name).field.map
      FieldDefinition.arguments }
  cases node with
  | mk position label name written applied under =>
    apply shown
    rw [Walk.selection, Walk.field, Walk.arguments]
    simp

end Subject

/-! ## What the other rules make sure of -/

namespace Rules

/-- What a name adds to the names seen and to those seen again. -/
private def noteRepetition : List String × List String → String → List String × List String :=
  fun (seen, repeated) name =>
    if !seen.contains name then (seen ++ [name], repeated)
    else if repeated.contains name then (seen, repeated)
    else (seen, repeated ++ [name])

private theorem repeatedNames_eq (names : List String) :
    repeatedNames names = (names.foldl noteRepetition ([], [])).2 := rfl

private theorem noteRepetition_cases (seen repeated : List String) (name : String) :
    (name ∉ seen ∧ noteRepetition (seen, repeated) name = (seen ++ [name], repeated)) ∨
      ∃ again ≠ [], noteRepetition (seen, repeated) name = (seen, again) := by
  by_cases known : name ∈ seen
  · by_cases isRepeated : name ∈ repeated
    · exact .inr ⟨repeated, List.ne_nil_of_mem isRepeated, by simp [noteRepetition, known, isRepeated]⟩
    · exact .inr ⟨repeated ++ [name], by simp, by simp [noteRepetition, known, isRepeated]⟩
  · exact .inl ⟨known, by simp [noteRepetition, known]⟩

private theorem noteRepetition_keeps {repeated : List String} (some : repeated ≠ [])
    (names seen : List String) :
    (names.foldl noteRepetition (seen, repeated)).2 ≠ [] := by
  induction names generalizing seen repeated with
  | nil => exact some
  | cons head tail induction =>
      rw [List.foldl_cons]
      rcases noteRepetition_cases seen repeated head with ⟨_, noted⟩ | ⟨again, stillSome, noted⟩
      · rw [noted]
        exact induction some _
      · rw [noted]
        exact induction stillSome _

private theorem nodup_of_noted {names seen : List String}
    (none : (names.foldl noteRepetition (seen, [])).2 = []) :
    names.Nodup ∧ ∀ name ∈ names, name ∉ seen := by
  induction names generalizing seen with
  | nil => simp
  | cons head tail induction =>
      rw [List.foldl_cons] at none
      rcases noteRepetition_cases seen [] head with ⟨new, noted⟩ | ⟨again, some, noted⟩
      · rw [noted] at none
        rcases induction none with ⟨distinct, unseen⟩
        have notLater : head ∉ tail := fun member =>
          unseen head member (List.mem_append_right _ (List.mem_singleton.mpr rfl))
        refine ⟨List.nodup_cons.mpr ⟨notLater, distinct⟩, fun name member => ?_⟩
        rcases List.mem_cons.mp member with equal | later
        · rw [equal]
          exact new
        · exact fun known => unseen name later (List.mem_append_left _ known)
      · rw [noted] at none
        exact absurd none (noteRepetition_keeps some _ _)

private theorem nodup_of_repeatedNames {names : List String} (none : repeatedNames names = []) :
    names.Nodup :=
  (nodup_of_noted (repeatedNames_eq names ▸ none)).1

theorem passed_of_silent {document : Document} {registry : Registry}
    (leaf : document.validate registry [leafFieldSelections] = [])
    (composite : document.validate registry [fragmentsOnCompositeTypes] = [])
    (unique : document.validate registry [uniqueArgumentNames] = []) :
    Subject.Passed ⟨registry, document⟩ where
  leaves scope field member some type isType := by
    have quiet := Rule.quiet_stateless leaf member rfl
    rcases Option.bind_eq_some_iff.mp isType with ⟨reference, isReference, _⟩
    simp only [isReference, isType] at quiet
    cases isLeaf : type.isLeaf with
    | false => rfl
    | true =>
        have notEmpty : field.selections.isEmpty = false := by simpa using some
        simp [isLeaf, notEmpty] at quiet
  inlines scope fragment member name isCondition type found := by
    have quiet := Rule.quiet_stateless composite member rfl
    simp only [isCondition, isKnownLeaf, found, Option.any_some] at quiet
    cases isComposite : type.isComposite with
    | true => rfl
    | false => simp [isComposite] at quiet
  fragments scope fragment member type found := by
    have quiet := Rule.quiet_stateless composite member rfl
    simp only [isKnownLeaf, found, Option.any_some] at quiet
    cases isComposite : type.isComposite with
    | true => rfl
    | false => simp [isComposite] at quiet
  arguments scope written member := by
    have quiet := Rule.quiet_stateless unique member rfl
    exact nodup_of_repeatedNames (List.map_eq_nil_iff.mp quiet)

end Rules

end GraphQL
