import GraphQL.Validation.Tour

/-!
A tour of a document walks through it: the calls it makes are the visits of the walk, and every
stage leaves the types, the directive and the definitions of arguments as it found them.
-/

namespace GraphQL

namespace Tour

variable {registry : Registry}

/-- A stage that leads from one place to another, and the calls that it makes on the way. -/
private def Leads (before : Surroundings) (stage : Stage) (visits : List ScopedVisit)
    (after : Surroundings) : Prop :=
  ∀ calls, stage ⟨before, calls⟩ = ((), ⟨after, calls ++ visits.toArray⟩)

/-! ## The steps of a stage -/

namespace Leads

variable {before between after around : Surroundings} {first second stage : Stage}
  {visits early late : List ScopedVisit}

private theorem done : Leads around (pure ()) [] around := fun calls => by
  rw [Array.append_empty]
  rfl

private theorem change (update : Surroundings → Surroundings) :
    Leads around (Tour.change update) [] (update around) := fun calls => by
  rw [Array.append_empty]
  rfl

private theorem call (visit : Visit) :
    Leads around (Tour.call visit) [⟨around.scope, visit⟩] around := fun calls => by
  rw [← Array.push_eq_append]
  rfl

private theorem andThen (starts : Leads before first early between)
    (ends : Leads between second late after) :
    Leads before (first >>= fun _ => second) (early ++ late) after := fun calls => by
  have runs : (first >>= fun _ => second) ⟨before, calls⟩ =
      second (first ⟨before, calls⟩).2 := rfl
  rw [runs, starts calls, ends]
  simp

private theorem lastly (starts : Leads before first visits between)
    (ends : Leads between second [] after) :
    Leads before (first >>= fun _ => second) visits after := by
  simpa only [List.append_nil] using starts.andThen ends

private theorem seeing {stage : Scope → Stage}
    (leads : Leads before (stage before.scope) visits after) :
    Leads before (Tour.scope >>= stage) visits after := leads

private theorem forM {α : Type} {items : List α} {stage : α → Stage} {visits : α → List ScopedVisit}
    (leads : ∀ item ∈ items, Leads around (stage item) (visits item) around) :
    Leads around (items.forM stage) (items.flatMap visits) around := by
  induction items with
  | nil => exact done
  | cons item items induction =>
      rw [List.flatMap_cons]
      exact (leads item List.mem_cons_self).andThen
        (induction fun next member => leads next (List.mem_cons_of_mem item member))

end Leads

/-! ## Values and arguments -/

mutual

private theorem value_leads (literal : Literal) (around : Surroundings) :
    Leads around (value registry literal) (Walk.value registry around.scope literal) around := by
  cases literal with
  | list items =>
      exact (Leads.call _).andThen (.seeing (listItems_leads items around))
  | object fields =>
      exact (Leads.call _).andThen (.seeing (objectFields_leads _ fields around))
  | «variable» name => exact .call _
  | int number => exact .call _
  | float number => exact .call _
  | string text => exact .call _
  | boolean flag => exact .call _
  | null => exact .call _
  | «enum» name => exact .call _
termination_by structural literal

private theorem listItems_leads (items : List Literal) (around : Surroundings)
    {type : Option TypeRef} :
    Leads around (listItems registry type items)
      (Walk.values registry { around.scope with inputType := type, input := none } items)
      around := by
  cases items with
  | nil => exact .done
  | cons item items =>
      exact ((Leads.change _).andThen ((value_leads item _).andThen
        ((Leads.change _).andThen (listItems_leads items around))))
termination_by structural items

private theorem objectFields_leads (definitions : Option (List InputValueDefinition))
    (fields : List (String × Literal)) (around : Surroundings) :
    Leads around (objectFields registry definitions fields)
      (Walk.fieldValues registry around.scope definitions fields) around := by
  cases fields with
  | nil => exact .done
  | cons field fields =>
      rcases field with ⟨name, item⟩
      exact ((Leads.change _).andThen ((value_leads item _).andThen
        ((Leads.change _).andThen (objectFields_leads definitions fields around))))
termination_by structural fields

end

private theorem argument_leads (registry : Registry)
    (definitions : Option (List InputValueDefinition))
    (name : String) (literal : Literal) (around : Surroundings) :
    let inside := Walk.inputScope around.scope
      (definitions.bind fun known => Named.find? known name)
    Leads around (argument registry definitions name literal)
      (⟨inside, .argument name literal⟩ :: Walk.value registry inside literal) around :=
  (Leads.change _).andThen ((Leads.call _).andThen
    ((value_leads literal _).lastly (.change _)))

private theorem arguments_leads (written : ArgumentList)
    (definitions : Option (List InputValueDefinition)) (around : Surroundings) :
    Leads around (arguments registry written definitions)
      (Walk.arguments registry around.scope written definitions) around := by
  have each (argument : String × Literal) (_ : argument ∈ written) :=
    argument_leads registry definitions argument.1 argument.2 (around.setArguments definitions)
  exact .seeing ((Leads.change _).andThen ((Leads.call _).andThen
    ((Leads.forM each).lastly (.change _))))

private theorem directive_leads (registry : Registry) (location : DirectiveLocation)
    (applied : Directive) (around : Surroundings) :
    Leads around (directive registry location applied)
      (Walk.directives registry around.scope location [applied]) around := by
  rw [Walk.directives, List.flatMap_singleton]
  exact .seeing ((Leads.change _).andThen ((Leads.change _).andThen ((Leads.call _).andThen
    ((arguments_leads _ _ _).lastly ((Leads.change _).andThen (.change _))))))

private theorem directives_leads (location : DirectiveLocation) (applied : List Directive)
    (around : Surroundings) :
    Leads around (directives registry location applied)
      (Walk.directives registry around.scope location applied) around := by
  have each (node : Directive) (_ : node ∈ applied) :=
    directive_leads registry location node around
  simp only [Walk.directives, List.flatMap_singleton] at each ⊢
  exact .forM each

/-! ## Selections -/

private theorem selectionSet_leads (registry : Registry) (owner : Position) (under : List Selection)
    {inside : Stage} (visits : Scope → List ScopedVisit)
    (leads : ∀ around, Leads around inside (visits around.scope) around)
    (around : Surroundings) :
    let scope := Walk.selectionScope registry around.scope
    Leads around (selectionSet registry owner under inside)
      (⟨scope, .enterSelections owner under⟩ ::
        (visits scope ++ [⟨scope, .leaveSelections owner under⟩])) around :=
  .seeing ((Leads.change _).andThen ((Leads.call _).andThen
    ((leads _).andThen ((Leads.call _).lastly (.change _)))))

mutual

private theorem selection_leads (node : Selection) (around : Surroundings) :
    Leads around (selection registry node) (Walk.selection registry around.scope node) around := by
  cases node with
  | field node => exact field_leads node around
  | spread node =>
      exact (Leads.change _).andThen ((Leads.call _).andThen
        ((directives_leads _ _ _).lastly (.change _)))
  | inline node => exact inlineFragment_leads node around
termination_by structural node

private theorem field_leads (node : Field) (around : Surroundings) :
    Leads around (field registry node) (Walk.field registry around.scope node) around := by
  rcases node with ⟨position, label, name, written, applied, under⟩
  have set := selectionSet_leads registry position under
    (fun scope => Walk.selections registry scope under) (selections_leads under)
  have setIfAny (around : Surroundings) :
      Leads around
        (if under.isEmpty then pure ()
          else selectionSet registry position under (selections registry under))
        (if under.isEmpty then []
          else Walk.selectionSet registry around.scope position under) around := by
    split
    · exact .done
    · exact set around
  simp only [Walk.field, List.append_assoc]
  exact .seeing ((Leads.change _).andThen ((Leads.change _).andThen ((Leads.change _).andThen
    ((Leads.call _).andThen ((arguments_leads _ _ _).andThen ((directives_leads _ _ _).andThen
      ((setIfAny _).andThen ((Leads.call _).lastly ((Leads.change _).andThen
        ((Leads.change _).andThen (.change _)))))))))))
termination_by structural node

private theorem inlineFragment_leads (node : InlineFragment) (around : Surroundings) :
    Leads around (inlineFragment registry node)
      (Walk.inlineFragment registry around.scope node) around := by
  rcases node with ⟨position, condition, applied, under⟩
  have set := selectionSet_leads registry position under
    (fun scope => Walk.selections registry scope under) (selections_leads under)
  simp only [Walk.inlineFragment, List.append_assoc]
  exact .seeing ((Leads.change _).andThen ((Leads.change _).andThen ((Leads.call _).andThen
    ((directives_leads _ _ _).andThen ((set _).andThen ((Leads.call _).lastly
      ((Leads.change _).andThen (.change _))))))))
termination_by structural node

private theorem selections_leads (under : List Selection) (around : Surroundings) :
    Leads around (selections registry under) (Walk.selections registry around.scope under)
      around := by
  cases under with
  | nil => exact .done
  | cons head tail => exact (selection_leads head around).andThen (selections_leads tail around)
termination_by structural under

end

/-! ## Definitions -/

private theorem variableDefinition_leads (registry : Registry) (node : VariableDefinition)
    (around : Surroundings) :
    Leads around (variableDefinition registry node)
      (Walk.variableDefinition registry around.scope node) around := by
  have default (around : Surroundings) :
      Leads around (node.default.forM (value registry))
        ((node.default.map (Walk.value registry around.scope)).getD []) around := by
    cases node.default with
    | none => exact .done
    | some literal => exact value_leads literal around
  exact (Leads.change _).andThen ((Leads.change _).andThen ((Leads.call _).andThen
    ((default _).lastly ((Leads.change _).andThen (.change _)))))

private theorem operation_leads (node : Operation) (around : Surroundings) :
    let inside := { around.scope with
      type := (registry.root? node.kind).map fun root => .named root.name
      position := node.position }
    Leads around (operation registry node)
      (⟨inside, .enterOperation node⟩ ::
        (node.variableDefinitions.flatMap (Walk.variableDefinition registry inside) ++
          Walk.directives registry inside (Walk.operationLocation node.kind) node.directives ++
          Walk.selectionSet registry inside node.position node.selections ++
          [⟨inside, .leaveOperation node⟩])) around := by
  have set := selectionSet_leads registry node.position node.selections
    (fun scope => Walk.selections registry scope node.selections) (selections_leads _)
  have definitions (around : Surroundings) (definition : VariableDefinition)
      (_ : definition ∈ node.variableDefinitions) :=
    variableDefinition_leads registry definition around
  simp only [Walk.selectionSet, List.append_assoc]
  exact (Leads.change _).andThen ((Leads.change _).andThen ((Leads.call _).andThen
    ((Leads.forM (definitions _)).andThen ((directives_leads _ _ _).andThen ((set _).andThen
      ((Leads.call _).lastly ((Leads.change _).andThen (.change _))))))))

private theorem fragment_leads (node : Fragment) (around : Surroundings) :
    let inside := { around.scope with
      type := Walk.outputType? registry (.named node.condition)
      position := node.position }
    Leads around (fragment registry node)
      (⟨inside, .enterFragment node⟩ ::
        (Walk.directives registry inside .fragmentDefinition node.directives ++
          Walk.selectionSet registry inside node.position node.selections ++
          [⟨inside, .leaveFragment node⟩])) around := by
  have set := selectionSet_leads registry node.position node.selections
    (fun scope => Walk.selections registry scope node.selections) (selections_leads _)
  simp only [Walk.selectionSet, List.append_assoc]
  exact (Leads.change _).andThen ((Leads.change _).andThen ((Leads.call _).andThen
    ((directives_leads _ _ _).andThen ((set _).andThen ((Leads.call _).lastly
      ((Leads.change _).andThen (.change _)))))))

private theorem definition_leads (node : Definition) :
    Leads {} (definition registry node) (Walk.definition registry node) {} := by
  cases node with
  | operation node => exact operation_leads node {}
  | fragment node => exact fragment_leads node {}

private theorem document_leads (registry : Registry) (node : Document) :
    Leads {} (document registry node) (node.walk registry) {} :=
  (Leads.call _).andThen
    ((Leads.forM fun definition _ => definition_leads definition).andThen (.call _))

/-! ## What a stage leaves behind -/

/-- The stages in which the parts of a document are visited. -/
inductive Part (registry : Registry) : Stage → Prop
  | operation (node : Operation) : Part registry (operation registry node)
  | fragment (node : Fragment) : Part registry (fragment registry node)
  | variableDefinition (node : VariableDefinition) :
      Part registry (variableDefinition registry node)
  | selectionSet (owner : Position) (under : List Selection) :
      Part registry (selectionSet registry owner under (selections registry under))
  | field (node : Field) : Part registry (field registry node)
  | spread (node : FragmentSpread) : Part registry (selection registry (.spread node))
  | inlineFragment (node : InlineFragment) : Part registry (inlineFragment registry node)
  | directives (location : DirectiveLocation) (applied : List Directive) :
      Part registry (directives registry location applied)
  | arguments (written : ArgumentList) (definitions : Option (List InputValueDefinition)) :
      Part registry (arguments registry written definitions)
  | value (literal : Literal) : Part registry (value registry literal)

private theorem Part.leads {stage : Stage} (part : Part registry stage) (around : Surroundings) :
    ∃ visits, Leads around stage visits around := by
  cases part with
  | operation node => exact ⟨_, operation_leads node around⟩
  | fragment node => exact ⟨_, fragment_leads node around⟩
  | variableDefinition node => exact ⟨_, variableDefinition_leads registry node around⟩
  | selectionSet owner under =>
      exact ⟨_, selectionSet_leads registry owner under
        (fun scope => Walk.selections registry scope under) (selections_leads under) around⟩
  | field node => exact ⟨_, field_leads node around⟩
  | spread node => exact ⟨_, selection_leads (.spread node) around⟩
  | inlineFragment node => exact ⟨_, inlineFragment_leads node around⟩
  | directives location applied => exact ⟨_, directives_leads location applied around⟩
  | arguments written definitions => exact ⟨_, arguments_leads written definitions around⟩
  | value literal => exact ⟨_, value_leads literal around⟩

/-- Every stack is as high as before, and the directive and the definitions are put back. -/
theorem Part.around_eq {stage : Stage} (part : Part registry stage) (tour : Tour) :
    (stage.run tour).2.around = tour.around := by
  rcases part.leads tour.around with ⟨visits, leads⟩
  exact congrArg (fun result => result.2.around) (leads tour.calls)

end Tour

/-- A tour makes the visits of the walk, with the same scopes. -/
theorem Document.tour_eq_walk (document : Document) (registry : Registry) :
    document.tour registry = document.walk registry := by
  have runs := Tour.document_leads registry document #[]
  rw [Document.tour, StateT.run, runs, Array.empty_append]

end GraphQL
