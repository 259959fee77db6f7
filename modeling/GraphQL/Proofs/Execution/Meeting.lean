import GraphQL.Proofs.Execution.Failures
import GraphQL.Proofs.Execution.Merged
import GraphQL.Proofs.Validation.Reaching

/-!
The selections that an execution can come to, with the types that they are written on. All fields
that it resolves, whatever its resolvers answer, are among them.
-/

namespace GraphQL

namespace Request

variable {request : Request}

/-- The selections that an execution comes to, if nothing leaves them out, with the types that they
are written on: those of the operation, those under them, and those of fragments that they spread.
-/
inductive Meets (request : Request) : Option NamedType → Selection → Prop
  | operation {selection : Selection} (member : selection ∈ request.operation.selections) :
      Meets request (request.registry.root? request.operation.kind) selection
  | field {parent : Option NamedType} {node : Field} {selection : Selection}
      (around : Meets request parent (.field node)) (member : selection ∈ node.selections) :
      Meets request ((SelectedField.on request.registry parent node).inner request.registry)
        selection
  | inline {parent : Option NamedType} {node : InlineFragment} {selection : Selection}
      (around : Meets request parent (.inline node)) (member : selection ∈ node.selections) :
      Meets request (node.inner request.registry parent) selection
  | spread {parent : Option NamedType} {node : FragmentSpread} {fragment : Fragment}
      {selection : Selection} (around : Meets request parent (.spread node))
      (found : request.document.fragment? node.name = some fragment)
      (member : selection ∈ fragment.selections) :
      Meets request (request.registry.lookup? fragment.condition) selection

/-- What is met stands in a definition that the operation reaches. -/
theorem Meets.stands {parent : Option NamedType} {selection : Selection}
    (meets : request.Meets parent selection) :
    ∃ around owner selections, request.subject.Reaches request.operation around ∧
      (request.subject.only around).HasSelections owner parent selections ∧
      selection ∈ selections := by
  induction meets with
  | operation member =>
      exact ⟨_, _, _, .self, .operation (List.mem_singleton_self _), member⟩
  | field _ member induction =>
      rcases induction with ⟨around, owner, selections, reaches, has, isField⟩
      exact ⟨around, _, _, reaches, .field has isField, member⟩
  | inline _ member induction =>
      rcases induction with ⟨around, owner, selections, reaches, has, isInline⟩
      exact ⟨around, _, _, reaches, .inline has isInline, member⟩
  | spread _ found member induction =>
      rcases induction with ⟨around, owner, selections, reaches, has, isSpread⟩
      exact ⟨_, _, _, .spread reaches has isSpread found, .fragment (List.mem_singleton_self _),
        member⟩

/-- Nodes of fields that are met, each on some type. -/
def MeetsAll (request : Request) (fields : List Field) : Prop :=
  ∀ field ∈ fields, ∃ parent, request.Meets parent (.field field)

/-- Selection sets whose selections are met. -/
private def MeetsSets (request : Request) (sets : List (List Selection)) : Prop :=
  ∀ selections ∈ sets, ∃ parent, ∀ selection ∈ selections, request.Meets parent selection

theorem MeetsAll.under {fields : List Field} (meets : request.MeetsAll fields) :
    request.MeetsSets (fields.map Field.selections) := by
  intro selections member
  rcases List.mem_map.mp member with ⟨field, isField, rfl⟩
  rcases meets field isField with ⟨parent, met⟩
  exact ⟨_, fun selection inside => .field met inside⟩

private theorem meets_of_selects {selections : List Selection} {field : Field}
    (selects : request.document.Selects selections field) {parent : Option NamedType}
    (meets : ∀ selection ∈ selections, request.Meets parent selection) :
    ∃ parent, request.Meets parent (.field field) := by
  induction selects generalizing parent with
  | field member => exact ⟨parent, meets _ member⟩
  | inline member _ induction =>
      exact induction fun selection inside => .inline (meets _ member) inside
  | spread member found _ induction =>
      exact induction fun selection inside => .spread (meets _ member) found inside

/-- The fields that are collected from selections that are met are met. -/
theorem MeetsSets.collected {sets : List (List Selection)} (meets : request.MeetsSets sets)
    {objectName : String} {group : FieldGroup}
    (collected : group ∈ request.collectFields objectName sets) : request.MeetsAll group.2 := by
  intro field member
  rcases collectFields_selects collected member with ⟨selections, isSet, selects⟩
  rcases meets selections isSet with ⟨parent, met⟩
  exact meets_of_selects selects met

private theorem MeetsSets.slot {sets : List (List Selection)} (meets : request.MeetsSets sets)
    {object : NamedType} {slot : Slot} (member : slot ∈ request.slots object sets) :
    request.MeetsAll slot.fields := by
  rcases mem_slots member with ⟨_, _, collected, _⟩
  exact meets.collected collected

private theorem meets_passesOn {allowed : Answering} :
    request.PassesOn allowed fun duty => request.MeetsAll duty.task.fields where
  answered _ meets _ := meets
  items meets _ _ _ := meets
  object meets _ _ member _ := meets.under.slot member

/-- An execution resolves fields that are met. -/
theorem Steps.meets {rootValue : FieldValue} {progress : Progress}
    (steps : request.Steps anyAnswer (request.initial rootValue).progress progress) :
    ∀ duty ∈ progress.2, request.MeetsAll duty.task.fields := by
  apply meets_passesOn.steps steps
  apply initial_duties
  intro root _ slot member _
  apply MeetsSets.slot (fun selections isSet => ?_) member
  rw [List.mem_singleton.mp isSet]
  exact ⟨_, fun selection inside => .operation inside⟩

end Request

end GraphQL
