import GraphQL.Proofs.Coercion.Sites
import GraphQL.Proofs.Document.Readers
import GraphQL.Proofs.Validation.Visits
import Mathlib.Data.String.Basic

/-!
In a document that was read all objects have fields of different names: the fields of an object are
kept sorted by name, and nothing else makes objects.
-/

namespace GraphQL

/-- A visit to anything but an object that has two fields of one name. -/
private def Visit.IsTidy (visit : Visit) : Prop := visit.namesDistinct = true

/-! ## Sorted fields -/

namespace Literal

/-- Fields in the order of their names, which are all different. -/
def Sorted (fields : List (String × Literal)) : Prop :=
  fields.Pairwise fun first second => first.1 < second.1

private theorem Sorted.names_nodup {fields : List (String × Literal)} (sorted : Sorted fields) :
    (Named.names fields).Nodup :=
  List.pairwise_map.mpr (sorted.imp fun before => ne_of_lt before)

private theorem mem_insertField {field other : String × Literal} {fields : List (String × Literal)}
    (member : other ∈ insertField field fields) : other = field ∨ other ∈ fields := by
  induction fields with
  | nil => exact .inl (List.mem_singleton.mp member)
  | cons head tail induction =>
      rw [insertField] at member
      split at member
      · exact (List.mem_cons.mp member).imp_right (List.mem_cons_of_mem head)
      · split at member
        · exact List.mem_cons.mp member
        · rcases List.mem_cons.mp member with equal | later
          · exact .inr (equal ▸ List.mem_cons_self)
          · exact (induction later).imp_right (List.mem_cons_of_mem head)

private theorem Sorted.insertField {field : String × Literal} {fields : List (String × Literal)}
    (sorted : Sorted fields) : Sorted (insertField field fields) := by
  induction fields with
  | nil => exact List.pairwise_singleton _ _
  | cons head tail induction =>
      have parts := List.pairwise_cons.mp sorted
      rw [Literal.insertField]
      split
      · rename_i same
        exact List.pairwise_cons.mpr ⟨fun other member => same ▸ parts.1 other member, parts.2⟩
      · rename_i different
        split
        · rename_i before
          refine List.pairwise_cons.mpr ⟨List.forall_mem_cons.mpr ⟨before, ?_⟩, sorted⟩
          exact fun other member => lt_trans before (parts.1 other member)
        · rename_i notBefore
          have after : head.1 < field.1 :=
            lt_of_le_of_ne (not_lt.mp notBefore) fun same => different same.symm
          refine List.pairwise_cons.mpr ⟨fun other member => ?_, induction parts.2⟩
          rcases mem_insertField member with equal | later
          · rw [equal]
            exact after
          · exact parts.1 other later

private theorem ofFields_sorted (fields : List (String × Literal)) :
    ∃ sorted, ofFields fields = .object sorted ∧ Sorted sorted ∧
      ∀ field ∈ sorted, field ∈ fields := by
  have kept : ∀ sorted : List (String × Literal), Sorted sorted →
      Sorted (fields.foldl (fun sorted field => Literal.insertField field sorted) sorted) ∧
        ∀ field ∈ fields.foldl (fun sorted field => Literal.insertField field sorted) sorted,
          field ∈ sorted ∨ field ∈ fields := by
    induction fields with
    | nil => exact fun _ sorted => ⟨sorted, fun _ member => .inl member⟩
    | cons head tail induction =>
        intro sorted isSorted
        have inserted : Sorted (Literal.insertField head sorted) := isSorted.insertField
        have later := induction _ inserted
        refine ⟨later.1, fun field member => ?_⟩
        rcases later.2 field member with before | after
        · rcases mem_insertField before with equal | before
          · exact .inr (equal ▸ List.mem_cons_self)
          · exact .inl before
        · exact .inr (List.mem_cons_of_mem head after)
  rcases kept [] .nil with ⟨isSorted, each⟩
  exact ⟨_, rfl, isSorted, fun field member => (each field member).resolve_left List.not_mem_nil⟩

/-! ## Values -/

variable {registry : Registry}

private theorem tidy_list {items : List Literal}
    (each : ∀ item ∈ items, Walk.EachOfValue Visit.IsTidy registry item) :
    Walk.EachOfValue Visit.IsTidy registry (.list items) := by
  intro scope
  have values (scope : Scope) : Walk.Each Visit.IsTidy (Walk.values registry scope items) := by
    induction items with
    | nil => exact .nil
    | cons head tail induction =>
        have parts := List.forall_mem_cons.mp each
        rw [Walk.values]
        exact (parts.1 scope).append (induction parts.2)
  rw [Walk.value]
  exact .cons rfl (values _)

private theorem tidy_object {fields : List (String × Literal)}
    (distinct : (Named.names fields).Nodup)
    (each : ∀ field ∈ fields, Walk.EachOfValue Visit.IsTidy registry field.2) :
    Walk.EachOfValue Visit.IsTidy registry (.object fields) := by
  intro scope
  have values (definitions : Option (List InputValueDefinition)) :
      Walk.Each Visit.IsTidy (Walk.fieldValues registry scope definitions fields) := by
    clear distinct
    induction fields with
    | nil => exact .nil
    | cons head tail induction =>
        have parts := List.forall_mem_cons.mp each
        rw [Walk.fieldValues]
        exact (parts.1 _).append (induction parts.2)
  rw [Walk.value]
  exact .cons (decide_eq_true distinct) (values _)

end Literal

/-! ## Derivations -/

namespace Grammar

variable {registry : Registry}

/-- A property that literals have if their items and fields do, which are sorted. Variables only
matter where they are read. -/
structure Inherited (constant : Bool) (holds : Literal → Prop) : Prop where
  mentioned : constant = false → ∀ name, holds (.variable name)
  int : ∀ value, holds (.int value)
  float : ∀ value, holds (.float value)
  string : ∀ value, holds (.string value)
  boolean : ∀ value, holds (.boolean value)
  null : holds .null
  enum : ∀ name, holds (.enum name)
  list : ∀ items, (∀ item ∈ items, holds item) → holds (.list items)
  object : ∀ fields, Literal.Sorted fields → (∀ field ∈ fields, holds field.2) →
    holds (.object fields)

section

variable {constant : Bool} {holds : Literal → Prop}

private theorem Inherited.named (inherited : Inherited constant holds) (text : String) :
    holds (named text) := by
  unfold Grammar.named
  split
  · exact inherited.boolean true
  split
  · exact inherited.boolean false
  split
  · exact inherited.null
  · exact inherited.enum text

private theorem Inherited.ofFields (inherited : Inherited constant holds)
    {fields : List (String × Literal)} (each : ∀ field ∈ fields, holds field.2) :
    holds (Literal.ofFields fields) := by
  rcases Literal.ofFields_sorted fields with ⟨sorted, equal, isSorted, members⟩
  rw [equal]
  exact inherited.object sorted isSorted fun field member => each field (members field member)

mutual

theorem literal_gives (inherited : Inherited constant holds) {tokens : List Located}
    {value : Literal} (derived : DerivesLiteral constant tokens value) : holds value := by
  match derived with
  | .mentioned mentions => exact inherited.mentioned mentions _
  | .int => exact inherited.int _
  | .float => exact inherited.float _
  | .string => exact inherited.string _
  | .name => exact inherited.named _
  | .list each => exact inherited.list _ (items_give inherited each)
  | .object each => exact inherited.ofFields (fields_give inherited each)

private theorem field_gives (inherited : Inherited constant holds) {tokens : List Located}
    {field : String × Literal} (derived : DerivesField constant tokens field) : holds field.2 := by
  match derived with
  | .field isValue => exact literal_gives inherited isValue

private theorem items_give (inherited : Inherited constant holds) {tokens : List Located}
    {items : List Literal} (each : DerivesEach (DerivesLiteral constant) tokens items) :
    ∀ item ∈ items, holds item := by
  match each with
  | .nil => exact List.forall_mem_nil _
  | .cons first more =>
      exact List.forall_mem_cons.mpr ⟨literal_gives inherited first, items_give inherited more⟩

private theorem fields_give (inherited : Inherited constant holds) {tokens : List Located}
    {fields : List (String × Literal)} (each : DerivesEach (DerivesField constant) tokens fields) :
    ∀ field ∈ fields, holds field.2 := by
  match each with
  | .nil => exact List.forall_mem_nil _
  | .cons first more =>
      exact List.forall_mem_cons.mpr ⟨field_gives inherited first, fields_give inherited more⟩

end

end

private theorem beside_tidy : Walk.Beside Visit.IsTidy := by
  intro visit notValue _
  cases visit with
  | value literal => exact absurd rfl notValue
  | _ => rfl

private theorem tidy_inherited (constant : Bool) :
    Inherited constant (Walk.EachOfValue Visit.IsTidy registry) where
  mentioned _ _ _ := .cons rfl .nil
  int _ _ := .cons rfl .nil
  float _ _ := .cons rfl .nil
  string _ _ := .cons rfl .nil
  boolean _ _ := .cons rfl .nil
  null _ := .cons rfl .nil
  enum _ _ := .cons rfl .nil
  list _ each := Literal.tidy_list each
  object _ sorted each := Literal.tidy_object sorted.names_nodup each

/-! ## Arguments and directives -/

private theorem arguments_tidy {tokens : List Located} {arguments : ArgumentList}
    (derived : DerivesArguments tokens arguments) :
    Walk.EachOfArguments Visit.IsTidy registry arguments :=
  derived.gives fun _ _ => field_gives (tidy_inherited false)

private theorem directive_tidy {tokens : List Located} {directive : Directive}
    (derived : DerivesDirective tokens directive) :
    Walk.EachOfArguments Visit.IsTidy registry directive.arguments := by
  cases derived with
  | directive areGiven => exact arguments_tidy areGiven

private theorem directives_tidy {tokens : List Located} {directives : List Directive}
    (derived : DerivesDirectives tokens directives) :
    ∀ directive ∈ directives, Walk.EachOfArguments Visit.IsTidy registry directive.arguments :=
  derived.gives fun _ _ => directive_tidy

/-! ## Selections and definitions -/

mutual

private theorem selection_tidy {tokens : List Located} {selection : Selection}
    (derived : DerivesSelection tokens selection) :
    Walk.EachOfSelection Visit.IsTidy registry selection := by
  match derived with
  | .field _ _ areGiven areApplied selects =>
      exact Walk.each_field beside_tidy (arguments_tidy areGiven) (directives_tidy areApplied)
        (optional_tidy selects)
  | .spread _ areApplied => exact Walk.each_spread beside_tidy (directives_tidy areApplied)
  | .inline _ _ areApplied selects =>
      exact Walk.each_inline beside_tidy (directives_tidy areApplied) (selections_tidy selects)

private theorem selections_tidy {tokens : List Located} {selections : List Selection}
    (selects : DerivesSelections tokens selections) :
    ∀ selection ∈ selections, Walk.EachOfSelection Visit.IsTidy registry selection := by
  match selects with
  | .between each _ => exact each_tidy each

private theorem optional_tidy {tokens : List Located} {selections : List Selection}
    (selects : DerivesOptional '\x7b' '\x7d' DerivesSelection tokens selections) :
    ∀ selection ∈ selections, Walk.EachOfSelection Visit.IsTidy registry selection := by
  match selects with
  | .missing => exact List.forall_mem_nil _
  | .present between => exact selections_tidy between

private theorem each_tidy {tokens : List Located} {selections : List Selection}
    (each : DerivesEach DerivesSelection tokens selections) :
    ∀ selection ∈ selections, Walk.EachOfSelection Visit.IsTidy registry selection := by
  match each with
  | .nil => exact List.forall_mem_nil _
  | .cons first more => exact List.forall_mem_cons.mpr ⟨selection_tidy first, each_tidy more⟩

end

/-- The default of a variable is a constant. -/
theorem DerivesVariable.default_gives {holds : Literal → Prop} (inherited : Inherited true holds)
    {tokens : List Located} {definition : VariableDefinition}
    (derived : DerivesVariable tokens definition) :
    ∀ literal ∈ definition.default, holds literal := by
  cases derived with
  | declared _ isDefault =>
      intro literal isWritten
      cases isDefault with
      | missing => cases isWritten
      | present isValue =>
          cases isWritten
          exact literal_gives inherited isValue

private theorem definition_tidy {tokens : List Located} {definition : Definition}
    (derived : DerivesDefinition tokens definition) :
    Walk.Each Visit.IsTidy (Walk.definition registry definition) := by
  cases derived with
  | query _ selects =>
      exact .cons rfl ((Walk.each_selectionSet beside_tidy (selections_tidy selects) _ _).append
        (.cons rfl .nil))
  | @operation _ _ _ declared _ _ _ _ _ _ _ areDefined areApplied selects =>
      have defaults : ∀ definition ∈ declared, ∀ literal ∈ definition.default,
          Walk.EachOfValue Visit.IsTidy registry literal :=
        areDefined.gives fun _ _ => DerivesVariable.default_gives (tidy_inherited true)
      have isDefined (scope : Scope) : Walk.Each Visit.IsTidy
          (declared.flatMap (Walk.variableDefinition registry scope)) :=
        .flatMap fun definition member =>
          Walk.each_variableDefinition beside_tidy (defaults definition member) scope
      exact .cons rfl ((((isDefined _).append
        (Walk.each_directives beside_tidy (directives_tidy areApplied) _ _)).append
        (Walk.each_selectionSet beside_tidy (selections_tidy selects) _ _)).append
        (.cons rfl .nil))
  | fragment _ areApplied selects =>
      exact .cons rfl (((Walk.each_directives beside_tidy (directives_tidy areApplied) _ _).append
        (Walk.each_selectionSet beside_tidy (selections_tidy selects) _ _)).append
        (.cons rfl .nil))

end Grammar

private theorem Document.tidy_of_text {text : String} {document : Document}
    (read : Document.ofText? text = some document) (registry : Registry) :
    ∀ visit ∈ document.walk registry, visit.visit.namesDistinct = true := by
  rcases derives_of_text read with ⟨tokens, _, derived⟩
  have tidy : ∀ definition ∈ document.definitions,
      Walk.Each Visit.IsTidy (Walk.definition registry definition) :=
    derived.gives fun _ _ => Grammar.definition_tidy
  have isTidy : Walk.Each Visit.IsTidy (document.walk registry) :=
    .cons rfl ((Walk.Each.flatMap tidy).append (.cons rfl .nil))
  exact isTidy

/-- No object in a document has two fields of one name, as in any document that was read. -/
def Document.Tidy (document : Document) (registry : Registry) : Prop :=
  (∃ text, Document.ofText? text = some document) ∨
    ∀ visit ∈ document.walk registry, visit.visit.namesDistinct = true

theorem Document.Tidy.objects {document : Document} {registry : Registry}
    (tidy : document.Tidy registry) :
    ∀ visit ∈ document.walk registry, visit.visit.namesDistinct = true := by
  rcases tidy with ⟨text, read⟩ | objects
  · exact tidy_of_text read registry
  · exact objects

end GraphQL
