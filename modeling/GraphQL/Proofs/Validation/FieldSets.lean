import GraphQL.Proofs.Named
import GraphQL.Proofs.Validation.Merging

/-!
A field set holds what its selections select without spreads, grouped by response name, and names
what they spread. Following the spreads leads to all that the selections select.
-/

namespace GraphQL

/-! ## What a field set holds -/

/-- The fields of selections that are reached without spreads. -/
inductive Registry.Holds (registry : Registry) :
    Option NamedType → List Selection → SelectedField → Prop
  | field {parent : Option NamedType} {selections : List Selection} {field : Field}
      (member : .field field ∈ selections) :
      Holds registry parent selections (.on registry parent field)
  | inline {parent : Option NamedType} {selections : List Selection} {fragment : InlineFragment}
      {selected : SelectedField} (member : .inline fragment ∈ selections)
      (inside : Holds registry (fragment.inner registry parent) fragment.selections selected) :
      Holds registry parent selections selected

/-- The fragments that selections spread, in inline fragments too. -/
inductive Spreads : List Selection → String → Prop
  | spread {selections : List Selection} {spread : FragmentSpread}
      (member : .spread spread ∈ selections) : Spreads selections spread.name
  | inline {selections : List Selection} {fragment : InlineFragment} {name : String}
      (member : .inline fragment ∈ selections) (inside : Spreads fragment.selections name) :
      Spreads selections name

namespace FieldSet

/-- What one field set has more than another: some fields under their response names, and some
spreads. -/
structure Adds (before after : FieldSet) (fields : SelectedField → Prop) (names : String → Prop) :
    Prop where
  owner : after.owner = before.owner
  distinct : (Named.names before.fields).Nodup → (Named.names after.fields).Nodup
  mem_named : ∀ name selected, selected ∈ after.named name ↔
    selected ∈ before.named name ∨ (fields selected ∧ selected.responseName = name)
  mem_spreads : ∀ name, name ∈ after.spreads ↔ name ∈ before.spreads ∨ names name

private theorem Adds.nothing (set : FieldSet) : Adds set set (fun _ => False) (fun _ => False) where
  owner := rfl
  distinct := id
  mem_named := by simp
  mem_spreads := by simp

private theorem Adds.trans {first second third : FieldSet}
    {fields moreFields : SelectedField → Prop}
    {names moreNames : String → Prop} (earlier : Adds first second fields names)
    (later : Adds second third moreFields moreNames) :
    Adds first third (fun selected => fields selected ∨ moreFields selected)
      (fun name => names name ∨ moreNames name) where
  owner := later.owner.trans earlier.owner
  distinct := later.distinct ∘ earlier.distinct
  mem_named name selected := by
    rw [later.mem_named, earlier.mem_named, or_assoc, or_and_right]
  mem_spreads name := by
    rw [later.mem_spreads, earlier.mem_spreads, or_assoc]

private theorem Adds.congr {before after : FieldSet} {fields sameFields : SelectedField → Prop}
    {names sameNames : String → Prop} (adds : Adds before after fields names)
    (fieldsAgree : ∀ selected, fields selected ↔ sameFields selected)
    (namesAgree : ∀ name, names name ↔ sameNames name) :
    Adds before after sameFields sameNames := by
  have sameField : fields = sameFields := funext fun selected => propext (fieldsAgree selected)
  have sameName : names = sameNames := funext fun name => propext (namesAgree name)
  exact sameField ▸ sameName ▸ adds

private theorem addField_adds (set : FieldSet) (added : SelectedField) :
    Adds set (set.addField added) (· = added) (fun _ => False) where
  owner := rfl
  distinct := Named.names_put_nodup
  mem_named name selected := by
    simp only [addField, named, Named.value?_put]
    by_cases same : added.field.responseName = name
    · subst same
      rw [if_pos rfl]
      simp only [Option.getD_some, List.mem_append, List.mem_singleton]
      constructor
      · rintro (before | equal)
        · exact .inl before
        · exact .inr ⟨equal, equal ▸ rfl⟩
      · rintro (before | ⟨equal, _⟩)
        · exact .inl before
        · exact .inr equal
    · rw [if_neg same]
      constructor
      · exact .inl
      · rintro (before | ⟨equal, sameName⟩)
        · exact before
        · exact absurd (equal ▸ sameName) same
  mem_spreads name := by simp [addField]

private theorem addSpread_adds (set : FieldSet) (added : String) :
    Adds set (set.addSpread added) (fun _ => False) (· = added) := by
  rw [addSpread]
  split
  · rename_i known
    refine ⟨rfl, id, by simp, fun name => ⟨.inl, ?_⟩⟩
    rintro (before | equal)
    · exact before
    · exact equal ▸ List.contains_iff_mem.mp known
  · exact ⟨rfl, id, by simp [named], by simp⟩

/-! ## Field sets of selections -/

private theorem holds_iff {registry : Registry} {parent : Option NamedType}
    {selections : List Selection} {selected : SelectedField} :
    registry.Holds parent selections selected ↔
      (∃ field, .field field ∈ selections ∧ .on registry parent field = selected) ∨
      ∃ fragment, .inline fragment ∈ selections ∧
        registry.Holds (fragment.inner registry parent) fragment.selections selected := by
  constructor
  · intro held
    cases held with
    | field member => exact .inl ⟨_, member, rfl⟩
    | inline member inside => exact .inr ⟨_, member, inside⟩
  · rintro (⟨field, member, rfl⟩ | ⟨fragment, member, inside⟩)
    · exact .field member
    · exact .inline member inside

private theorem spreads_iff {selections : List Selection} {name : String} :
    Spreads selections name ↔
      (∃ spread, .spread spread ∈ selections ∧ spread.name = name) ∨
      ∃ fragment, .inline fragment ∈ selections ∧ Spreads fragment.selections name := by
  constructor
  · intro spreads
    cases spreads with
    | spread member => exact .inl ⟨_, member, rfl⟩
    | inline member inside => exact .inr ⟨_, member, inside⟩
  · rintro (⟨spread, member, rfl⟩ | ⟨fragment, member, inside⟩)
    · exact .spread member
    · exact .inline member inside

section OneByOne

variable {registry : Registry} {parent : Option NamedType} {selected : SelectedField}
  {name : String} {head : Selection} {tail : List Selection}

private theorem holds_nil : registry.Holds parent [] selected ↔ False := by
  rw [holds_iff]
  simp

private theorem holds_field {node : Field} :
    registry.Holds parent [.field node] selected ↔ selected = .on registry parent node := by
  rw [holds_iff]
  simp [eq_comm]

private theorem holds_spread {node : FragmentSpread} :
    registry.Holds parent [.spread node] selected ↔ False := by
  rw [holds_iff]
  simp

private theorem holds_inline {node : InlineFragment} :
    registry.Holds parent [.inline node] selected ↔
      registry.Holds (node.inner registry parent) node.selections selected := by
  rw [holds_iff]
  simp

private theorem holds_cons :
    registry.Holds parent (head :: tail) selected ↔
      registry.Holds parent [head] selected ∨ registry.Holds parent tail selected := by
  rw [holds_iff, @holds_iff _ _ [head], @holds_iff _ _ tail]
  simp only [List.mem_cons, List.not_mem_nil, or_false, or_and_right, exists_or]
  exact or_or_or_comm

private theorem spreads_nil : Spreads [] name ↔ False := by
  rw [spreads_iff]
  simp

private theorem spreads_field {node : Field} : Spreads [.field node] name ↔ False := by
  rw [spreads_iff]
  simp

private theorem spreads_spread {node : FragmentSpread} :
    Spreads [.spread node] name ↔ name = node.name := by
  rw [spreads_iff]
  simp [eq_comm]

private theorem spreads_inline {node : InlineFragment} :
    Spreads [.inline node] name ↔ Spreads node.selections name := by
  rw [spreads_iff]
  simp

private theorem spreads_cons :
    Spreads (head :: tail) name ↔ Spreads [head] name ∨ Spreads tail name := by
  rw [spreads_iff, @spreads_iff [head], @spreads_iff tail]
  simp only [List.mem_cons, List.not_mem_nil, or_false, or_and_right, exists_or]
  exact or_or_or_comm

end OneByOne

mutual

private theorem addSelection_adds (registry : Registry) (parent : Option NamedType)
    (set : FieldSet) : (selection : Selection) →
      Adds set (set.addSelection registry parent selection) (registry.Holds parent [selection])
        (Spreads [selection])
  | .field node => (set.addField_adds (.on registry parent node)).congr
      (fun _ => holds_field.symm) (fun _ => spreads_field.symm)
  | .spread node => (set.addSpread_adds node.name).congr
      (fun _ => holds_spread.symm) (fun _ => spreads_spread.symm)
  | .inline node => addInline_adds registry parent set node

private theorem addInline_adds (registry : Registry) (parent : Option NamedType) (set : FieldSet) :
    (fragment : InlineFragment) →
      Adds set (set.addInline registry parent fragment)
        (registry.Holds parent [.inline fragment]) (Spreads [.inline fragment])
  | ⟨position, condition, applied, under⟩ =>
      (addSelections_adds registry (InlineFragment.inner registry parent
        ⟨position, condition, applied, under⟩) set under).congr
        (fun _ => holds_inline.symm) (fun _ => by rw [spreads_inline])

private theorem addSelections_adds (registry : Registry) (parent : Option NamedType)
    (set : FieldSet) :
    (selections : List Selection) →
      Adds set (set.addSelections registry parent selections) (registry.Holds parent selections)
        (Spreads selections)
  | [] => (Adds.nothing set).congr (fun _ => holds_nil.symm) (fun _ => spreads_nil.symm)
  | selection :: selections =>
      ((addSelection_adds registry parent set selection).trans
        (addSelections_adds registry parent (set.addSelection registry parent selection)
          selections)).congr
        (fun _ => holds_cons.symm) (fun _ => spreads_cons.symm)

end

section OfSelections

variable {registry : Registry} {parent : Option NamedType} {owner : Position}
  {selections : List Selection} {selected : SelectedField} {name : String}

private theorem ofSelections_adds (registry : Registry) (parent : Option NamedType)
    (owner : Position) (selections : List Selection) :
    Adds { owner := owner } (ofSelections registry parent owner selections)
      (registry.Holds parent selections) (Spreads selections) :=
  addSelections_adds registry parent _ selections

theorem owner_ofSelections : (ofSelections registry parent owner selections).owner = owner :=
  (ofSelections_adds registry parent owner selections).owner

theorem mem_named_ofSelections :
    selected ∈ (ofSelections registry parent owner selections).named name ↔
      registry.Holds parent selections selected ∧ selected.responseName = name := by
  rw [(ofSelections_adds registry parent owner selections).mem_named]
  simp [named, Named.value?, Named.find?]

private theorem mem_spreads_ofSelections :
    name ∈ (ofSelections registry parent owner selections).spreads ↔ Spreads selections name := by
  rw [(ofSelections_adds registry parent owner selections).mem_spreads]
  simp

private theorem named_ofSelections {entry : String × List SelectedField}
    (member : entry ∈ (ofSelections registry parent owner selections).fields) :
    (ofSelections registry parent owner selections).named entry.1 = entry.2 := by
  have distinct := (ofSelections_adds registry parent owner selections).distinct
    (by simp [Named.names])
  rw [named, Named.value?_of_mem distinct member]
  rfl

/-- A name with fields has an entry. -/
theorem entry_of_mem_named {set : FieldSet} (member : selected ∈ set.named name) :
    (name, set.named name) ∈ set.fields := by
  rw [named] at member ⊢
  cases found : Named.value? set.fields name with
  | none => simp [found] at member
  | some fields => exact Named.value?_mem found

end OfSelections

/-- A field set that was made from selections. -/
def Made (registry : Registry) (set : FieldSet) : Prop :=
  ∃ owner parent selections, ofSelections registry parent owner selections = set

section Made

variable {registry : Registry} {set : FieldSet} {selected : SelectedField} {name : String}

theorem made_ofFragment (registry : Registry) (fragment : Fragment) :
    (ofFragment registry fragment).Made registry :=
  ⟨_, _, _, rfl⟩

theorem Made.responseName (made : set.Made registry) (member : selected ∈ set.named name) :
    selected.responseName = name := by
  rcases made with ⟨owner, parent, selections, rfl⟩
  exact (mem_named_ofSelections.mp member).2

/-- Fields are listed under their response names. -/
theorem Made.entry (made : set.Made registry) {entry : String × List SelectedField}
    (isEntry : entry ∈ set.fields) (member : selected ∈ entry.2) :
    selected.responseName = entry.1 ∧ selected ∈ set.named selected.responseName := by
  have inNamed : set.named entry.1 = entry.2 := by
    rcases made with ⟨owner, parent, selections, rfl⟩
    exact named_ofSelections isEntry
  rw [← inNamed] at member
  have sameName := made.responseName member
  exact ⟨sameName, sameName ▸ member⟩

end Made

/-! ## Following spreads -/

/-- The fields that a set leads to through so many spreads. -/
inductive LeadsTo (subject : Subject) : FieldSet → Nat → SelectedField → Prop
  | here {set : FieldSet} {selected : SelectedField}
      (member : selected ∈ set.named selected.responseName) : LeadsTo subject set 0 selected
  | spread {set : FieldSet} {name : String} {fragment : Fragment} {steps : Nat}
      {selected : SelectedField} (member : name ∈ set.spreads)
      (found : subject.document.fragment? name = some fragment)
      (inside : LeadsTo subject (ofFragment subject.registry fragment) steps selected) :
      LeadsTo subject set (steps + 1) selected

variable {subject : Subject} {parent : Option NamedType} {owner : Position}
  {selections : List Selection} {selected : SelectedField}

private theorem LeadsTo.inline {fragment : InlineFragment} (member : .inline fragment ∈ selections)
    {steps : Nat} {inner : Position}
    (leads : LeadsTo subject (ofSelections subject.registry
      (fragment.inner subject.registry parent) inner fragment.selections) steps selected) :
    LeadsTo subject (ofSelections subject.registry parent owner selections) steps selected := by
  cases leads with
  | here held =>
      have parts := mem_named_ofSelections.mp held
      exact .here (mem_named_ofSelections.mpr ⟨.inline member parts.1, parts.2⟩)
  | spread spread found inside =>
      have spreads := mem_spreads_ofSelections.mp spread
      exact .spread (mem_spreads_ofSelections.mpr (.inline member spreads)) found inside

theorem leadsTo_of_selects (selects : subject.Selects parent selections selected)
    (owner : Position) :
    ∃ steps, LeadsTo subject (ofSelections subject.registry parent owner selections) steps
      selected := by
  induction selects generalizing owner with
  | field member => exact ⟨0, .here (mem_named_ofSelections.mpr ⟨.field member, rfl⟩)⟩
  | @inline _ _ fragment _ member _ induction =>
      rcases induction fragment.position with ⟨steps, leads⟩
      exact ⟨steps, leads.inline member⟩
  | @spread _ _ _ fragment _ member found _ induction =>
      rcases induction fragment.position with ⟨steps, leads⟩
      exact ⟨steps + 1, .spread (mem_spreads_ofSelections.mpr (.spread member)) found leads⟩

theorem selects_of_holds (held : subject.registry.Holds parent selections selected) :
    subject.Selects parent selections selected := by
  induction held with
  | field member => exact .field member
  | inline member _ induction => exact .inline member induction

private theorem selects_of_spreads {name : String} {fragment : Fragment}
    (spreads : Spreads selections name) (found : subject.document.fragment? name = some fragment)
    (inside : subject.Selects (subject.registry.lookup? fragment.condition) fragment.selections
      selected) :
    subject.Selects parent selections selected := by
  induction spreads generalizing parent with
  | spread member => exact .spread member found inside
  | inline member _ induction => exact .inline member (induction found)

theorem selects_of_leadsTo {steps : Nat}
    (leads : LeadsTo subject (ofSelections subject.registry parent owner selections) steps
      selected) :
    subject.Selects parent selections selected := by
  induction steps generalizing parent owner selections with
  | zero =>
      cases leads with
      | here member => exact selects_of_holds (mem_named_ofSelections.mp member).1
  | succ steps induction =>
      cases leads with
      | spread member found inside =>
          exact selects_of_spreads (mem_spreads_ofSelections.mp member) found (induction inside)

end FieldSet

end GraphQL
