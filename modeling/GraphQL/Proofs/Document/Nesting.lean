import GraphQL.Document.Basic
import GraphQL.Proofs.Named
import Mathlib.Algebra.GroupWithZero.Nat
import Mathlib.Algebra.Order.BigOperators.Group.List
import Mathlib.Algebra.Order.Group.Nat
import Mathlib.Data.List.Chain
import Mathlib.Data.List.Sublists
import Mathlib.Logic.Relation

/-!
How deep the fields of a document nest once every fragment is expanded. In a document whose
fragments are acyclic each field nests less deep than the selections it stands in, and no operation
nests deeper than the document has selections.
-/

namespace GraphQL

namespace Document

/-! ## Fields that selections lead to -/

/-- A field that is reached through inline fragments and spreads, whatever their conditions. -/
inductive Selects (document : Document) : List Selection → Field → Prop
  | field {selections : List Selection} {field : Field}
      (member : .field field ∈ selections) : Selects document selections field
  | inline {selections : List Selection} {inlined : InlineFragment} {field : Field}
      (member : .inline inlined ∈ selections)
      (inside : Selects document inlined.selections field) : Selects document selections field
  | spread {selections : List Selection} {spread : FragmentSpread} {fragment : Fragment}
      {field : Field} (member : .spread spread ∈ selections)
      (found : document.fragment? spread.name = some fragment)
      (inside : Selects document fragment.selections field) : Selects document selections field

theorem Selects.mono {document : Document} {smaller larger : List Selection} {field : Field}
    (selected : document.Selects smaller field) (subset : smaller ⊆ larger) :
    document.Selects larger field := by
  cases selected with
  | field member => exact .field (subset member)
  | inline member inside => exact .inline (subset member) inside
  | spread member found inside => exact .spread (subset member) found inside

/-! ## Spreads between fragments -/

/-- A fragment spreads another one, at any depth of its selections. -/
def SpreadsTo (document : Document) (name target : String) : Prop :=
  ∃ fragment, document.fragment? name = some fragment ∧
    ∃ spread ∈ spreadsOf fragment.selections, spread.name = target

/-- No fragment leads back to itself. -/
def Acyclic (document : Document) : Prop :=
  ∀ name, ¬Relation.TransGen document.SpreadsTo name name

theorem fragment?_mem {document : Document} {name : String} {fragment : Fragment}
    (found : document.fragment? name = some fragment) :
    fragment ∈ document.fragments ∧ fragment.name = name := by
  have member := List.mem_of_find?_eq_some found
  have named := List.find?_some found
  exact ⟨List.mem_reverse.mp member, by simpa [nameOf] using named⟩

/-- Fragments with different names are all meant by their names. -/
theorem fragment?_of_mem {document : Document}
    (distinct : (Named.names document.fragments).Nodup) {fragment : Fragment}
    (member : fragment ∈ document.fragments) :
    document.fragment? fragment.name = some fragment := by
  have names := List.nodup_reverse.mpr distinct
  rw [Named.names, ← List.map_reverse] at names
  exact Named.find?_of_mem names (List.mem_reverse.mpr member)

end Document

/-! ## Expanded depth -/

mutual

/-- How many fields lie above one another in a selection. `follow` gives the depth of a
fragment. -/
def Selection.nesting (follow : String → Nat) : Selection → Nat
  | .field node => node.nesting follow
  | .spread node => follow node.name
  | .inline node => node.nesting follow
termination_by structural selection => selection

def Field.nesting (follow : String → Nat) : Field → Nat
  | ⟨_, _, _, _, _, selections⟩ => nestingOf follow selections + 1
termination_by structural field => field

def InlineFragment.nesting (follow : String → Nat) : InlineFragment → Nat
  | ⟨_, _, _, selections⟩ => nestingOf follow selections
termination_by structural fragment => fragment

def nestingOf (follow : String → Nat) : List Selection → Nat
  | [] => 0
  | selection :: selections => max (selection.nesting follow) (nestingOf follow selections)
termination_by structural selections => selections

end

theorem Field.nesting_eq (follow : String → Nat) (field : Field) :
    field.nesting follow = nestingOf follow field.selections + 1 := by
  cases field
  rfl

theorem InlineFragment.nesting_eq (follow : String → Nat) (fragment : InlineFragment) :
    fragment.nesting follow = nestingOf follow fragment.selections := by
  cases fragment
  rfl

theorem nesting_le_nestingOf (follow : String → Nat) {selection : Selection}
    {selections : List Selection} (member : selection ∈ selections) :
    selection.nesting follow ≤ nestingOf follow selections := by
  induction selections with
  | nil => cases member
  | cons head tail induction =>
      rcases List.mem_cons.mp member with equal | member
      · subst equal
        exact Nat.le_max_left _ _
      · exact (induction member).trans (Nat.le_max_right _ _)

theorem nestingOf_mono (follow : String → Nat) {smaller larger : List Selection}
    (subset : smaller ⊆ larger) : nestingOf follow smaller ≤ nestingOf follow larger := by
  induction smaller with
  | nil => exact Nat.zero_le _
  | cons head tail induction =>
      have parts := List.cons_subset.mp subset
      exact Nat.max_le.mpr ⟨nesting_le_nestingOf follow parts.1, induction parts.2⟩

private theorem nestingOf_append (follow : String → Nat) (left right : List Selection) :
    nestingOf follow (left ++ right) = max (nestingOf follow left) (nestingOf follow right) := by
  induction left with
  | nil => simp [nestingOf]
  | cons head tail induction =>
      rw [List.cons_append, nestingOf, nestingOf, induction, Nat.max_assoc]

/-- Several selection sets together nest no deeper than the deepest. -/
theorem nestingOf_flatten_lt (follow : String → Nat) {bound : Nat} {sets : List (List Selection)}
    (some : sets ≠ []) (below : ∀ selections ∈ sets, nestingOf follow selections < bound) :
    nestingOf follow sets.flatten < bound := by
  induction sets with
  | nil => exact absurd rfl some
  | cons head tail induction =>
      rw [List.flatten_cons, nestingOf_append]
      apply Nat.max_lt.mpr ⟨below head List.mem_cons_self, _⟩
      cases tail with
      | nil => exact Nat.zero_lt_of_lt (below head List.mem_cons_self)
      | cons next rest =>
          exact induction (List.cons_ne_nil _ _) fun selections member =>
            below selections (List.mem_cons_of_mem head member)

mutual

/-- A selection nests no deeper than it has selections, but for what its spreads add. -/
private theorem Selection.nesting_le_count (follow : String → Nat) (bound : Nat) :
    (selection : Selection) → (∀ spread ∈ selection.spreads, follow spread.name ≤ bound) →
      selection.nesting follow ≤ selection.count + bound
  | .field ⟨_, _, _, _, _, selections⟩, bounded => by
      have inside := nestingOf_le_count follow bound selections bounded
      simp only [Selection.nesting, Field.nesting, Selection.count, Field.count]
      omega
  | .spread node, bounded => by
      have here := bounded node (by simp [Selection.spreads])
      simp only [Selection.nesting, Selection.count]
      omega
  | .inline ⟨_, _, _, selections⟩, bounded => by
      have inside := nestingOf_le_count follow bound selections bounded
      simp only [Selection.nesting, InlineFragment.nesting, Selection.count, InlineFragment.count]
      omega

private theorem nestingOf_le_count (follow : String → Nat) (bound : Nat) :
    (selections : List Selection) → (∀ spread ∈ spreadsOf selections, follow spread.name ≤ bound) →
      nestingOf follow selections ≤ countSelections selections + bound
  | [], _ => by simp [nestingOf]
  | selection :: selections, bounded => by
      have head := Selection.nesting_le_count follow bound selection fun spread member =>
        bounded spread (by simp [spreadsOf, member])
      have tail := nestingOf_le_count follow bound selections fun spread member =>
        bounded spread (by simp [spreadsOf, member])
      simp only [nestingOf, countSelections]
      omega

end

mutual

/-- Only the depths of spread fragments matter. -/
private theorem Selection.nesting_congr {left right : String → Nat} :
    (selection : Selection) →
      (∀ spread ∈ selection.spreads, left spread.name = right spread.name) →
      selection.nesting left = selection.nesting right
  | .field ⟨_, _, _, _, _, selections⟩, agree => by
      simp only [Selection.nesting, Field.nesting]
      rw [nestingOf_congr selections agree]
  | .spread node, agree => agree node (by simp [Selection.spreads])
  | .inline ⟨_, _, _, selections⟩, agree => nestingOf_congr selections agree

private theorem nestingOf_congr {left right : String → Nat} :
    (selections : List Selection) →
      (∀ spread ∈ spreadsOf selections, left spread.name = right spread.name) →
      nestingOf left selections = nestingOf right selections
  | [], _ => rfl
  | selection :: selections, agree => by
      simp only [nestingOf]
      rw [Selection.nesting_congr selection fun spread member =>
          agree spread (by simp [spreadsOf, member]),
        nestingOf_congr selections fun spread member =>
          agree spread (by simp [spreadsOf, member])]

end

namespace Document

/-- The depth of a fragment with fragments expanded so many times. -/
def fragmentNesting (document : Document) : (expansions : Nat) → String → Nat
  | 0, _ => 0
  | expansions + 1, name =>
      match document.fragment? name with
      | some fragment => nestingOf (document.fragmentNesting expansions) fragment.selections
      | none => 0

/-- How deep fields nest in selections with all fragments expanded. On a path without repetition
there are no more fragments than the document defines. -/
def nesting (document : Document) (selections : List Selection) : Nat :=
  nestingOf (document.fragmentNesting document.fragments.length) selections

/-- So many fragments can be walked along spreads, one after another. -/
def ChainFrom (document : Document) : (length : Nat) → String → Prop
  | 0, name => (document.fragment? name).isSome
  | length + 1, name => ∃ target, document.SpreadsTo name target ∧ document.ChainFrom length target

private theorem fragmentNesting_succ_eq {document : Document} (expansions : Nat) :
    ∀ name, ¬document.ChainFrom expansions name →
      document.fragmentNesting (expansions + 1) name =
        document.fragmentNesting expansions name := by
  induction expansions with
  | zero =>
      intro name unchained
      have unknown : document.fragment? name = none := by simpa [ChainFrom] using unchained
      simp [fragmentNesting, unknown]
  | succ expansions induction =>
      intro name unchained
      rw [fragmentNesting, fragmentNesting]
      cases found : document.fragment? name with
      | none => rfl
      | some fragment =>
          apply nestingOf_congr
          intro spread member
          apply induction
          intro chained
          exact unchained ⟨spread.name, ⟨fragment, found, spread, member, rfl⟩, chained⟩

private theorem ChainFrom.exists_path {document : Document} {length : Nat} :
    ∀ {name : String}, document.ChainFrom length name →
      ∃ path : List String, path.length = length ∧ (name :: path).IsChain document.SpreadsTo ∧
        ∀ member ∈ name :: path, member ∈ document.fragments.map Fragment.name := by
  induction length with
  | zero =>
      intro name chained
      rcases Option.isSome_iff_exists.mp chained with ⟨fragment, found⟩
      have known := fragment?_mem found
      refine ⟨[], rfl, List.isChain_singleton name, ?_⟩
      intro member isName
      rw [List.mem_singleton] at isName
      exact isName ▸ List.mem_map.mpr ⟨fragment, known.1, known.2⟩
  | succ length induction =>
      intro name chained
      rcases chained with ⟨target, spreads, chained⟩
      rcases induction chained with ⟨path, pathLength, linked, known⟩
      rcases spreads with ⟨fragment, found, spread⟩
      have here := fragment?_mem found
      refine ⟨target :: path, by simp [pathLength],
        List.isChain_cons_cons.mpr ⟨⟨fragment, found, spread⟩, linked⟩, ?_⟩
      intro member listed
      rcases List.mem_cons.mp listed with equal | later
      · exact equal ▸ List.mem_map.mpr ⟨fragment, here.1, here.2⟩
      · exact known member later

/-- Without cycles a chain visits each fragment at most once. -/
theorem Acyclic.not_chainFrom {document : Document} (acyclic : document.Acyclic) (name : String) :
    ¬document.ChainFrom document.fragments.length name := by
  intro chained
  rcases chained.exists_path with ⟨path, pathLength, linked, known⟩
  have apart : (name :: path).Pairwise (Relation.TransGen document.SpreadsTo) :=
    List.isChain_iff_pairwise.mp (linked.imp fun _ _ => .single)
  have distinct : (name :: path).Nodup := by
    apply apart.imp
    intro left right leads equal
    subst equal
    exact acyclic left leads
  have fits := (distinct.subperm known).length_le
  simp only [List.length_cons, List.length_map, pathLength] at fits
  omega

theorem Acyclic.fragmentNesting_eq {document : Document} (acyclic : document.Acyclic)
    {name : String} {fragment : Fragment} (found : document.fragment? name = some fragment) :
    document.fragmentNesting document.fragments.length name =
      document.nesting fragment.selections := by
  rw [← fragmentNesting_succ_eq _ name (acyclic.not_chainFrom name), fragmentNesting, found]
  rfl

/-- What stands under a field nests less deep than the selections that lead to the field. -/
theorem Acyclic.nesting_lt_of_selects {document : Document} (acyclic : document.Acyclic)
    {selections : List Selection} {field : Field} (selected : document.Selects selections field) :
    document.nesting field.selections < document.nesting selections := by
  induction selected with
  | field member =>
      have below := nesting_le_nestingOf
        (document.fragmentNesting document.fragments.length) member
      rw [Selection.nesting, Field.nesting_eq] at below
      exact below
  | inline member _ induction =>
      have below := nesting_le_nestingOf
        (document.fragmentNesting document.fragments.length) member
      rw [Selection.nesting, InlineFragment.nesting_eq] at below
      exact induction.trans_le below
  | spread member found _ induction =>
      have below := nesting_le_nestingOf
        (document.fragmentNesting document.fragments.length) member
      rw [Selection.nesting, acyclic.fragmentNesting_eq found] at below
      exact induction.trans_le below

/-! ## Depth and size -/

/-- The size of the fragments that have none of some names. -/
private def sizeWithout (document : Document) (names : List String) : Nat :=
  ((document.fragments.filter fun fragment => !names.contains fragment.name).map
    fun fragment => countSelections fragment.selections).sum

private theorem count_add_sum_filter_le {α : Type} (size : α → Nat) (keep drop : α → Bool)
    (weaker : ∀ value, drop value = true → keep value = true) {value : α} (kept : keep value = true)
    (dropped : drop value = false) :
    ∀ values : List α, value ∈ values →
      size value + ((values.filter drop).map size).sum ≤ ((values.filter keep).map size).sum
  | [], member => by cases member
  | head :: tail, member => by
      have subset : ((tail.filter drop).map size).sum ≤ ((tail.filter keep).map size).sum := by
        apply List.Sublist.sum_le_sum
        · exact (List.monotone_filter_right tail fun value dropped => weaker value dropped).map size
        · exact fun _ _ => Nat.zero_le _
      rcases List.mem_cons.mp member with equal | member
      · subst equal
        simp only [List.filter_cons, kept, dropped, List.map_cons, List.sum_cons, if_true]
        simpa using subset
      · have induction := count_add_sum_filter_le size keep drop weaker kept dropped tail member
        cases keepHead : keep head with
        | false =>
            have dropHead : drop head = false := by
              cases dropHead : drop head with
              | false => rfl
              | true => exact absurd (weaker head dropHead) (by simp [keepHead])
            simpa [List.filter_cons, keepHead, dropHead] using induction
        | true =>
            cases dropHead : drop head with
            | false =>
                simp only [List.filter_cons, keepHead, dropHead, List.map_cons, List.sum_cons,
                  if_true]
                simp only [Bool.false_eq_true, if_false]
                omega
            | true =>
                simp only [List.filter_cons, keepHead, dropHead, List.map_cons, List.sum_cons,
                  if_true]
                omega

/-- A fragment nests no deeper than all fragments that do not lead to it have selections. -/
private theorem Acyclic.fragmentNesting_le {document : Document} (acyclic : document.Acyclic)
    (expansions : Nat) :
    ∀ (name : String) (above : List String),
      (∀ other ∈ above, Relation.TransGen document.SpreadsTo other name) →
      document.fragmentNesting expansions name ≤ document.sizeWithout above := by
  induction expansions with
  | zero => exact fun _ _ _ => Nat.zero_le _
  | succ expansions induction =>
      intro name above leads
      rw [fragmentNesting]
      cases found : document.fragment? name with
      | none => exact Nat.zero_le _
      | some fragment =>
          have known := fragment?_mem found
          have inside := nestingOf_le_count (document.fragmentNesting expansions)
            (document.sizeWithout (name :: above)) fragment.selections (by
              intro spread member
              apply induction
              have step : document.SpreadsTo name spread.name :=
                ⟨fragment, found, spread, member, rfl⟩
              intro other listed
              rcases List.mem_cons.mp listed with equal | earlier
              · exact equal ▸ .single step
              · exact (leads other earlier).tail step)
          have fresh : name ∉ above := fun listed => acyclic name (leads name listed)
          have split := count_add_sum_filter_le
            (fun fragment : Fragment => countSelections fragment.selections)
            (fun fragment => !above.contains fragment.name)
            (fun fragment => !(name :: above).contains fragment.name)
            (by simp +contextual) (by simpa [known.2] using fresh)
            (by simp [known.2]) document.fragments known.1
          exact inside.trans split

private theorem sizeWithout_nil (document : Document) :
    document.sizeWithout [] =
      (document.fragments.map fun fragment => countSelections fragment.selections).sum := by
  simp [sizeWithout]

private theorem selectionCount_cons (definition : Definition) (definitions : List Definition) :
    (Document.mk (definition :: definitions)).selectionCount =
      (match definition with
        | .operation operation => countSelections operation.selections
        | .fragment fragment => countSelections fragment.selections) +
      (Document.mk definitions).selectionCount := by
  unfold selectionCount
  rw [← List.sum_eq_foldl_nat, ← List.sum_eq_foldl_nat, List.map_cons]
  exact List.sum_cons

private theorem count_add_sizeWithout_le_selectionCount {operation : Operation} :
    ∀ definitions : List Definition, operation ∈ (Document.mk definitions).operations →
      countSelections operation.selections + (Document.mk definitions).sizeWithout [] ≤
        (Document.mk definitions).selectionCount := by
  have fragmentsFit : ∀ definitions : List Definition,
      (Document.mk definitions).sizeWithout [] ≤ (Document.mk definitions).selectionCount := by
    intro definitions
    induction definitions with
    | nil => exact Nat.zero_le _
    | cons definition definitions induction =>
        rw [sizeWithout_nil] at induction ⊢
        rw [selectionCount_cons]
        cases definition with
        | operation other => exact induction.trans (Nat.le_add_left _ _)
        | fragment fragment => exact Nat.add_le_add_left induction _
  intro definitions
  induction definitions with
  | nil => intro member; cases member
  | cons definition definitions induction =>
      intro member
      have rest := fragmentsFit definitions
      rw [sizeWithout_nil] at induction rest ⊢
      rw [selectionCount_cons]
      cases definition with
      | operation other =>
          rcases List.mem_cons.mp member with equal | later
          · subst equal
            exact Nat.add_le_add_left rest _
          · exact (induction later).trans (Nat.le_add_left _ _)
      | fragment fragment =>
          have fits := induction member
          simp only [fragments, List.filterMap_cons, List.map_cons, List.sum_cons] at fits ⊢
          omega

/-- No operation nests deeper than the document has selections. -/
theorem Acyclic.nesting_le_selectionCount {document : Document} (acyclic : document.Acyclic)
    {operation : Operation} (known : operation ∈ document.operations) :
    document.nesting operation.selections ≤ document.selectionCount := by
  have fragments : ∀ spread ∈ spreadsOf operation.selections,
      document.fragmentNesting document.fragments.length spread.name ≤ document.sizeWithout [] := by
    intro spread _
    exact acyclic.fragmentNesting_le _ _ [] (by simp)
  exact (nestingOf_le_count _ _ _ fragments).trans
    (count_add_sizeWithout_le_selectionCount document.definitions known)

end Document

end GraphQL
