import GraphQL.Proofs.Validation.Cycles
import GraphQL.Validation.Rules.Subscriptions

/-!
The root fields of a subscription. They are gathered with each fragment followed at its first
spread, also where fragments lead in circles, and they are all the fields that the operation comes
to at its root whatever the conditions and directives. The rule about subscriptions looks at the
response names of these fields only, so an alias hides a field of introspection from it.
-/

namespace GraphQL

namespace Rules

/-! ## What is gathered -/

/-- A selection in a selection set or in the inline fragments of it. -/
inductive Offers : List Selection → Selection → Prop
  | here {selections : List Selection} {selection : Selection}
      (member : selection ∈ selections) : Offers selections selection
  | inline {selections : List Selection} {inlined : InlineFragment} {selection : Selection}
      (member : .inline inlined ∈ selections) (inside : Offers inlined.selections selection) :
      Offers selections selection

namespace RootCollection

/-- A field of a response name was found at a position. -/
private def Notes (collection : RootCollection) (name : String) (position : Position) : Prop :=
  position ∈ (Named.value? collection.fields name).getD []

/-- The fields that selections offer were found and the fragments were followed. -/
structure Settles (collection : RootCollection) (selections : List Selection) : Prop where
  fields : ∀ field, Offers selections (.field field) →
    collection.Notes field.responseName field.position
  spreads : ∀ spread, Offers selections (.spread spread) → spread.name ∈ collection.visited

/-- Response names are listed once, and only with some field. -/
structure Tidy (collection : RootCollection) : Prop where
  distinct : (Named.names collection.fields).Nodup
  filled : ∀ entry ∈ collection.fields, entry.2 ≠ []

variable {before after collection : RootCollection} {selections : List Selection}

private theorem Settles.mono (settles : before.Settles selections)
    (grows : before.visited ⊆ after.visited)
    (keeps : ∀ name position, before.Notes name position → after.Notes name position) :
    after.Settles selections :=
  ⟨fun field offers => keeps _ _ (settles.fields field offers),
    fun spread offers => grows (settles.spreads spread offers)⟩

private theorem Tidy.mem_names (tidy : collection.Tidy) {name : String} :
    name ∈ Named.names collection.fields ↔ ∃ position, collection.Notes name position := by
  constructor
  · intro listed
    rcases List.mem_map.mp listed with ⟨⟨key, positions⟩, member, same⟩
    cases same
    rcases List.exists_mem_of_ne_nil _ (tidy.filled _ member) with ⟨position, isPosition⟩
    have found : Named.value? collection.fields key = some positions :=
      Named.value?_of_mem tidy.distinct member
    exact ⟨position, show position ∈ (Named.value? collection.fields key).getD [] by rwa [found]⟩
  · rintro ⟨position, noted⟩
    by_contra unknown
    rw [Notes, Named.value?_eq_none.mpr unknown] at noted
    cases noted

/-- The collection with one more field. -/
private def addField (collection : RootCollection) (field : Field) : RootCollection :=
  { collection with
    fields := addRootField collection.fields field.responseName field.position }

private theorem notes_addField {field : Field} {name : String} {position : Position} :
    (collection.addField field).Notes name position ↔
      collection.Notes name position ∨
        field.responseName = name ∧ field.position = position := by
  rw [Notes, addField, addRootField, Named.value?_put]
  by_cases same : field.responseName = name
  · subst same
    simp [Notes, eq_comm]
  · simp [Notes, same]

private theorem Tidy.addField (tidy : collection.Tidy) (field : Field) :
    (collection.addField field).Tidy := by
  refine ⟨Named.names_put_nodup tidy.distinct, fun entry listed => ?_⟩
  rcases Named.mem_put listed with known | added
  · exact tidy.filled entry known
  · rw [added]
    exact List.append_ne_nil_of_right_ne_nil _ (List.cons_ne_nil _ _)

end RootCollection

/-- What gathering from selections comes to. Every fragment that it has followed is done with when
it ends. -/
structure Gathering (document : Document) (before : RootCollection) (selections : List Selection)
    (after : RootCollection) : Prop where
  grows : before.visited ⊆ after.visited
  keeps : ∀ name position, before.Notes name position → after.Notes name position
  only : ∀ name position, after.Notes name position → before.Notes name position ∨
    ∃ field, document.Selects selections field ∧ field.responseName = name ∧
      field.position = position
  settles : after.Settles selections
  closed : ∀ name ∈ after.visited, name ∈ before.visited ∨
    ∀ fragment, document.fragment? name = some fragment → after.Settles fragment.selections
  tidy : before.Tidy → after.Tidy

namespace Gathering

variable {document : Document} {before between after collection : RootCollection}
  {selection : Selection} {selections : List Selection}

private theorem nil : Gathering document collection [] collection where
  grows := List.Subset.refl _
  keeps _ _ noted := noted
  only _ _ noted := .inl noted
  settles := by
    constructor <;> intro _ offers <;> cases offers <;> contradiction
  closed _ member := .inl member
  tidy tidy := tidy

private theorem cons (first : Gathering document before [selection] between)
    (rest : Gathering document between selections after) :
    Gathering document before (selection :: selections) after where
  grows := List.Subset.trans first.grows rest.grows
  keeps name position noted := rest.keeps name position (first.keeps name position noted)
  only name position noted := by
    rcases rest.only name position noted with earlier | ⟨field, selected, same⟩
    · refine (first.only name position earlier).imp_right fun ⟨field, selected, same⟩ => ?_
      exact ⟨field, selected.mono (by simp), same⟩
    · exact .inr ⟨field, selected.mono (List.subset_cons_self _ _), same⟩
  settles := by
    have head := first.settles.mono rest.grows rest.keeps
    have split {one : Selection} (offers : Offers (selection :: selections) one) :
        Offers [selection] one ∨ Offers selections one := by
      cases offers with
      | here member =>
          exact (List.mem_cons.mp member).imp
            (fun same => .here (List.mem_singleton.mpr same)) .here
      | inline member inside =>
          exact (List.mem_cons.mp member).imp
            (fun same => .inline (List.mem_singleton.mpr same) inside) (.inline · inside)
    exact ⟨fun field offers => (split offers).elim (head.fields field) (rest.settles.fields field),
      fun spread offers => (split offers).elim (head.spreads spread) (rest.settles.spreads spread)⟩
  closed name member := by
    rcases rest.closed name member with earlier | done
    · refine (first.closed name earlier).imp_right fun done fragment found => ?_
      exact (done fragment found).mono rest.grows rest.keeps
    · exact .inr done
  tidy tidy := rest.tidy (first.tidy tidy)

private theorem field (node : Field) :
    Gathering document collection [.field node] (collection.addField node) where
  grows := List.Subset.refl _
  keeps _ _ noted := RootCollection.notes_addField.mpr (.inl noted)
  only _ _ noted := (RootCollection.notes_addField.mp noted).imp_right fun same =>
    ⟨node, .field List.mem_cons_self, same⟩
  settles := by
    constructor
    · intro field offers
      cases offers with
      | here member =>
          cases List.mem_singleton.mp member
          exact RootCollection.notes_addField.mpr (.inr ⟨rfl, rfl⟩)
      | inline member inside => cases List.mem_singleton.mp member
    · intro spread offers
      cases offers with
      | here member => cases List.mem_singleton.mp member
      | inline member inside => cases List.mem_singleton.mp member
  closed _ member := .inl member
  tidy tidy := tidy.addField node

private theorem inline {node : InlineFragment}
    (inside : Gathering document before node.selections after) :
    Gathering document before [.inline node] after where
  grows := inside.grows
  keeps := inside.keeps
  only name position noted := (inside.only name position noted).imp_right
    fun ⟨field, selected, same⟩ => ⟨field, .inline List.mem_cons_self selected, same⟩
  settles := by
    constructor
    · intro field offers
      cases offers with
      | here member => cases List.mem_singleton.mp member
      | inline member offered =>
          cases List.mem_singleton.mp member
          exact inside.settles.fields field offered
    · intro spread offers
      cases offers with
      | here member => cases List.mem_singleton.mp member
      | inline member offered =>
          cases List.mem_singleton.mp member
          exact inside.settles.spreads spread offered
  closed := inside.closed
  tidy := inside.tidy

private theorem settles_spread {node : FragmentSpread} (followed : node.name ∈ collection.visited) :
    collection.Settles [.spread node] := by
  constructor
  · intro field offers
    cases offers with
    | here member => cases List.mem_singleton.mp member
    | inline member inside => cases List.mem_singleton.mp member
  · intro spread offers
    cases offers with
    | here member =>
        cases List.mem_singleton.mp member
        exact followed
    | inline member inside => cases List.mem_singleton.mp member

private theorem known {node : FragmentSpread} (followed : node.name ∈ collection.visited) :
    Gathering document collection [.spread node] collection where
  grows := List.Subset.refl _
  keeps _ _ noted := noted
  only _ _ noted := .inl noted
  settles := settles_spread followed
  closed _ member := .inl member
  tidy tidy := tidy

/-- The collection with one more fragment followed. -/
abbrev visit (collection : RootCollection) (name : String) : RootCollection :=
  { collection with visited := collection.visited ++ [name] }

private theorem undefined {node : FragmentSpread} (missing : document.fragment? node.name = none) :
    Gathering document collection [.spread node] (visit collection node.name) where
  grows := List.subset_append_left _ _
  keeps _ _ noted := noted
  only _ _ noted := .inl noted
  settles := settles_spread (List.mem_append_right _ List.mem_cons_self)
  closed name member := (List.mem_append.mp member).imp_right fun same fragment found => by
    rw [List.mem_singleton.mp same, missing] at found
    cases found
  tidy tidy := ⟨tidy.distinct, tidy.filled⟩

private theorem spread {node : FragmentSpread} {fragment : Fragment}
    (found : document.fragment? node.name = some fragment)
    (inside : Gathering document (visit before node.name) fragment.selections after) :
    Gathering document before [.spread node] after where
  grows := List.Subset.trans (List.subset_append_left _ _) inside.grows
  keeps := inside.keeps
  only name position noted := (inside.only name position noted).imp_right
    fun ⟨field, selected, same⟩ => ⟨field, .spread List.mem_cons_self found selected, same⟩
  settles := settles_spread (inside.grows (List.mem_append_right _ List.mem_cons_self))
  closed name member := by
    rcases inside.closed name member with listed | done
    · refine (List.mem_append.mp listed).imp_right fun same other isOther => ?_
      rw [List.mem_singleton.mp same, found] at isOther
      cases isOther
      exact inside.settles
    · exact .inr done
  tidy tidy := inside.tidy ⟨tidy.distinct, tidy.filled⟩

private theorem notes_of_settles {reached : List Selection} {field : Field}
    (gathering : Gathering document {} selections after)
    (selected : document.Selects reached field) (settles : after.Settles reached) :
    after.Notes field.responseName field.position := by
  induction selected with
  | field member => exact settles.fields _ (.here member)
  | inline member _ induction =>
      exact induction ⟨fun field offers => settles.fields field (.inline member offers),
        fun spread offers => settles.spreads spread (.inline member offers)⟩
  | spread member found _ induction =>
      have followed := settles.spreads _ (.here member)
      exact induction ((gathering.closed _ followed).resolve_left List.not_mem_nil _ found)

end Gathering

/-! ## The gathering of the rule -/

section

variable {document : Document} {depth : Nat} {follow : String → RootCollection → RootCollection}

/-- A way to follow fragments that gathers from them, as long as no more than a number of them is
new. -/
structure Follow (document : Document) (depth : Nat)
    (follow : String → RootCollection → RootCollection) : Prop where
  enters : ∀ name fragment collection, document.fragment? name = some fragment →
    (CycleSearch.unseen document collection.visited).card < depth →
    Gathering document collection fragment.selections (follow name collection)
  passes : ∀ name collection, document.fragment? name = none → follow name collection = collection

mutual

private theorem collectRoot_gathers (follows : Follow document depth follow) :
    (selection : Selection) → (collection : RootCollection) →
      (CycleSearch.unseen document collection.visited).card < depth + 1 →
      Gathering document collection [selection] (collectRoot follow selection collection)
  | .field node, _, _ => .field node
  | .spread node, collection, enough => by
      rw [collectRoot]
      by_cases known : node.name ∈ collection.visited
      · rw [if_pos (List.contains_iff_mem.mpr known)]
        exact .known known
      · rw [if_neg (mt List.contains_iff_mem.mp known)]
        cases found : document.fragment? node.name with
        | none =>
            rw [follows.passes _ _ found]
            exact .undefined found
        | some fragment =>
            have isFragment : node.name ∈ Named.names document.fragments :=
              List.mem_map.mpr ⟨fragment, Document.fragment?_mem found⟩
            have fewer := CycleSearch.unseen_enter isFragment known enough
            exact .spread found (follows.enters _ _ _ found fewer)
  | .inline ⟨_, _, _, under⟩, collection, enough =>
      .inline (collectRoots_gathers follows under collection enough)

private theorem collectRoots_gathers (follows : Follow document depth follow) :
    (selections : List Selection) → (collection : RootCollection) →
      (CycleSearch.unseen document collection.visited).card < depth + 1 →
      Gathering document collection selections (collectRoots follow selections collection)
  | [], _, _ => .nil
  | selection :: selections, collection, enough => by
      have first := collectRoot_gathers follows selection collection enough
      have fewer : (CycleSearch.unseen document _).card ≤ (CycleSearch.unseen document _).card :=
        Finset.card_le_card (CycleSearch.unseen_mono first.grows)
      exact first.cons (collectRoots_gathers follows selections _ (fewer.trans_lt enough))

end

private theorem followRoot_follows (document : Document) (depth : Nat) :
    Follow document depth (followRoot document depth) := by
  induction depth with
  | zero => exact ⟨fun _ _ _ _ enough => absurd enough (Nat.not_lt_zero _), fun _ _ _ => rfl⟩
  | succ depth induction =>
      constructor
      · intro name fragment collection found enough
        rw [followRoot, found]
        exact collectRoots_gathers induction fragment.selections collection enough
      · intro name collection missing
        rw [followRoot, missing]

/-- The root fields of an operation are those that its selections come to, by response name. -/
private theorem rootFields_gathered (document : Document) (operation : Operation) :
    ∃ collection : RootCollection, collection.fields = rootFields document operation ∧
      collection.Tidy ∧ ∀ name position, collection.Notes name position ↔
        ∃ field, document.Selects operation.selections field ∧ field.responseName = name ∧
          field.position = position := by
  have enough := (CycleSearch.unseen_card document []).trans (Nat.lt_succ_self _)
  have gathering := collectRoots_gathers (followRoot_follows document _) operation.selections {}
    enough
  refine ⟨_, rfl, gathering.tidy ⟨List.nodup_nil, nofun⟩, fun name position => ⟨?_, ?_⟩⟩
  · exact fun noted => (gathering.only name position noted).resolve_left List.not_mem_nil
  · rintro ⟨field, selected, rfl, rfl⟩
    exact gathering.notes_of_settles selected gathering.settles

end

/-! ## What the rule reports -/

variable {document : Document} {registry : Registry} {operation : Operation}

private theorem mem_operations_of_visit {visit : ScopedVisit}
    (member : visit ∈ document.walk registry) (isOperation : visit.visit.kind = .operation) :
    ∃ operation ∈ document.operations,
      visit.visit = .enterOperation operation ∨ visit.visit = .leaveOperation operation := by
  have notInner (inner : visit.visit.IsInner) : False := by
    rw [Visit.IsInner, isOperation] at inner
    cases inner
  rcases List.mem_cons.mp member with rfl | member
  · cases isOperation
  rcases List.mem_append.mp member with member | member
  swap
  · rw [List.mem_singleton.mp member] at isOperation
    cases isOperation
  rcases List.mem_flatMap.mp member with ⟨definition, listed, member⟩
  cases definition with
  | operation operation =>
      refine ⟨operation, Document.mem_operations.mpr listed, ?_⟩
      rcases List.mem_cons.mp member with rfl | member
      · exact .inl rfl
      rcases List.mem_append.mp member with member | member
      · exact (notInner ((((inner_variableDefinitions _ _).append (inner_directives _ _ _)).append
          (inner_selectionSet _ _ _)) visit member)).elim
      · rw [List.mem_singleton.mp member]
        exact .inr rfl
  | fragment fragment =>
      rcases List.mem_cons.mp member with rfl | member
      · cases isOperation
      rcases List.mem_append.mp member with member | member
      · exact (notInner (((inner_directives _ _ _).append (inner_selectionSet _ _ _))
          visit member)).elim
      · rw [List.mem_singleton.mp member] at isOperation
        cases isOperation

/-- No two fields have different response names, and none is taken for one of introspection by the
name that is looked at. -/
structure SingleRoot (document : Document) (operation : Operation) (name : Field → String) :
    Prop where
  single : ∀ first second, document.Selects operation.selections first →
    document.Selects operation.selections second → first.responseName = second.responseName
  plain : ∀ field, document.Selects operation.selections field →
    Meta.isMetaName (name field) = false

private theorem SingleRoot.of_only {name : Field → String} {root : Field}
    (only : ∀ field, document.Selects operation.selections field → field = root)
    (plain : Meta.isMetaName (name root) = false) : SingleRoot document operation name where
  single first second isFirst isSecond := by rw [only first isFirst, only second isSecond]
  plain field selected := by rwa [only field selected]

/-- The root fields of an operation are listed under one response name at most, which is not that of
a field of introspection. -/
private theorem rootFields_single_iff :
    ((rootFields document operation).length ≤ 1 ∧
      ∀ entry ∈ rootFields document operation, Meta.isMetaName entry.1 = false) ↔
    SingleRoot document operation Field.responseName := by
  rcases rootFields_gathered document operation with ⟨collection, isFields, tidy, notes⟩
  have listed (name : String) : name ∈ Named.names (rootFields document operation) ↔
      ∃ field, document.Selects operation.selections field ∧ field.responseName = name := by
    rw [← isFields, tidy.mem_names]
    constructor
    · rintro ⟨position, noted⟩
      rcases (notes name position).mp noted with ⟨field, selected, same, _⟩
      exact ⟨field, selected, same⟩
    · rintro ⟨field, selected, same⟩
      exact ⟨field.position, (notes name _).mpr ⟨field, selected, same, rfl⟩⟩
  have distinct : (Named.names (rootFields document operation)).Nodup := isFields ▸ tidy.distinct
  have alone : (rootFields document operation).length ≤ 1 ↔
      ∀ first ∈ Named.names (rootFields document operation),
        ∀ second ∈ Named.names (rootFields document operation), first = second := by
    rw [← List.length_map nameOf, ← Named.names, ← List.toFinset_card_of_nodup distinct,
      Finset.card_le_one]
    simp only [List.mem_toFinset]
  constructor
  · rintro ⟨short, plain⟩
    refine ⟨fun first second selectedFirst selectedSecond => ?_, fun field selected => ?_⟩
    · exact alone.mp short _ ((listed _).mpr ⟨first, selectedFirst, rfl⟩) _
        ((listed _).mpr ⟨second, selectedSecond, rfl⟩)
    · rcases List.mem_map.mp ((listed _).mpr ⟨field, selected, rfl⟩) with ⟨entry, member, same⟩
      exact same ▸ plain entry member
  · intro root
    refine ⟨alone.mpr fun one isOne other isOther => ?_, fun entry member => ?_⟩
    · rcases (listed one).mp isOne with ⟨first, selectedFirst, rfl⟩
      rcases (listed other).mp isOther with ⟨second, selectedSecond, rfl⟩
      exact root.single first second selectedFirst selectedSecond
    · rcases (listed entry.1).mp (List.mem_map_of_mem member) with ⟨field, selected, same⟩
      exact same ▸ root.plain field selected

/-- The rule finds nothing wrong with an operation that it enters if the root fields of a
subscription are listed under one response name, which is not that of a field of introspection. -/
private theorem rootFields_silent_iff (scope : Scope) :
    (singleFieldSubscriptions.visit ⟨registry, document⟩ ()
      ⟨scope, .enterOperation operation⟩).2 = [] ↔
    (operation.kind = .subscription → SingleRoot document operation Field.responseName) := by
  by_cases isSubscription : operation.kind = .subscription
  · rw [← rootFields_single_iff]
    simp [singleFieldSubscriptions, Rule.stateless, isSubscription]
  · simp [singleFieldSubscriptions, Rule.stateless, isSubscription]

/-- The rule accepts the documents whose subscriptions select one response name at the root, which
is not that of a field of introspection. -/
private theorem singleFieldSubscriptions_silent_iff :
    document.validate registry [singleFieldSubscriptions] = [] ↔
      ∀ operation ∈ document.operations, operation.kind = .subscription →
        SingleRoot document operation Field.responseName := by
  refine Rule.stateless_silent_iff.trans ⟨fun clean operation member => ?_, ?_⟩
  · have listed := Document.mem_operations.mp member
    have ⟨scope, entered⟩ : ∃ scope : Scope,
        ⟨scope, .enterOperation operation⟩ ∈ document.walk registry :=
      ⟨_, List.mem_cons_of_mem _ (List.mem_append_left _
        (List.mem_flatMap.mpr ⟨_, listed, List.mem_cons_self⟩))⟩
    exact (rootFields_silent_iff scope).mp (clean _ entered rfl)
  · rintro single ⟨scope, visit⟩ member sees
    have isOperation : visit.kind = .operation := by simpa using sees
    rcases mem_operations_of_visit member isOperation with ⟨operation, listed, rfl | rfl⟩
    · exact (rootFields_silent_iff scope).mpr (single operation listed)
    · rfl

end Rules

open Rules

/-- No alias hides that a root field of a subscription is one of introspection, and none makes a
field look like one. -/
def Document.PlainAliases (document : Document) : Prop :=
  ∀ operation ∈ document.operations, operation.kind = .subscription →
    ∀ field, document.Selects operation.selections field →
      Meta.isMetaName field.responseName = Meta.isMetaName field.name

/-- The rule accepts the subscriptions with a single root field, in any document, but it tells the
fields of introspection by their response names. This makes no difference where no alias does. -/
theorem Document.subscriptions_accepted_iff (document : Document) (registry : Registry) :
    (document.validate registry [singleFieldSubscriptions] = [] ↔
      ∀ operation ∈ document.operations, operation.kind = .subscription →
        SingleRoot document operation Field.responseName) ∧
    (document.PlainAliases →
      (document.validate registry [singleFieldSubscriptions] = [] ↔
        ∀ operation ∈ document.operations, operation.kind = .subscription →
          SingleRoot document operation Field.name)) := by
  refine ⟨singleFieldSubscriptions_silent_iff, fun plain => ?_⟩
  rw [singleFieldSubscriptions_silent_iff]
  refine forall₃_congr fun operation member isSubscription => ?_
  have same := plain operation member isSubscription
  constructor
  · exact fun root => ⟨root.single, fun field selected =>
      (same field selected).symm.trans (root.plain field selected)⟩
  · exact fun root => ⟨root.single, fun field selected =>
      (same field selected).trans (root.plain field selected)⟩

namespace Bulletin

/-! A field of introspection under an alias, and a fragment that spreads itself. -/

def query : NamedType where
  key := .custom 0
  name := "Query"
  shape := .object { fields := [{ name := "latest", type := .named "String" }] }

def subscription : NamedType where
  key := .custom 1
  name := "Subscription"
  shape := .object { fields := [{ name := "newMessage", type := .named "String" }] }

def registry : Registry where
  types := Scalar.all ++ Meta.all ++ [query, subscription]
  query := query
  mutation := none
  subscription := some subscription
  directives := DirectiveDefinition.builtIn
  possibleTypes := []

def hidden : Field := ⟨⟨1, 16⟩, some "a", "__typename", [], [], []⟩

def veiled : Document := ⟨[.operation ⟨⟨1, 1⟩, .subscription, none, [], [], [.field hidden]⟩]⟩

def message : Field := ⟨⟨2, 35⟩, none, "newMessage", [], [], []⟩

def spread : FragmentSpread := ⟨⟨1, 16⟩, "News", []⟩

def circling : Document :=
  ⟨[.operation ⟨⟨1, 1⟩, .subscription, none, [], [], [.spread spread]⟩,
    .fragment ⟨⟨2, 1⟩, "News", "Subscription", [], [.field message, .spread spread]⟩]⟩

private theorem message_of_selects {selections : List Selection} {field : Field}
    (selected : circling.Selects selections field)
    (offered : selections ⊆ [.field message, .spread spread]) : field = message := by
  induction selected with
  | field member => simpa using offered member
  | inline member _ _ => simpa using offered member
  | spread member found _ induction =>
      obtain rfl : spread = _ := by simpa [eq_comm] using offered member
      cases found
      exact induction (List.Subset.refl _)

end Bulletin

/-- Both documents are accepted, and the first one selects a field of introspection. -/
theorem Document.subscriptions_accepted_iff_of_bulletin :
    (Bulletin.veiled.validate Bulletin.registry [singleFieldSubscriptions] = [] ∧
      Bulletin.veiled.Selects [.field Bulletin.hidden] Bulletin.hidden ∧
      Meta.isMetaName Bulletin.hidden.name = true) ∧
    Bulletin.circling.PlainAliases ∧
      Bulletin.circling.validate Bulletin.registry [singleFieldSubscriptions] = [] := by
  have plain : Bulletin.circling.PlainAliases := by
    intro operation member _ field selected
    obtain rfl := List.mem_singleton.mp member
    rw [Bulletin.message_of_selects selected (by simp)]
    decide
  refine ⟨⟨(subscriptions_accepted_iff _ _).1.mpr ?_, .field List.mem_cons_self, by decide⟩, plain,
    ((subscriptions_accepted_iff _ _).2 plain).mpr ?_⟩
  · intro operation member _
    obtain rfl := List.mem_singleton.mp member
    have only (field : Field) (selected : Bulletin.veiled.Selects [.field Bulletin.hidden] field) :
        field = Bulletin.hidden := by
      cases selected <;> simp_all
    exact .of_only only (by decide)
  · intro operation member _
    obtain rfl := List.mem_singleton.mp member
    exact .of_only (fun field selected => Bulletin.message_of_selects selected (by simp))
      (by decide)

end GraphQL
