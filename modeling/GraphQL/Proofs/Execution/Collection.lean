import GraphQL.Execution.Collect
import GraphQL.Proofs.Document.Nesting
import GraphQL.Proofs.Named

/-!
What field collection gives: groups of distinct response names, each with some fields, and every
field of a group is one that the selection sets lead to.
-/

namespace GraphQL

namespace Collection

/-! ## Walking selections -/

/-- A field that may be taken in at any time. -/
private def Keeps (holds : Collection → Prop) (field : Field) : Prop :=
  ∀ collection, holds collection → holds (collection.addField field)

/-- Following a fragment keeps what taking in its fields keeps. -/
private def FollowsTo (request : Request) (holds : Collection → Prop)
    (follow : String → Collection → Collection) : Prop :=
  ∀ name collection,
    (∀ fragment, request.document.fragment? name = some fragment →
      ∀ field, request.document.Selects fragment.selections field → Keeps holds field) →
    holds collection → holds (follow name collection)

/-- Visiting a fragment keeps what is held. -/
private def KeepsVisits (holds : Collection → Prop) : Prop :=
  ∀ collection name, holds collection →
    holds { collection with visited := collection.visited ++ [name] }

mutual

private theorem addSelection_keeps {request : Request} {objectName : String}
    {holds : Collection → Prop} (visits : KeepsVisits holds)
    {follow : String → Collection → Collection} (follows : FollowsTo request holds follow) :
    (selection : Selection) → (collection : Collection) →
      (∀ field, request.document.Selects [selection] field → Keeps holds field) →
      holds collection → holds (addSelection request objectName follow selection collection)
  | .field node, collection, keeps, held => by
      rw [addSelection]
      split
      · exact keeps node (.field List.mem_cons_self) collection held
      · exact held
  | .spread node, collection, keeps, held => by
      rw [addSelection]
      split
      · exact held
      · apply follows
        · intro fragment found field selected
          exact keeps field (.spread List.mem_cons_self found selected)
        · exact visits collection node.name held
  | .inline ⟨position, condition, directives, under⟩, collection, keeps, held => by
      rw [addSelection, addInline]
      split
      · apply addSelections_keeps visits follows under collection _ held
        intro field selected
        exact keeps field (.inline List.mem_cons_self selected)
      · exact held

private theorem addSelections_keeps {request : Request} {objectName : String}
    {holds : Collection → Prop} (visits : KeepsVisits holds)
    {follow : String → Collection → Collection} (follows : FollowsTo request holds follow) :
    (selections : List Selection) → (collection : Collection) →
      (∀ field, request.document.Selects selections field → Keeps holds field) →
      holds collection → holds (addSelections request objectName follow selections collection)
  | [], _, _, held => held
  | selection :: selections, collection, keeps, held => by
      rw [addSelections]
      apply addSelections_keeps visits follows selections
      · intro field selected
        exact keeps field (selected.mono (List.subset_cons_self _ _))
      · apply addSelection_keeps visits follows selection collection _ held
        intro field selected
        exact keeps field (selected.mono (by simp))

end

private theorem addFragment_follows (request : Request) (objectName : String)
    {holds : Collection → Prop} (visits : KeepsVisits holds) (nesting : Nat) :
    FollowsTo request holds (addFragment request objectName nesting) := by
  induction nesting with
  | zero => exact fun _ _ _ held => held
  | succ nesting induction =>
      intro name collection keeps held
      rw [addFragment]
      cases found : request.document.fragment? name with
      | none => exact held
      | some fragment =>
          simp only
          split
          · exact addSelections_keeps visits induction fragment.selections collection
              (keeps fragment found) held
          · exact held

/-! ## Groups -/

/-- Groups of distinct names, of fields that are good and have that name. -/
structure Sorted (good : Field → Prop) (collection : Collection) : Prop where
  distinct : (Named.names collection.groups).Nodup
  filled : ∀ group ∈ collection.groups, group.2 ≠ []
  belongs : ∀ group ∈ collection.groups, ∀ field ∈ group.2,
    good field ∧ field.responseName = group.1

private theorem Sorted.visit (good : Field → Prop) : KeepsVisits (Sorted good) :=
  fun _ _ sorted => ⟨sorted.distinct, sorted.filled, sorted.belongs⟩

private theorem Sorted.addField {good : Field → Prop} {field : Field} (isGood : good field) :
    Keeps (Sorted good) field := by
  intro collection sorted
  refine ⟨Named.names_put_nodup sorted.distinct, ?_, ?_⟩
  · intro group listed
    rcases Named.mem_put listed with known | added
    · exact sorted.filled group known
    · subst added
      exact List.append_ne_nil_of_right_ne_nil _ (List.cons_ne_nil _ _)
  · intro group listed member inGroup
    rcases Named.mem_put listed with known | added
    · exact sorted.belongs group known member inGroup
    · subst added
      rcases List.mem_append.mp inGroup with earlier | last
      · cases found : Named.value? collection.groups field.responseName with
        | none => simp [found] at earlier
        | some fields =>
            rw [found, Option.getD_some] at earlier
            exact sorted.belongs _ (Named.value?_mem found) member earlier
      · rw [List.mem_singleton.mp last]
        exact ⟨isGood, rfl⟩

end Collection

namespace Request

/-- The groups of an object's selection sets. -/
private theorem collectFields_sorted (request : Request) (objectName : String)
    (sets : List (List Selection)) :
    ∃ collection : Collection, collection.groups = request.collectFields objectName sets ∧
      collection.Sorted fun field =>
        ∃ selections ∈ sets, request.document.Selects selections field := by
  refine ⟨_, rfl, ?_⟩
  apply List.foldlRecOn
  · exact ⟨List.nodup_nil, by simp, by simp⟩
  · intro collection sorted selections member
    exact Collection.addSelections_keeps (Collection.Sorted.visit _)
      (Collection.addFragment_follows request objectName (Collection.Sorted.visit _) _)
      selections collection
      (fun field selected => Collection.Sorted.addField ⟨selections, member, selected⟩) sorted

theorem collectFields_distinct (request : Request) (objectName : String)
    (sets : List (List Selection)) :
    (Named.names (request.collectFields objectName sets)).Nodup := by
  rcases request.collectFields_sorted objectName sets with ⟨collection, isResult, sorted⟩
  exact isResult ▸ sorted.distinct

theorem collectFields_ne_nil {request : Request} {objectName : String}
    {sets : List (List Selection)} {group : FieldGroup}
    (collected : group ∈ request.collectFields objectName sets) : group.2 ≠ [] := by
  rcases request.collectFields_sorted objectName sets with ⟨collection, isResult, sorted⟩
  exact sorted.filled group (isResult ▸ collected)

theorem collectFields_selects {request : Request} {objectName : String}
    {sets : List (List Selection)} {group : FieldGroup} {field : Field}
    (collected : group ∈ request.collectFields objectName sets) (member : field ∈ group.2) :
    ∃ selections ∈ sets, request.document.Selects selections field := by
  rcases request.collectFields_sorted objectName sets with ⟨collection, isResult, sorted⟩
  exact (sorted.belongs group (isResult ▸ collected) field member).1

/-- What stands under a group nests less deep than the sets it was collected from. -/
theorem collectFields_nesting_lt {request : Request} (acyclic : request.document.Acyclic)
    {objectName : String} {sets : List (List Selection)} {group : FieldGroup}
    (collected : group ∈ request.collectFields objectName sets) :
    request.document.nesting (group.2.map Field.selections).flatten <
      request.document.nesting sets.flatten := by
  apply nestingOf_flatten_lt
  · intro isNil
    exact collectFields_ne_nil collected (List.map_eq_nil_iff.mp isNil)
  · intro selections member
    rcases List.mem_map.mp member with ⟨field, inGroup, equal⟩
    subst equal
    rcases collectFields_selects collected inGroup with ⟨source, isSource, selected⟩
    exact (acyclic.nesting_lt_of_selects selected).trans_le
      (nestingOf_mono _ fun _ inside => List.mem_flatten_of_mem isSource inside)

end Request

end GraphQL
