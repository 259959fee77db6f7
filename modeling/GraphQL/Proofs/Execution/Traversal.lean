import GraphQL.Execution.Collect
import GraphQL.Proofs.Document.Nesting
import GraphQL.Proofs.Named

/-!
Field collection in terms of the order in which it comes by fields: that of the document, with each
fragment at its first spread. The groups are the fields so met by response name, in the order of
first mention.
-/

namespace GraphQL

/-! ## Grouping -/

namespace Collection

def group (groups : List FieldGroup) (fields : List Field) : List FieldGroup :=
  fields.foldl
    (fun groups field => Named.put groups
      (field.responseName, (Named.value? groups field.responseName).getD [] ++ [field]))
    groups

private theorem group_append (groups : List FieldGroup) (left right : List Field) :
    group groups (left ++ right) = group (group groups left) right :=
  List.foldl_append

theorem value?_group (fields : List Field) (groups : List FieldGroup) (name : String) :
    (Named.value? (group groups fields) name).getD [] =
      (Named.value? groups name).getD [] ++
        fields.filter fun field => field.responseName == name := by
  induction fields generalizing groups with
  | nil => simp [group]
  | cons field fields induction =>
      rw [group, List.foldl_cons, ← group, induction, Named.value?_put]
      by_cases same : field.responseName = name <;> simp [same]

theorem names_group (fields : List Field) :
    Named.names (group [] fields) = (fields.map Field.responseName).eraseDups := by
  induction fields using List.reverseRecOn with
  | nil => rfl
  | append_singleton fields field induction =>
      have mentioned : field.responseName ∈ Named.names (group [] fields) ↔
          field.responseName ∈ fields.map Field.responseName := by
        rw [induction, List.mem_eraseDups]
      rw [group_append, group, List.foldl_cons, List.foldl_nil, Named.names_put, List.map_append,
        List.map_singleton, List.eraseDups_append, ← induction, List.removeAll, List.filter_singleton]
      cases known : (fields.map Field.responseName).elem field.responseName with
      | true =>
          have listed := mentioned.mpr (List.mem_of_elem_eq_true known)
          exact (if_pos listed).trans (List.append_nil _).symm
      | false =>
          have fresh := mt mentioned.mp fun member =>
            Bool.false_ne_true (known.symm.trans (List.elem_eq_true_of_mem member))
          exact if_neg fresh

end Collection

/-! ## The order of fields -/

namespace Request

/-- The fields that selections select on an object type, in the order in which they are met.
`visited` and `after` are the fragments that have been spread before and after. -/
inductive Traverses (request : Request) (objectName : String) :
    (visited : List String) → List Selection → List Field → (after : List String) → Prop
  | nil {visited : List String} : Traverses request objectName visited [] [] visited
  | field {visited after : List String} {node : Field} {rest : List Selection}
      {fields : List Field} (included : request.includes node.directives = true)
      (later : Traverses request objectName visited rest fields after) :
      Traverses request objectName visited (.field node :: rest) (node :: fields) after
  | leftOut {visited after : List String} {selection : Selection} {rest : List Selection}
      {fields : List Field} (excluded : request.includes selection.directives = false)
      (later : Traverses request objectName visited rest fields after) :
      Traverses request objectName visited (selection :: rest) fields after
  | again {visited after : List String} {spread : FragmentSpread} {rest : List Selection}
      {fields : List Field} (known : spread.name ∈ visited)
      (later : Traverses request objectName visited rest fields after) :
      Traverses request objectName visited (.spread spread :: rest) fields after
  | spread {visited between after : List String} {spread : FragmentSpread} {fragment : Fragment}
      {rest : List Selection} {inside fields : List Field}
      (included : request.includes spread.directives = true) (new : spread.name ∉ visited)
      (found : request.document.fragment? spread.name = some fragment)
      (applies : request.conditionHolds fragment.condition objectName = true)
      (within : Traverses request objectName (visited ++ [spread.name]) fragment.selections
        inside between)
      (later : Traverses request objectName between rest fields after) :
      Traverses request objectName visited (.spread spread :: rest) (inside ++ fields) after
  | spreadApart {visited after : List String} {spread : FragmentSpread} {rest : List Selection}
      {fields : List Field} (included : request.includes spread.directives = true)
      (new : spread.name ∉ visited)
      (apart : ∀ fragment, request.document.fragment? spread.name = some fragment →
        request.conditionHolds fragment.condition objectName = false)
      (later : Traverses request objectName (visited ++ [spread.name]) rest fields after) :
      Traverses request objectName visited (.spread spread :: rest) fields after
  | inline {visited between after : List String} {fragment : InlineFragment}
      {rest : List Selection} {inside fields : List Field}
      (included : request.includes fragment.directives = true)
      (applies : fragment.condition.all (request.conditionHolds · objectName) = true)
      (within : Traverses request objectName visited fragment.selections inside between)
      (later : Traverses request objectName between rest fields after) :
      Traverses request objectName visited (.inline fragment :: rest) (inside ++ fields) after
  | inlineApart {visited after : List String} {fragment : InlineFragment} {rest : List Selection}
      {fields : List Field} (included : request.includes fragment.directives = true)
      (apart : fragment.condition.all (request.conditionHolds · objectName) = false)
      (later : Traverses request objectName visited rest fields after) :
      Traverses request objectName visited (.inline fragment :: rest) fields after

variable {request : Request} {objectName : String}

private theorem Traverses.append {visited between after : List String} {left right : List Selection}
    {first second : List Field}
    (traverses : request.Traverses objectName visited left first between)
    (further : request.Traverses objectName between right second after) :
    request.Traverses objectName visited (left ++ right) (first ++ second) after := by
  induction traverses with
  | nil => exact further
  | field included _ induction => exact .field included (induction further)
  | leftOut excluded _ induction => exact .leftOut excluded (induction further)
  | again known _ induction => exact .again known (induction further)
  | spread included new found applies within _ _ induction =>
      rw [List.append_assoc]
      exact .spread included new found applies within (induction further)
  | spreadApart included new apart _ induction =>
      exact .spreadApart included new apart (induction further)
  | inline included applies within _ _ induction =>
      rw [List.append_assoc]
      exact .inline included applies within (induction further)
  | inlineApart included apart _ induction =>
      exact .inlineApart included apart (induction further)

private theorem Traverses.subset {visited after : List String} {selections : List Selection}
    {fields : List Field}
    (traverses : request.Traverses objectName visited selections fields after) :
    visited ⊆ after := by
  induction traverses with
  | nil => exact List.Subset.refl _
  | spread _ _ _ _ _ _ inside later =>
      exact fun name known => later (inside (List.mem_append_left _ known))
  | spreadApart _ _ _ _ later => exact fun name known => later (List.mem_append_left _ known)
  | inline _ _ _ _ inside later => exact fun name known => later (inside known)
  | _ => assumption

/-- There is one order in which the fields are met. -/
theorem Traverses.unique {visited after later : List String} {selections : List Selection}
    {fields others : List Field}
    (traverses : request.Traverses objectName visited selections fields after)
    (also : request.Traverses objectName visited selections others later) :
    others = fields ∧ later = after := by
  induction traverses generalizing others later with
  | nil =>
      cases also
      exact ⟨rfl, rfl⟩
  | field included _ induction =>
      cases also with
      | field _ rest => exact (induction rest).imp_left (congrArg _)
      | leftOut excluded _ => exact absurd included (Bool.eq_false_iff.mp excluded)
  | leftOut excluded _ induction =>
      have notIncluded := Bool.eq_false_iff.mp excluded
      cases also with
      | leftOut _ rest => exact induction rest
      | again _ rest => exact induction rest
      | field included _ => exact absurd included notIncluded
      | spread included _ _ _ _ _ => exact absurd included notIncluded
      | spreadApart included _ _ _ => exact absurd included notIncluded
      | inline included _ _ _ => exact absurd included notIncluded
      | inlineApart included _ _ => exact absurd included notIncluded
  | again known _ induction =>
      cases also with
      | leftOut _ rest => exact induction rest
      | again _ rest => exact induction rest
      | spread _ new _ _ _ _ => exact absurd known new
      | spreadApart _ new _ _ => exact absurd known new
  | spread included new found applies _ _ inside induction =>
      cases also with
      | leftOut excluded _ => exact absurd included (Bool.eq_false_iff.mp excluded)
      | again known _ => exact absurd known new
      | spreadApart _ _ apart _ => exact absurd applies (Bool.eq_false_iff.mp (apart _ found))
      | spread _ _ foundAlso _ within rest =>
          rw [found] at foundAlso
          cases foundAlso
          rcases inside within with ⟨rfl, rfl⟩
          exact (induction rest).imp_left (congrArg _)
  | spreadApart included new apart _ induction =>
      cases also with
      | leftOut excluded _ => exact absurd included (Bool.eq_false_iff.mp excluded)
      | again known _ => exact absurd known new
      | spreadApart _ _ _ rest => exact induction rest
      | spread _ _ found applies _ _ => exact absurd applies (Bool.eq_false_iff.mp (apart _ found))
  | inline included applies _ _ inside induction =>
      cases also with
      | leftOut excluded _ => exact absurd included (Bool.eq_false_iff.mp excluded)
      | inlineApart _ apart _ => exact absurd applies (Bool.eq_false_iff.mp apart)
      | inline _ _ within rest =>
          rcases inside within with ⟨rfl, rfl⟩
          exact (induction rest).imp_left (congrArg _)
  | inlineApart included apart _ induction =>
      cases also with
      | leftOut excluded _ => exact absurd included (Bool.eq_false_iff.mp excluded)
      | inline _ applies _ _ => exact absurd applies (Bool.eq_false_iff.mp apart)
      | inlineApart _ _ rest => exact induction rest

/-! ## Collection meets the fields in this order -/

/-- How many fragments have not been spread. -/
private def unspread (request : Request) (visited : List String) : Nat :=
  (request.document.fragments.filter fun fragment => !visited.contains fragment.name).length

private theorem unspread_mono {visited after : List String} (subset : visited ⊆ after) :
    request.unspread after ≤ request.unspread visited := by
  apply List.Sublist.length_le
  apply List.monotone_filter_right
  intro fragment isNew
  simp only [Bool.not_eq_true', List.contains_eq_mem, decide_eq_false_iff_not] at isNew ⊢
  exact fun known => isNew (subset known)

private theorem unspread_lt {visited : List String} {name : String} {fragment : Fragment}
    (found : request.document.fragment? name = some fragment) (new : name ∉ visited) :
    request.unspread (visited ++ [name]) < request.unspread visited := by
  have known := Document.fragment?_mem found
  have fewer : (request.document.fragments.filter fun fragment =>
      !(visited ++ [name]).contains fragment.name) =
      (request.document.fragments.filter fun fragment =>
        !visited.contains fragment.name).filter fun fragment => fragment.name != name := by
    rw [List.filter_filter]
    congr 1
    funext fragment
    by_cases same : fragment.name = name <;> simp [same]
  rw [unspread, unspread, fewer, List.length_filter_lt_length_iff_exists]
  exact ⟨fragment, by simp [known.1, known.2, new], by simp [known.2]⟩

/-- A way to take in fragments that goes through those that apply, as long as no more than a number
of them is new. -/
structure Follows (request : Request) (objectName : String) (nesting : Nat)
    (follow : String → Collection → Collection) : Prop where
  enters : ∀ name collection fragment, request.document.fragment? name = some fragment →
    request.conditionHolds fragment.condition objectName = true →
    request.unspread collection.visited < nesting →
    ∃ fields after,
      request.Traverses objectName collection.visited fragment.selections fields after ∧
        follow name collection = ⟨Collection.group collection.groups fields, after⟩
  passes : ∀ name collection,
    (∀ fragment, request.document.fragment? name = some fragment →
      request.conditionHolds fragment.condition objectName = false) →
    follow name collection = collection

mutual

private theorem addSelection_traverses {nesting : Nat} {follow : String → Collection → Collection}
    (follows : request.Follows objectName nesting follow) :
    (selection : Selection) → (collection : Collection) →
      request.unspread collection.visited ≤ nesting →
      ∃ fields after, request.Traverses objectName collection.visited [selection] fields after ∧
        Collection.addSelection request objectName follow selection collection =
          ⟨Collection.group collection.groups fields, after⟩
  | .field node, collection, _ => by
      rw [Collection.addSelection]
      cases included : request.includes node.directives with
      | true => exact ⟨[node], _, .field included .nil, rfl⟩
      | false => exact ⟨[], _, .leftOut included .nil, rfl⟩
  | .spread node, collection, bound => by
      rw [Collection.addSelection]
      cases included : request.includes node.directives with
      | false => exact ⟨[], _, .leftOut included .nil, rfl⟩
      | true =>
          by_cases known : node.name ∈ collection.visited
          · exact ⟨[], _, .again known .nil, by simp [known, Collection.group]⟩
          · rw [if_neg (by simp [known])]
            by_cases applies : ∃ fragment,
                request.document.fragment? node.name = some fragment ∧
                  request.conditionHolds fragment.condition objectName = true
            · rcases applies with ⟨fragment, found, applies⟩
              rcases follows.enters node.name
                  { collection with visited := collection.visited ++ [node.name] } fragment found
                  applies ((unspread_lt found known).trans_le bound) with
                ⟨fields, after, traverses, followed⟩
              have spread := Traverses.spread included known found applies traverses .nil
              rw [List.append_nil] at spread
              exact ⟨fields, after, spread, followed⟩
            · have apart : ∀ fragment, request.document.fragment? node.name = some fragment →
                  request.conditionHolds fragment.condition objectName = false := fun fragment found =>
                Bool.eq_false_iff.mpr fun holds => applies ⟨fragment, found, holds⟩
              exact ⟨[], _, .spreadApart included known apart .nil, follows.passes _ _ apart⟩
  | .inline ⟨position, condition, directives, under⟩, collection, bound => by
      rw [Collection.addSelection, Collection.addInline]
      cases included : request.includes directives with
      | false => exact ⟨[], _, .leftOut included .nil, rfl⟩
      | true =>
          cases applies : condition.all (request.conditionHolds · objectName) with
          | false => exact ⟨[], _, .inlineApart included applies .nil, rfl⟩
          | true =>
              rcases addSelections_traverses follows under collection bound with
                ⟨fields, after, traverses, added⟩
              have inline : request.Traverses objectName collection.visited
                  [.inline ⟨position, condition, directives, under⟩] (fields ++ []) after :=
                .inline included applies traverses .nil
              rw [List.append_nil] at inline
              exact ⟨fields, after, inline, added⟩

private theorem addSelections_traverses {nesting : Nat} {follow : String → Collection → Collection}
    (follows : request.Follows objectName nesting follow) :
    (selections : List Selection) → (collection : Collection) →
      request.unspread collection.visited ≤ nesting →
      ∃ fields after, request.Traverses objectName collection.visited selections fields after ∧
        Collection.addSelections request objectName follow selections collection =
          ⟨Collection.group collection.groups fields, after⟩
  | [], _, _ => ⟨[], _, .nil, rfl⟩
  | selection :: selections, collection, bound => by
      rcases addSelection_traverses follows selection collection bound with
        ⟨first, between, traverses, added⟩
      rcases addSelections_traverses follows selections ⟨_, between⟩
          ((unspread_mono traverses.subset).trans bound) with ⟨rest, after, further, addedRest⟩
      refine ⟨first ++ rest, after, traverses.append further, ?_⟩
      rw [Collection.addSelections, added, addedRest, Collection.group_append]

end

private theorem addFragment_follows (request : Request) (objectName : String) (nesting : Nat) :
    request.Follows objectName nesting (Collection.addFragment request objectName nesting) := by
  induction nesting with
  | zero => exact ⟨fun _ _ _ _ _ bound => absurd bound (Nat.not_lt_zero _), fun _ _ _ => rfl⟩
  | succ nesting induction =>
      constructor
      · intro name collection fragment found applies bound
        rw [Collection.addFragment, found]
        simp only [applies, if_true]
        exact addSelections_traverses induction fragment.selections collection
          (Nat.le_of_lt_succ bound)
      · intro name collection apart
        rw [Collection.addFragment]
        cases found : request.document.fragment? name with
        | none => rfl
        | some fragment => simp [apart fragment found]

private theorem foldl_addSelections (request : Request) (objectName : String)
    (follow : String → Collection → Collection) (sets : List (List Selection))
    (collection : Collection) :
    sets.foldl (fun collection selections =>
        collection.addSelections request objectName follow selections) collection =
      Collection.addSelections request objectName follow sets.flatten collection := by
  have append : ∀ (left right : List Selection) (collection : Collection),
      Collection.addSelections request objectName follow (left ++ right) collection =
        Collection.addSelections request objectName follow right
          (Collection.addSelections request objectName follow left collection) := by
    intro left right
    induction left with
    | nil => intro collection; rfl
    | cons head tail induction => intro collection; simp [Collection.addSelections, induction]
  induction sets generalizing collection with
  | nil => rfl
  | cons selections sets induction => rw [List.foldl_cons, induction, List.flatten_cons, append]

/-- Field collection groups the fields in the order in which they are met. No spread is followed in
vain. -/
theorem collectFields_traverses (request : Request) (objectName : String)
    (sets : List (List Selection)) :
    ∃ fields after, request.Traverses objectName [] sets.flatten fields after ∧
      request.collectFields objectName sets = Collection.group [] fields := by
  have bound : request.unspread ({} : Collection).visited ≤
      request.document.fragments.length + 1 :=
    (List.length_filter_le _ _).trans (Nat.le_succ _)
  rcases addSelections_traverses
      (request.addFragment_follows objectName (request.document.fragments.length + 1))
      sets.flatten {} bound with ⟨fields, after, traverses, added⟩
  refine ⟨fields, after, traverses, ?_⟩
  rw [collectFields, foldl_addSelections, added]

end Request

end GraphQL
