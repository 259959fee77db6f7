import GraphQL.Proofs.Document.Places
import GraphQL.Proofs.Execution.Traversal
import Mathlib.Data.List.Perm.Subperm

/-!
Field collection meets different nodes. The selection sets that it is given in an execution stand
under different operations and fields, and each fragment is gone through once, so no field node is
collected twice.
-/

namespace GraphQL

/-! ## Groups of fields -/

/-- Fields by response name, in the order of first mention. -/
def grouped (fields : List Field) : List FieldGroup :=
  (fields.map Field.responseName).eraseDups.map fun name =>
    (name, fields.filter fun field => field.responseName == name)

private theorem mem_grouped {fields : List Field} {group : FieldGroup}
    (member : group ∈ grouped fields) :
    group.2 = fields.filter fun field => field.responseName == group.1 := by
  rcases List.mem_map.mp member with ⟨name, _, rfl⟩
  rfl

private theorem Named.eq_map_names {α : Type} {entries : List (String × List α)}
    (distinct : (Named.names entries).Nodup) :
    entries =
      (Named.names entries).map fun name => (name, (Named.value? entries name).getD []) := by
  rw [Named.names, List.map_map]
  refine (List.map_id entries).symm.trans (List.map_congr_left fun entry member => ?_)
  have found : Named.value? entries (nameOf entry) = some entry.2 :=
    Named.value?_of_mem distinct member
  rw [Function.comp_apply, found]
  rfl

private theorem Collection.nodup_names_group (fields : List Field) {groups : List FieldGroup}
    (distinct : (Named.names groups).Nodup) : (Named.names (group groups fields)).Nodup := by
  induction fields generalizing groups with
  | nil => exact distinct
  | cons field fields induction => exact induction (Named.names_put_nodup distinct)

theorem Collection.group_eq_grouped (fields : List Field) : group [] fields = grouped fields := by
  have none : (Named.names ([] : List FieldGroup)).Nodup := List.nodup_nil
  rw [Named.eq_map_names (nodup_names_group fields none), names_group, grouped]
  refine List.map_congr_left fun name _ => ?_
  rw [value?_group]
  rfl

namespace Request

variable {request : Request} {objectName : String}

/-! ## Nodes that are gone through -/

/-- The fragments of some names, each with its selections. -/
private def fragmentNodes (document : Document) (names : List String) :
    List (Position × List Selection) :=
  names.filterMap fun name => (document.fragment? name).map fun fragment =>
    (fragment.position, fragment.selections)

private theorem fragmentNodes_append (document : Document) (left right : List String) :
    fragmentNodes document (left ++ right) =
      fragmentNodes document left ++ fragmentNodes document right :=
  List.filterMap_append

/-- The fields that are met stand in the selections, or in fragments that are new. -/
private theorem Traverses.subperm {visited after : List String} {selections : List Selection}
    {fields : List Field}
    (traverses : request.Traverses objectName visited selections fields after) :
    ∃ new, after = visited ++ new ∧ (visited.Nodup → after.Nodup) ∧
      fields.Subperm (ownFieldsOf selections ++
        (fragmentNodes request.document new).flatMap fun node => ownFieldsOf node.2) := by
  induction traverses with
  | nil => exact ⟨[], (List.append_nil _).symm, id, List.nil_subperm⟩
  | @field _ _ node _ _ _ _ induction =>
      rcases induction with ⟨new, rfl, nodup, subperm⟩
      exact ⟨new, rfl, nodup, (List.subperm_cons node).mpr subperm⟩
  | leftOut _ _ induction =>
      rcases induction with ⟨new, rfl, nodup, subperm⟩
      refine ⟨new, rfl, nodup, subperm.trans ?_⟩
      exact ((List.sublist_append_right _ _).append_right _).subperm
  | again _ _ induction => exact induction
  | @spread visited _ _ spread fragment rest _ _ _ new found _ _ _ within later =>
      rcases within with ⟨first, rfl, nodupInside, inside⟩
      rcases later with ⟨second, rfl, nodup, subperm⟩
      have entered : fragmentNodes request.document (spread.name :: (first ++ second)) =
          (fragment.position, fragment.selections) ::
            (fragmentNodes request.document first ++ fragmentNodes request.document second) := by
        rw [← fragmentNodes_append, fragmentNodes, List.filterMap_cons, found]
        rfl
      refine ⟨spread.name :: (first ++ second), by simp, fun distinct => nodup (nodupInside ?_), ?_⟩
      · exact distinct.append (List.nodup_singleton _) (List.disjoint_singleton.mpr new)
      · refine (inside.append subperm).trans ?_
        rw [entered, List.flatMap_cons, List.flatMap_append, ← List.append_assoc
          (ownFieldsOf fragment.selections)]
        exact (List.perm_append_comm_assoc _ _ _).subperm
  | @spreadApart _ _ spread _ _ _ new _ _ induction =>
      rcases induction with ⟨later, rfl, nodup, subperm⟩
      refine ⟨spread.name :: later, by simp, fun distinct => nodup ?_, subperm.trans ?_⟩
      · exact distinct.append (List.nodup_singleton _) (List.disjoint_singleton.mpr new)
      · have more : (fragmentNodes request.document later).Sublist
            (fragmentNodes request.document (spread.name :: later)) :=
          (List.sublist_cons_self _ _).filterMap _
        exact ((more.flatMap _).append_left _).subperm
  | @inline _ _ _ fragment rest _ _ _ _ _ _ within later =>
      rcases within with ⟨first, rfl, nodupInside, inside⟩
      rcases later with ⟨second, rfl, nodup, subperm⟩
      refine ⟨first ++ second, List.append_assoc _ _ _, nodup ∘ nodupInside, ?_⟩
      have own : ownFieldsOf (.inline fragment :: rest) =
          ownFieldsOf fragment.selections ++ ownFieldsOf rest := by
        cases fragment
        rfl
      refine (inside.append subperm).trans ?_
      rw [own, fragmentNodes_append, List.flatMap_append, List.append_assoc, List.append_assoc]
      exact ((List.perm_append_comm_assoc _ _ _).append_left _).subperm
  | inlineApart _ _ _ induction =>
      rcases induction with ⟨new, rfl, nodup, subperm⟩
      refine ⟨new, rfl, nodup, subperm.trans ?_⟩
      exact ((List.sublist_append_right _ _).append_right _).subperm

/-- Nodes with selections that are no fragments. -/
structure Outer (document : Document) (owners : List (Position × List Selection)) : Prop where
  apart : document.Apart owners
  noFragments : ∀ owner ∈ owners, ∀ name, (owner.1, .fragment name) ∉ document.places

private theorem mem_fragmentNodes {document : Document} {names : List String}
    {node : Position × List Selection} (member : node ∈ fragmentNodes document names) :
    ∃ name, document.Hosts node.1 node.2 (.fragment name) := by
  rcases List.mem_filterMap.mp member with ⟨name, _, isNode⟩
  rcases Option.map_eq_some_iff.mp isNode with ⟨fragment, found, rfl⟩
  exact ⟨fragment.name, Document.hosts_fragment (Document.fragment?_mem found).1⟩

private theorem nodup_fragmentNodes {document : Document} (distinct : document.positions.Nodup)
    {names : List String} (nodup : names.Nodup) :
    ((fragmentNodes document names).map Prod.fst).Nodup := by
  rw [fragmentNodes, List.map_filterMap]
  refine nodup.filterMap fun first second position isFirst isSecond => ?_
  simp only [Option.map_map, Option.mem_def, Option.map_eq_some_iff] at isFirst isSecond
  rcases isFirst with ⟨left, foundLeft, rfl⟩
  rcases isSecond with ⟨right, foundRight, samePosition⟩
  have ofLeft := Document.fragment?_mem foundLeft
  have ofRight := Document.fragment?_mem foundRight
  have standsLeft := (Document.hosts_fragment ofLeft.1).stands
  have standsRight := (Document.hosts_fragment ofRight.1).stands
  rw [show right.position = left.position from samePosition] at standsRight
  injection Document.place_unique distinct standsLeft standsRight with sameName
  rw [← ofLeft.2, ← ofRight.2, sameName]

/-- The operations and fields whose selections are gone through are different from the fragments
that are. -/
private theorem Outer.with_fragments {document : Document}
    {owners : List (Position × List Selection)}
    (outer : Outer document owners) (distinct : document.positions.Nodup) {names : List String}
    (nodup : names.Nodup) : document.Apart (owners ++ fragmentNodes document names) where
  distinct := by
    rw [List.map_append]
    refine outer.apart.distinct.append (nodup_fragmentNodes distinct nodup) fun position => ?_
    intro isOwner isFragment
    rcases List.mem_map.mp isOwner with ⟨owner, member, rfl⟩
    rcases List.mem_map.mp isFragment with ⟨node, isNode, samePosition⟩
    rcases mem_fragmentNodes isNode with ⟨name, hosts⟩
    exact outer.noFragments owner member name (samePosition ▸ hosts.stands)
  hosts := by
    intro owner member
    rcases List.mem_append.mp member with isOwner | isFragment
    · exact outer.apart.hosts owner isOwner
    · rcases mem_fragmentNodes isFragment with ⟨name, hosts⟩
      exact ⟨_, hosts⟩

/-- The fields that are collected from different nodes are different nodes. -/
theorem Traverses.nodes (distinct : request.document.positions.Nodup)
    {owners : List (Position × List Selection)} (outer : Outer request.document owners)
    {fields : List Field} {after : List String}
    (traverses : request.Traverses objectName [] (owners.map Prod.snd).flatten fields after) :
    (fields.map Field.position).Nodup ∧
      ∀ field ∈ fields, ∃ owner,
        request.document.Hosts field.position field.selections (.field owner) := by
  rcases traverses.subperm with ⟨names, isAfter, nodup, subperm⟩
  have apart := outer.with_fragments distinct (isAfter ▸ nodup List.nodup_nil)
  have all : ownFieldsOf (owners.map Prod.snd).flatten ++
      (fragmentNodes request.document names).flatMap (fun node => ownFieldsOf node.2) =
        (owners ++ fragmentNodes request.document names).flatMap fun owner =>
          ownFieldsOf owner.2 := by
    rw [ownFieldsOf_flatten, List.flatMap_map, List.flatMap_append]
  rw [all] at subperm
  constructor
  · rcases subperm with ⟨listed, permuted, sublist⟩
    exact (permuted.map _).nodup_iff.mp
      ((apart.nodup_ownFields distinct).sublist (sublist.map _))
  · intro field member
    rcases List.mem_flatMap.mp (subperm.subset member) with ⟨owner, isOwner, inside⟩
    rcases apart.hosts owner isOwner with ⟨_, hosts⟩
    exact ⟨owner.1, hosts.field inside⟩

/-! ## The selection sets of an execution -/

/-- The selection sets whose fields are collected in an execution: those of the operation, and those
of the fields of a group together. -/
inductive Gathers (request : Request) : List (List Selection) → Prop
  | operation : Gathers request [request.operation.selections]
  | group {sets : List (List Selection)} {objectName : String} {group : FieldGroup}
      (earlier : Gathers request sets)
      (collected : group ∈ request.collectFields objectName sets) :
      Gathers request (group.2.map Field.selections)

theorem Gathers.outer (distinct : request.document.positions.Nodup)
    (known : request.operation ∈ request.document.operations) {sets : List (List Selection)}
    (gathers : request.Gathers sets) :
    ∃ owners, owners.map Prod.snd = sets ∧ Outer request.document owners := by
  induction gathers with
  | operation =>
      have hosts := Document.hosts_operation known
      refine ⟨[(request.operation.position, request.operation.selections)], rfl, ⟨⟨?_, ?_⟩, ?_⟩⟩
      · exact List.nodup_singleton _
      · exact List.forall_mem_singleton.mpr ⟨_, hosts⟩
      · refine List.forall_mem_singleton.mpr fun name stands => ?_
        cases Document.place_unique distinct hosts.stands stands
  | @group sets objectName group earlier collected induction =>
      rcases induction with ⟨owners, rfl, outer⟩
      rcases request.collectFields_traverses objectName (owners.map Prod.snd) with
        ⟨fields, after, traverses, isResult⟩
      rw [isResult, Collection.group_eq_grouped] at collected
      have nodes := traverses.nodes distinct outer
      have inGroup := mem_grouped collected
      refine ⟨group.2.map fun field => (field.position, field.selections), ?_, ⟨⟨?_, ?_⟩, ?_⟩⟩
      · rw [List.map_map]
        rfl
      · rw [List.map_map, inGroup]
        exact nodes.1.sublist (List.filter_sublist.map _)
      · intro owner member
        rcases List.mem_map.mp member with ⟨field, isField, rfl⟩
        rcases nodes.2 field (List.mem_of_mem_filter (inGroup ▸ isField)) with ⟨_, hosts⟩
        exact ⟨_, hosts⟩
      · intro owner member name stands
        rcases List.mem_map.mp member with ⟨field, isField, rfl⟩
        rcases nodes.2 field (List.mem_of_mem_filter (inGroup ▸ isField)) with ⟨_, hosts⟩
        cases Document.place_unique distinct hosts.stands stands

end Request

end GraphQL
