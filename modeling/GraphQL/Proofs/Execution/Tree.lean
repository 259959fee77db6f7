import GraphQL.Execution.Tree
import GraphQL.Proofs.Named
import Mathlib.Data.List.Basic

/-!
How a tree of response nodes hangs together: every node but the root is listed by its parent under
the segment that ends its path, unless the parent has become null. A tree changes in two ways only.
A node without children is given content with new children, and a node becomes null.
-/

namespace GraphQL

/-- The nodes that a node lists, with the segments that lead to them. -/
def NodeContent.children : NodeContent → List (PathSegment × NodeId)
  | .root children => children.map fun child => (.key child.1, child.2)
  | .object children => children.map fun child => (.key child.1, child.2)
  | .array items => items.zipIdx.map fun item => (.index item.2, item.1)
  | .pending => []
  | .leaf _ => []
  | .null => []

/-- The JSON of content, given that of its children. -/
def NodeContent.shown (value : NodeId → Json) : NodeContent → Json
  | .root children => .object (children.map fun child => (child.1, value child.2))
  | .object children => .object (children.map fun child => (child.1, value child.2))
  | .array items => .array (items.map value)
  | .leaf json => json
  | .pending => .null
  | .null => .null

/-- What content shows depends only on what its children show. -/
theorem NodeContent.shown_congr {content : NodeContent} {value other : NodeId → Json}
    (same : ∀ segment child, (segment, child) ∈ content.children → value child = other child) :
    content.shown value = content.shown other := by
  have fields : ∀ children : List (String × NodeId),
      (∀ segment child, (segment, child) ∈
        children.map (fun child => (PathSegment.key child.1, child.2)) →
          value child = other child) →
      children.map (fun child => (child.1, value child.2)) =
        children.map fun child => (child.1, other child.2) := by
    intro children sameFields
    apply List.map_congr_left
    intro child listed
    rw [sameFields (.key child.1) child.2 (List.mem_map.mpr ⟨child, listed, rfl⟩)]
  cases content with
  | root children => exact congrArg Json.object (fields children same)
  | object children => exact congrArg Json.object (fields children same)
  | array items =>
      apply congrArg Json.array
      apply List.map_congr_left
      intro item listed
      rcases List.getElem?_of_mem listed with ⟨index, stands⟩
      exact same (.index index) item (List.mem_map.mpr
        ⟨(item, index), List.mk_mem_zipIdx_iff_getElem?.mpr stands, rfl⟩)
  | pending => rfl
  | leaf value => rfl
  | null => rfl

namespace Tree

/-! ## Looking up nodes -/

theorem node?_lt {tree : Tree} {id : NodeId} {node : Node} (found : tree.node? id = some node) :
    id < tree.nodes.size :=
  (Array.getElem?_eq_some_iff.mp found).1

theorem exists_node {tree : Tree} {id : NodeId} (known : id < tree.nodes.size) :
    ∃ node, tree.node? id = some node :=
  ⟨_, Array.getElem?_eq_getElem known⟩

theorem path_eq {tree : Tree} {id : NodeId} {node : Node} (found : tree.node? id = some node) :
    tree.path id = node.path := by
  rw [path, found]
  rfl

private theorem node?_set (tree : Tree) (id other : NodeId) (content : NodeContent) :
    (tree.set id content).node? other =
      if other = id then (tree.node? id).map fun node => { node with content := content }
      else tree.node? other := by
  by_cases same : other = id
  · subst same
    rw [if_pos rfl, node?, set, Array.getElem?_modify, if_pos rfl]
    rfl
  · rw [if_neg same, node?, set, Array.getElem?_modify, if_neg fun equal => same equal.symm]
    rfl

theorem node?_set_self {tree : Tree} {id : NodeId} {node : Node}
    (found : tree.node? id = some node) (content : NodeContent) :
    (tree.set id content).node? id = some { node with content := content } := by
  rw [node?_set, if_pos rfl, found]
  rfl

theorem node?_set_of_ne (tree : Tree) {id other : NodeId} (different : other ≠ id)
    (content : NodeContent) : (tree.set id content).node? other = tree.node? other := by
  rw [node?_set, if_neg different]

private theorem set_size (tree : Tree) (id : NodeId) (content : NodeContent) :
    (tree.set id content).nodes.size = tree.nodes.size :=
  Array.size_modify

/-! ## Attaching children -/

/-- A child that is about to be attached. -/
structure Sprout where
  segment : PathSegment
  type : TypeRef
  content : NodeContent

/-- The node of a child. -/
def grow (tree : Tree) (parent : NodeId) (sprout : Sprout) : Node :=
  ⟨sprout.content, some parent, some sprout.type, tree.path parent ++ [sprout.segment]⟩

/-- Give a node content with new children, which are numbered from the size of the tree. -/
def attach (tree : Tree) (parent : NodeId) (content : NodeContent) (sprouts : List Sprout) :
    Tree :=
  { tree with nodes := tree.nodes ++ (sprouts.map (tree.grow parent)).toArray }.set parent content

theorem attach_size (tree : Tree) (parent : NodeId) (content : NodeContent)
    (sprouts : List Sprout) :
    (tree.attach parent content sprouts).nodes.size = tree.nodes.size + sprouts.length := by
  rw [attach, set_size]
  simp

theorem node?_attach_self {tree : Tree} {parent : NodeId} {node : Node}
    (found : tree.node? parent = some node) (content : NodeContent) (sprouts : List Sprout) :
    (tree.attach parent content sprouts).node? parent =
      some { node with content := content } := by
  apply node?_set_self
  rw [node?, Array.getElem?_append_left (node?_lt found)]
  exact found

private theorem node?_attach_of_ne {tree : Tree} {parent id : NodeId} (known : id < tree.nodes.size)
    (different : id ≠ parent) (content : NodeContent) (sprouts : List Sprout) :
    (tree.attach parent content sprouts).node? id = tree.node? id := by
  rw [attach, node?_set_of_ne _ different, node?, Array.getElem?_append_left known]
  rfl

theorem node?_attach_old {tree : Tree} {parent id : NodeId} {node : Node}
    (found : tree.node? id = some node) (different : id ≠ parent) (content : NodeContent)
    (sprouts : List Sprout) : (tree.attach parent content sprouts).node? id = some node := by
  rw [node?_attach_of_ne (node?_lt found) different]
  exact found

theorem node?_attach_new {tree : Tree} {parent : NodeId} (known : parent < tree.nodes.size)
    (content : NodeContent) (sprouts : List Sprout) (index : Nat) :
    (tree.attach parent content sprouts).node? (tree.nodes.size + index) =
      (sprouts[index]?).map (tree.grow parent) := by
  rw [attach, node?_set_of_ne _ (Nat.ne_of_gt (Nat.lt_add_right index known)),
    node?,
    Array.getElem?_append_right (Nat.le_add_right _ _)]
  simp

/-- A node of a tree with new children is an old one, the parent itself, or a child. -/
theorem node?_attach_cases {tree : Tree} {parent id : NodeId} {content : NodeContent}
    {sprouts : List Sprout} {above node : Node} (foundParent : tree.node? parent = some above)
    (found : (tree.attach parent content sprouts).node? id = some node) :
    (id ≠ parent ∧ tree.node? id = some node) ∨
    (id = parent ∧ node = { above with content := content }) ∨
    (∃ index sprout, id = tree.nodes.size + index ∧ sprouts[index]? = some sprout ∧
      node = tree.grow parent sprout) := by
  by_cases same : id = parent
  · subst same
    rw [node?_attach_self foundParent] at found
    exact .inr (.inl ⟨rfl, (Option.some.inj found).symm⟩)
  · by_cases known : id < tree.nodes.size
    · rw [node?_attach_of_ne known same] at found
      exact .inl ⟨same, found⟩
    · have isNew : id = tree.nodes.size + (id - tree.nodes.size) :=
        (Nat.add_sub_of_le (Nat.not_lt.mp known)).symm
      rw [isNew, node?_attach_new (node?_lt foundParent)] at found
      rcases Option.map_eq_some_iff.mp found with ⟨sprout, listed, grown⟩
      exact .inr (.inr ⟨_, sprout, isNew, listed, grown.symm⟩)

theorem attach_nil (tree : Tree) (id : NodeId) (content : NodeContent) :
    tree.attach id content [] = tree.set id content := by
  simp [attach]

private theorem path_attach {tree : Tree} {parent id : NodeId} (known : id < tree.nodes.size)
    (knownParent : parent < tree.nodes.size) (content : NodeContent) (sprouts : List Sprout) :
    (tree.attach parent content sprouts).path id = tree.path id := by
  by_cases same : id = parent
  · subst same
    rcases exists_node known with ⟨node, found⟩
    rw [path_eq found, path_eq (node?_attach_self found _ _)]
  · rw [path, node?_attach_of_ne known same, path]

private theorem modify_push {α : Type} (values : Array α) {index : Nat}
    (inside : index < values.size) (change : α → α) (value : α) :
    (values.modify index change).push value = (values.push value).modify index change := by
  apply Array.ext_getElem?
  intro other
  simp only [Array.getElem?_modify, Array.getElem?_push, Array.size_modify]
  by_cases isLast : other = values.size
  · rw [if_pos isLast, if_pos isLast, if_neg (by omega)]
  · rw [if_neg isLast, if_neg isLast]

private theorem push_modify_last {α : Type} (values : Array α) (change : α → α) (value : α) :
    (values.push value).modify values.size change = values.push (change value) := by
  apply Array.ext_getElem?
  intro other
  simp only [Array.getElem?_modify, Array.getElem?_push]
  by_cases isLast : other = values.size
  · rw [if_pos isLast.symm, if_pos isLast, if_pos isLast]
    rfl
  · rw [if_neg fun equal => isLast equal.symm, if_neg isLast, if_neg isLast]

private theorem set_attach (tree : Tree) (parent : NodeId) (content later : NodeContent)
    (sprouts : List Sprout) :
    (tree.attach parent content sprouts).set parent later = tree.attach parent later sprouts := by
  simp only [attach, set, Tree.mk.injEq, and_true]
  apply Array.ext_getElem?
  intro other
  simp only [Array.getElem?_modify]
  by_cases same : parent = other
  · simp [same, Function.comp_def]
  · simp [same]

private theorem attach_concat (tree : Tree) {parent : NodeId} (known : parent < tree.nodes.size)
    (content : NodeContent) (sprouts : List Sprout) (sprout : Sprout) :
    (tree.attach parent content (sprouts ++ [sprout])).nodes =
      (tree.attach parent content sprouts).nodes.push (tree.grow parent sprout) := by
  simp only [attach, set]
  rw [modify_push _ (by simpa using Nat.lt_add_right _ known)]
  simp

/-- A child may be pushed later. -/
private theorem push_attach (tree : Tree) {parent : NodeId} (known : parent < tree.nodes.size)
    (content : NodeContent) (sprouts : List Sprout) (segment : PathSegment) (type : TypeRef) :
    (tree.attach parent content sprouts).push parent segment type =
      (tree.nodes.size + sprouts.length,
        tree.attach parent content (sprouts ++ [⟨segment, type, .pending⟩])) := by
  have nodes := tree.attach_concat known content sprouts ⟨segment, type, .pending⟩
  rw [push, attach_size, path_attach known known, Prod.mk.injEq]
  refine ⟨rfl, ?_⟩
  rw [grow] at nodes
  rw [← nodes]
  rfl

/-- The last child may be given content later. -/
theorem set_last_attach (tree : Tree) {parent : NodeId} (known : parent < tree.nodes.size)
    (content before after : NodeContent) (sprouts : List Sprout) (segment : PathSegment)
    (type : TypeRef) :
    (tree.attach parent content (sprouts ++ [⟨segment, type, before⟩])).set
        (tree.nodes.size + sprouts.length) after =
      tree.attach parent content (sprouts ++ [⟨segment, type, after⟩]) := by
  have sizes := tree.attach_size parent content sprouts
  have nodes := tree.attach_concat known content sprouts
  rw [set, nodes, ← sizes, push_modify_last]
  have last := nodes ⟨segment, type, after⟩
  rw [grow] at last
  rw [grow, ← last]
  rfl

private theorem set_self {tree : Tree} {id : NodeId} {node : Node}
    (found : tree.node? id = some node) :
    tree.set id node.content = tree := by
  have same : (tree.set id node.content).nodes = tree.nodes := by
    apply Array.ext_getElem?
    intro other
    by_cases isHere : other = id
    · subst isHere
      exact (node?_set_self found _).trans found.symm
    · exact node?_set_of_ne tree isHere _
  exact congrArg (Tree.mk · tree.dataIsNull) same

/-- The content of an object, or of the root. -/
def fieldsContent (isRoot : Bool) (children : List (String × NodeId)) : NodeContent :=
  if isRoot then .root children else .object children

theorem fieldsContent_children (isRoot : Bool) (children : List (String × NodeId)) :
    (fieldsContent isRoot children).children =
      children.map fun child => (.key child.1, child.2) := by
  cases isRoot <;> rfl

theorem makeObject_eq {tree : Tree} {id : NodeId} {isRoot : Bool} {node : Node}
    (found : tree.node? id = some node)
    (isOpen : node.content = if isRoot then .root [] else .pending) :
    tree.makeObject id = tree.attach id (fieldsContent isRoot []) [] := by
  rw [attach_nil, makeObject, found]
  cases isRoot with
  | false =>
      rw [if_neg Bool.false_ne_true] at isOpen
      simp only [Option.map_some, isOpen]
      rfl
  | true =>
      rw [if_pos rfl] at isOpen
      have unchanged := set_self found
      simp only [Option.map_some, isOpen] at unchanged ⊢
      exact unchanged.symm

/-- A field with a new name is attached. -/
theorem addField_attach (tree : Tree) {parent : NodeId} (known : parent < tree.nodes.size)
    (isRoot : Bool) {children : List (String × NodeId)} (sprouts : List Sprout) {name : String}
    (fresh : name ∉ Named.names children) (type : TypeRef) :
    (tree.attach parent (fieldsContent isRoot children) sprouts).addField parent name type =
      (tree.nodes.size + sprouts.length,
        tree.attach parent
          (fieldsContent isRoot (children ++ [(name, tree.nodes.size + sprouts.length)]))
          (sprouts ++ [⟨.key name, type, .pending⟩])) := by
  rcases exists_node known with ⟨node, found⟩
  have appended : Named.put children (name, tree.nodes.size + sprouts.length) =
      children ++ [(name, tree.nodes.size + sprouts.length)] := Named.put_eq_append fresh
  rw [addField, push_attach tree known]
  simp only [Prod.mk.injEq, true_and]
  rw [node?_attach_self found]
  cases isRoot with
  | false =>
      simp only [Option.map_some, fieldsContent, Bool.false_eq_true, if_false]
      rw [set_attach, appended]
  | true =>
      simp only [Option.map_some, fieldsContent, if_true]
      rw [set_attach, appended]

/-- The children of a list. -/
def itemSprouts (type : TypeRef) (start count : Nat) : List Sprout :=
  (List.range' start count).map fun index => ⟨.index index, type, .pending⟩

private theorem pushItems_attach (tree : Tree) {parent : NodeId} (known : parent < tree.nodes.size)
    (content : NodeContent) (type : TypeRef) (count : Nat) :
    ∀ (start : Nat) (sprouts : List Sprout),
      (tree.attach parent content sprouts).pushItems parent type start count =
        (List.range' (tree.nodes.size + sprouts.length) count,
          tree.attach parent content (sprouts ++ itemSprouts type start count)) := by
  induction count with
  | zero =>
      intro start sprouts
      simp [pushItems, itemSprouts]
  | succ count induction =>
      intro start sprouts
      rw [pushItems, push_attach tree known]
      simp only
      rw [induction (start + 1)]
      simp [itemSprouts, List.range'_succ, Nat.add_assoc]

theorem addItems_eq {tree : Tree} {parent : NodeId} {node : Node}
    (found : tree.node? parent = some node) (type : TypeRef) (count : Nat) :
    tree.addItems parent type count =
      (List.range' tree.nodes.size count,
        tree.attach parent (.array (List.range' tree.nodes.size count))
          (itemSprouts type 0 count)) := by
  have start : tree = tree.attach parent node.content [] := by
    rw [attach_nil, set_self found]
  have pushed := tree.pushItems_attach (node?_lt found) node.content type count 0 []
  rw [← start] at pushed
  rw [addItems, pushed]
  simp only [List.length_nil, Nat.add_zero, List.nil_append, set_attach]

/-! ## Well-formed trees -/

/-- A node hangs below its parent. -/
structure Hangs (tree : Tree) (id : NodeId) (node : Node) (top : NodeId) (above : Node)
    (segment : PathSegment) (type : TypeRef) : Prop where
  isParent : node.parent = some top
  smaller : top < id
  foundAbove : tree.node? top = some above
  typed : node.type = some type
  path : node.path = above.path ++ [segment]
  listed : (segment, id) ∈ above.content.children ∨ above.content = .null

structure WellFormed (tree : Tree) : Prop where
  root : ∃ fields, tree.node? rootId = some ⟨.root fields, none, none, []⟩
  hangs : ∀ {id node}, id ≠ rootId → tree.node? id = some node →
    ∃ parent above segment type, tree.Hangs id node parent above segment type
  child : ∀ {id node segment child}, tree.node? id = some node →
    (segment, child) ∈ node.content.children →
    ∃ below, tree.node? child = some below ∧ below.parent = some id ∧
      below.path = node.path ++ [segment]
  distinct : ∀ {id node}, tree.node? id = some node →
    (node.content.children.map Prod.fst).Nodup

/-- Content that may be given to no node yet: a pending node, and the root without fields. -/
inductive Open : NodeContent → Prop
  | pending : Open .pending
  | root : Open (.root [])

private theorem Open.childless {content : NodeContent} (isOpen : Open content) :
    content.children = [] := by
  cases isOpen <;> rfl

theorem Open.ne_null {content : NodeContent} (isOpen : Open content) : content ≠ .null := by
  cases isOpen <;> simp

namespace WellFormed

variable {tree : Tree} (formed : tree.WellFormed)

include formed

theorem parent_lt {id parent : NodeId} {node : Node} (found : tree.node? id = some node)
    (isParent : node.parent = some parent) : parent < id := by
  by_cases isRoot : id = rootId
  · rcases formed.root with ⟨fields, foundRoot⟩
    rw [isRoot, foundRoot, Option.some.injEq] at found
    subst found
    cases isParent
  · rcases formed.hangs isRoot found with ⟨_, _, _, _, hanging⟩
    rw [hanging.isParent, Option.some.injEq] at isParent
    exact isParent ▸ hanging.smaller

theorem lt_child {id child : NodeId} {node : Node} {segment : PathSegment}
    (found : tree.node? id = some node) (listed : (segment, child) ∈ node.content.children) :
    id < child := by
  rcases formed.child found listed with ⟨below, foundChild, isParent, _⟩
  exact formed.parent_lt foundChild isParent

theorem ne_root_of_parent {id parent : NodeId} {node : Node} (found : tree.node? id = some node)
    (isParent : node.parent = some parent) : id ≠ rootId := by
  intro isRoot
  have smaller := formed.parent_lt found isParent
  rw [isRoot] at smaller
  exact absurd smaller (Nat.not_lt_zero _)

/-- Nothing hangs below an open node. -/
theorem not_parent_of_open {id other : NodeId} {node below : Node}
    (found : tree.node? id = some node) (isOpen : Open node.content)
    (foundBelow : tree.node? other = some below) : below.parent ≠ some id := by
  intro isParent
  have notRoot := formed.ne_root_of_parent foundBelow isParent
  rcases formed.hangs notRoot foundBelow with ⟨top, above, segment, type, hanging⟩
  have sameTop : top = id := by
    rw [hanging.isParent, Option.some.injEq] at isParent
    exact isParent
  have sameAbove : above = node := by
    rw [sameTop] at hanging
    exact Option.some.inj (hanging.foundAbove.symm.trans found)
  rcases hanging.listed with listed | isNull
  · rw [sameAbove, isOpen.childless] at listed
    cases listed
  · exact isOpen.ne_null (sameAbove ▸ isNull)

end WellFormed

theorem empty_wellFormed : empty.WellFormed := by
  have only : ∀ {id node}, empty.node? id = some node →
      id = rootId ∧ node = ⟨.root [], none, none, []⟩ := by
    intro id node found
    cases id with
    | zero => exact ⟨rfl, (Option.some.inj found).symm⟩
    | succ id => cases found
  refine ⟨⟨[], rfl⟩, ?_, ?_, ?_⟩
  · intro id node notRoot found
    exact absurd (only found).1 notRoot
  · intro id node segment child found listed
    rw [(only found).2] at listed
    cases listed
  · intro id node found
    rw [(only found).2]
    exact List.nodup_nil

/-- What makes it right to attach children to a node. -/
structure Fits (tree : Tree) (node : Node) (content : NodeContent) (sprouts : List Sprout) :
    Prop where
  isOpen : Open node.content
  isRoot : node.content = .root [] → ∃ fields, content = .root fields
  lists : content.children =
    (sprouts.zipIdx tree.nodes.size).map fun sprout => (sprout.1.segment, sprout.2)
  distinct : (sprouts.map Sprout.segment).Nodup
  childless : ∀ sprout ∈ sprouts, sprout.content.children = []

private theorem Fits.child_iff {tree : Tree} {node : Node} {content : NodeContent}
    {sprouts : List Sprout} (fits : tree.Fits node content sprouts) {segment : PathSegment}
    {child : NodeId} :
    (segment, child) ∈ content.children ↔
      ∃ index sprout, child = tree.nodes.size + index ∧ sprouts[index]? = some sprout ∧
        sprout.segment = segment := by
  rw [fits.lists]
  constructor
  · intro listed
    rcases List.mem_map.mp listed with ⟨⟨sprout, id⟩, numbered, equal⟩
    rw [Prod.mk.injEq] at equal
    have stands := List.mk_mem_zipIdx_iff_le_and_getElem?_sub.mp numbered
    refine ⟨child - tree.nodes.size, sprout, ?_, equal.2 ▸ stands.2, equal.1⟩
    exact (Nat.add_sub_of_le (equal.2 ▸ stands.1)).symm
  · rintro ⟨index, sprout, isChild, stands, isSegment⟩
    refine List.mem_map.mpr ⟨(sprout, child), ?_, by rw [isSegment]⟩
    rw [isChild]
    exact List.mk_add_mem_zipIdx_iff_getElem?.mpr stands

namespace WellFormed

section Attach

variable {tree : Tree} (formed : tree.WellFormed) {id : NodeId} {node : Node}
  {content : NodeContent} {sprouts : List Sprout} (found : tree.node? id = some node)
  (fits : tree.Fits node content sprouts)

include formed found fits

private theorem attach_root :
    ∃ fields, (tree.attach id content sprouts).node? rootId =
      some ⟨.root fields, none, none, []⟩ := by
  rcases formed.root with ⟨fields, foundRoot⟩
  by_cases isRoot : id = rootId
  · subst isRoot
    have nodeIs : node = ⟨.root fields, none, none, []⟩ :=
      Option.some.inj (found.symm.trans foundRoot)
    have isOpen := fits.isOpen
    rw [nodeIs] at isOpen
    cases isOpen
    rcases fits.isRoot (by rw [nodeIs]) with ⟨newFields, isContent⟩
    exact ⟨newFields, by rw [node?_attach_self found, nodeIs, isContent]⟩
  · exact ⟨fields, node?_attach_old foundRoot (fun equal => isRoot equal.symm) _ _⟩

private theorem attach_hangs {low : NodeId} {below : Node} (notRoot : low ≠ rootId)
    (foundLow : (tree.attach id content sprouts).node? low = some below) :
    ∃ parent above segment type,
      (tree.attach id content sprouts).Hangs low below parent above segment type := by
  rcases node?_attach_cases found foundLow with ⟨different, foundOld⟩ | ⟨isHere, belowIs⟩ |
      ⟨index, sprout, isNew, stands, belowIs⟩
  · rcases formed.hangs notRoot foundOld with ⟨top, above, segment, type, hanging⟩
    have topOther : top ≠ id := fun equal =>
      formed.not_parent_of_open found fits.isOpen foundOld (equal ▸ hanging.isParent)
    exact ⟨top, above, segment, type, hanging.isParent, hanging.smaller,
      node?_attach_old hanging.foundAbove topOther _ _, hanging.typed, hanging.path,
      hanging.listed⟩
  · subst isHere
    rcases formed.hangs notRoot found with ⟨top, above, segment, type, hanging⟩
    subst belowIs
    exact ⟨top, above, segment, type, hanging.isParent, hanging.smaller,
      node?_attach_old hanging.foundAbove (Nat.ne_of_lt hanging.smaller) _ _, hanging.typed,
      hanging.path, hanging.listed⟩
  · subst belowIs
    refine ⟨id, _, sprout.segment, sprout.type, rfl, ?_, node?_attach_self found _ _, rfl, ?_, ?_⟩
    · rw [isNew]
      exact Nat.lt_add_right index (node?_lt found)
    · rw [grow, path_eq found]
    · exact .inl (fits.child_iff.mpr ⟨index, sprout, isNew, stands, rfl⟩)

private theorem attach_child {high child : NodeId} {above : Node} {segment : PathSegment}
    (foundHigh : (tree.attach id content sprouts).node? high = some above)
    (listed : (segment, child) ∈ above.content.children) :
    ∃ below, (tree.attach id content sprouts).node? child = some below ∧
      below.parent = some high ∧ below.path = above.path ++ [segment] := by
  rcases node?_attach_cases found foundHigh with ⟨different, foundOld⟩ | ⟨isHere, aboveIs⟩ |
      ⟨index, sprout, isNew, stands, aboveIs⟩
  · rcases formed.child foundOld listed with ⟨below, foundChild, isParent, isPath⟩
    by_cases isHere : child = id
    · subst isHere
      rw [found, Option.some.injEq] at foundChild
      subst foundChild
      exact ⟨_, node?_attach_self found _ _, isParent, isPath⟩
    · exact ⟨below, node?_attach_old foundChild isHere _ _, isParent, isPath⟩
  · subst isHere
    subst aboveIs
    rcases fits.child_iff.mp listed with ⟨index, sprout, isChild, stands, isSegment⟩
    refine ⟨tree.grow high sprout, ?_, rfl, by rw [grow, path_eq found, isSegment]⟩
    rw [isChild, node?_attach_new (node?_lt found), stands]
    rfl
  · subst aboveIs
    rw [grow, fits.childless sprout (List.mem_of_getElem? stands)] at listed
    cases listed

private theorem attach_distinct {high : NodeId} {above : Node}
    (foundHigh : (tree.attach id content sprouts).node? high = some above) :
    (above.content.children.map Prod.fst).Nodup := by
  rcases node?_attach_cases found foundHigh with ⟨different, foundOld⟩ | ⟨isHere, aboveIs⟩ |
      ⟨index, sprout, isNew, stands, aboveIs⟩
  · exact formed.distinct foundOld
  · subst aboveIs
    rw [fits.lists, List.map_map]
    have segments : (sprouts.zipIdx tree.nodes.size).map
        (Prod.fst ∘ fun sprout : Sprout × Nat => (sprout.1.segment, sprout.2)) =
        sprouts.map Sprout.segment := by
      conv_rhs => rw [← List.zipIdx_map_fst tree.nodes.size sprouts, List.map_map]
      rfl
    rw [segments]
    exact fits.distinct
  · subst aboveIs
    rw [grow, fits.childless sprout (List.mem_of_getElem? stands)]
    exact List.nodup_nil

theorem attach : (tree.attach id content sprouts).WellFormed where
  root := formed.attach_root found fits
  hangs := formed.attach_hangs found fits
  child := formed.attach_child found fits
  distinct := formed.attach_distinct found fits

end Attach

end WellFormed

/-! ## Nulls -/

private theorem WellFormed.set_null {tree : Tree} (formed : tree.WellFormed) {id : NodeId}
    (notRoot : id ≠ rootId) : (tree.set id .null).WellFormed := by
  have before : ∀ {other kept}, (tree.set id .null).node? other = some kept →
      ∃ node, tree.node? other = some node ∧
        (kept = node ∨ (other = id ∧ kept = { node with content := .null })) := by
    intro other kept foundKept
    by_cases same : other = id
    · rw [node?_set, if_pos same] at foundKept
      rcases Option.map_eq_some_iff.mp foundKept with ⟨node, found, isKept⟩
      exact ⟨node, same ▸ found, .inr ⟨same, isKept.symm⟩⟩
    · rw [node?_set_of_ne _ same] at foundKept
      exact ⟨kept, foundKept, .inl rfl⟩
  have after : ∀ {other node}, tree.node? other = some node →
      ∃ content, (tree.set id .null).node? other = some { node with content := content } ∧
        (content = node.content ∨ content = .null) := by
    intro other node found
    by_cases same : other = id
    · subst same
      exact ⟨.null, node?_set_self found _, .inr rfl⟩
    · exact ⟨node.content, (node?_set_of_ne _ same _).trans found, .inl rfl⟩
  refine ⟨?_, ?_, ?_, ?_⟩
  · rcases formed.root with ⟨fields, foundRoot⟩
    exact ⟨fields, (node?_set_of_ne _ (fun equal => notRoot equal.symm) _).trans foundRoot⟩
  · intro low kept lowNotRoot foundLow
    rcases before foundLow with ⟨node, found, isKept⟩
    rcases formed.hangs lowNotRoot found with ⟨top, above, segment, type, hanging⟩
    rcases after hanging.foundAbove with ⟨content, foundAbove, isContent⟩
    have listed : (segment, low) ∈ content.children ∨ content = .null := by
      rcases isContent with same | isNull
      · exact same ▸ hanging.listed
      · exact .inr isNull
    refine ⟨top, _, segment, type, ?_, hanging.smaller, foundAbove, ?_, ?_, listed⟩
    · rcases isKept with equal | ⟨_, equal⟩ <;> exact equal ▸ hanging.isParent
    · rcases isKept with equal | ⟨_, equal⟩ <;> exact equal ▸ hanging.typed
    · rcases isKept with equal | ⟨_, equal⟩ <;> exact equal ▸ hanging.path
  · intro high kept segment child foundHigh listed
    rcases before foundHigh with ⟨node, found, equal | ⟨_, equal⟩⟩
    · subst equal
      rcases formed.child found listed with ⟨below, foundChild, isParent, isPath⟩
      rcases after foundChild with ⟨content, foundAfter, _⟩
      exact ⟨_, foundAfter, isParent, isPath⟩
    · subst equal
      cases listed
  · intro high kept foundHigh
    rcases before foundHigh with ⟨node, found, equal | ⟨_, equal⟩⟩
    · exact equal ▸ formed.distinct found
    · exact equal ▸ List.nodup_nil

/-- What fits to a pending node that gets no children. -/
theorem Fits.ofChildless {tree : Tree} {node : Node} {content : NodeContent}
    (isPending : node.content = .pending) (childless : content.children = []) :
    tree.Fits node content [] where
  isOpen := isPending ▸ .pending
  isRoot isRoot := by rw [isPending] at isRoot; cases isRoot
  lists := by rw [childless]; rfl
  distinct := List.nodup_nil
  childless := by simp

private theorem nullAbove_eq {tree : Tree} (formed : tree.WellFormed) (id : NodeId) :
    ∀ steps, id < steps → tree.nullAbove steps id = tree.nullAbove (id + 1) id := by
  induction id using Nat.strongRecOn with
  | ind id induction =>
      intro steps enough
      cases steps with
      | zero => exact absurd enough (Nat.not_lt_zero _)
      | succ steps =>
          rw [nullAbove, nullAbove]
          cases found : tree.node? id with
          | none => rfl
          | some node =>
              have rest : node.parent.any (tree.nullAbove steps) =
                  node.parent.any (tree.nullAbove id) := by
                cases isParent : node.parent with
                | none => rfl
                | some parent =>
                    have smaller := formed.parent_lt found isParent
                    rw [Option.any_some, Option.any_some,
                      induction parent smaller steps
                        (Nat.lt_of_lt_of_le smaller (Nat.le_of_lt_succ enough)),
                      induction parent smaller id smaller]
              simp only [rest]

/-- A node is discarded if all data is null, or it is null itself, or its parent is discarded. -/
theorem WellFormed.isDiscarded_iff {tree : Tree} (formed : tree.WellFormed) {id : NodeId}
    {node : Node} (found : tree.node? id = some node) :
    tree.isDiscarded id = true ↔
      tree.dataIsNull = true ∨ node.content = .null ∨
        ∃ parent, node.parent = some parent ∧ tree.isDiscarded parent = true := by
  cases allNull : tree.dataIsNull with
  | true => simp [isDiscarded, allNull]
  | false =>
      have parentStep : node.parent.any (tree.nullAbove id) = true ↔
          ∃ parent, node.parent = some parent ∧ tree.isDiscarded parent = true := by
        rw [Option.any_eq_true]
        constructor
        · rintro ⟨parent, isParent, above⟩
          refine ⟨parent, isParent, ?_⟩
          rw [nullAbove_eq formed parent id (formed.parent_lt found isParent)] at above
          simp [isDiscarded, above]
        · rintro ⟨parent, isParent, discarded⟩
          refine ⟨parent, isParent, ?_⟩
          rw [nullAbove_eq formed parent id (formed.parent_lt found isParent)]
          simpa [isDiscarded, allNull] using discarded
      rw [← parentStep, isDiscarded, allNull, nullAbove, found]
      rcases node with ⟨content, parent, type, path⟩
      cases content <;> simp

/-- A node that is discarded without being null has lost what is above it, so what stands beside it
is discarded too. -/
theorem WellFormed.isDiscarded_beside {tree : Tree} (formed : tree.WellFormed)
    {id other above : NodeId} {node beside : Node} (found : tree.node? id = some node)
    (isParent : node.parent = some above) (notNull : node.content ≠ .null)
    (lost : tree.isDiscarded id = true) (foundBeside : tree.node? other = some beside)
    (besideParent : beside.parent = some above) : tree.isDiscarded other = true := by
  apply (formed.isDiscarded_iff foundBeside).mpr
  rcases (formed.isDiscarded_iff found).mp lost with allNull | isNull | ⟨parent, same, discarded⟩
  · exact .inl allNull
  · exact absurd isNull notNull
  · rw [isParent, Option.some.injEq] at same
    exact .inr (.inr ⟨above, besideParent, same ▸ discarded⟩)

/-- A live node is not null, no data is lost, and its parent is live. -/
structure IsLive (tree : Tree) (id : NodeId) (node : Node) : Prop where
  data : tree.dataIsNull = false
  notNull : node.content ≠ .null
  parent : ∀ parent, node.parent = some parent → tree.isDiscarded parent = false

theorem WellFormed.isLive {tree : Tree} (formed : tree.WellFormed) {id : NodeId} {node : Node}
    (found : tree.node? id = some node) (live : tree.isDiscarded id = false) :
    tree.IsLive id node := by
  have discarded := formed.isDiscarded_iff found
  rw [live] at discarded
  refine ⟨?_, ?_, ?_⟩
  · cases allNull : tree.dataIsNull with
    | false => rfl
    | true => exact absurd (discarded.mpr (.inl allNull)) Bool.false_ne_true
  · intro isNull
    exact absurd (discarded.mpr (.inr (.inl isNull))) Bool.false_ne_true
  · intro parent isParent
    cases above : tree.isDiscarded parent with
    | false => rfl
    | true =>
        exact absurd (discarded.mpr (.inr (.inr ⟨parent, isParent, above⟩))) Bool.false_ne_true

/-! ### Where a null goes -/

/-- A null at a node moves up, past positions that must not be null, to a position that may be, or
to the root. -/
inductive MovesUp (tree : Tree) : NodeId → Option NodeId → Prop
  | stays {id : NodeId} {node : Node} {type : TypeRef} (found : tree.node? id = some node)
      (typed : node.type = some type) (mayBeNull : type.isNonNull = false) :
      MovesUp tree id (some id)
  | climbs {id parent : NodeId} {node : Node} {type : TypeRef} {target : Option NodeId}
      (found : tree.node? id = some node) (typed : node.type = some type)
      (required : type.isNonNull = true) (isParent : node.parent = some parent)
      (further : MovesUp tree parent target) : MovesUp tree id target
  | reachesRoot : MovesUp tree rootId none

private theorem nullable?_movesUp {tree : Tree} (formed : tree.WellFormed) (id : NodeId) :
    ∀ steps node, id < steps → tree.node? id = some node →
      tree.MovesUp id (tree.nullable? steps id) := by
  induction id using Nat.strongRecOn with
  | ind id induction =>
      intro steps node enough found
      cases steps with
      | zero => exact absurd enough (Nat.not_lt_zero _)
      | succ steps =>
          by_cases isRoot : id = rootId
          · rcases formed.root with ⟨fields, foundRoot⟩
            subst isRoot
            rw [nullable?, foundRoot]
            exact .reachesRoot
          · rcases formed.hangs isRoot found with ⟨top, above, segment, type, hanging⟩
            simp only [nullable?, found, hanging.typed, hanging.isParent, Option.bind_eq_bind,
              Option.bind_some]
            cases required : type.isNonNull with
            | false => exact .stays found hanging.typed required
            | true =>
                exact .climbs found hanging.typed required hanging.isParent
                  (induction top hanging.smaller steps above
                    (Nat.lt_of_lt_of_le hanging.smaller (Nat.le_of_lt_succ enough))
                    hanging.foundAbove)

theorem WellFormed.nullPosition_movesUp {tree : Tree} (formed : tree.WellFormed) {id : NodeId}
    {node : Node} (found : tree.node? id = some node) : tree.MovesUp id (tree.nullPosition id) :=
  nullable?_movesUp formed id (id + 1) node (Nat.lt_succ_self id) found

/-- Where a null arrives the position may be null. It is at or above the node, and as live. -/
theorem MovesUp.target {tree : Tree} (formed : tree.WellFormed) {id : NodeId}
    {target : Option NodeId} (moves : tree.MovesUp id target) :
    ∀ top, target = some top → ∃ node type, tree.node? top = some node ∧ node.type = some type ∧
      type.isNonNull = false ∧ top ≤ id ∧
      (tree.isDiscarded id = false → tree.isDiscarded top = false) := by
  induction moves with
  | stays found typed mayBeNull =>
      intro top isTop
      cases isTop
      exact ⟨_, _, found, typed, mayBeNull, Nat.le_refl _, fun live => live⟩
  | climbs found typed required isParent further induction =>
      intro top isTop
      rcases induction top isTop with ⟨node, type, foundTop, typedTop, mayBeNull, small, live⟩
      exact ⟨node, type, foundTop, typedTop, mayBeNull,
        Nat.le_trans small (Nat.le_of_lt (formed.parent_lt found isParent)),
        fun alive => live ((formed.isLive found alive).parent _ isParent)⟩
  | reachesRoot =>
      intro top isTop
      cases isTop

theorem MovesUp.mono {before after : Tree} (growth : ∀ {id node}, before.node? id = some node →
    ∃ content, after.node? id = some { node with content := content }) {id : NodeId}
    {target : Option NodeId} (moves : before.MovesUp id target) : after.MovesUp id target := by
  induction moves with
  | stays found typed mayBeNull =>
      rcases growth found with ⟨content, foundAfter⟩
      exact .stays foundAfter typed mayBeNull
  | climbs found typed required isParent _ induction =>
      rcases growth found with ⟨content, foundAfter⟩
      exact .climbs foundAfter typed required isParent induction
  | reachesRoot => exact .reachesRoot

theorem MovesUp.known {tree : Tree} (formed : tree.WellFormed) {id : NodeId}
    {target : Option NodeId} (moves : tree.MovesUp id target) :
    ∃ node, tree.node? id = some node := by
  induction moves with
  | stays found _ _ => exact ⟨_, found⟩
  | climbs found _ _ _ _ _ => exact ⟨_, found⟩
  | reachesRoot =>
      rcases formed.root with ⟨fields, found⟩
      exact ⟨_, found⟩

/-- The path of where a null goes is a front of the path of where it arose. -/
theorem MovesUp.path_prefix {tree : Tree} (formed : tree.WellFormed) {id : NodeId}
    {target : Option NodeId} (moves : tree.MovesUp id target) :
    ∀ top, target = some top → tree.path top <+: tree.path id := by
  induction moves with
  | stays found typed mayBeNull =>
      intro top isTop
      exact Option.some.inj isTop ▸ List.prefix_refl _
  | climbs found typed required isParent further induction =>
      intro top isTop
      have notRoot := formed.ne_root_of_parent found isParent
      rcases formed.hangs notRoot found with ⟨parent, above, segment, type, hanging⟩
      have sameParent := Option.some.inj (hanging.isParent.symm.trans isParent)
      rw [path_eq found, hanging.path, ← path_eq hanging.foundAbove, sameParent]
      exact (induction top isTop).trans (List.prefix_append _ _)
  | reachesRoot =>
      intro top isTop
      cases isTop

/-- A null stays where it arose, or it goes to a node with a child. -/
theorem MovesUp.stays_or_parent {tree : Tree} {id : NodeId} {target : Option NodeId}
    (moves : tree.MovesUp id target) :
    ∀ top, target = some top → top = id ∨
      ∃ child node, tree.node? child = some node ∧ node.parent = some top := by
  induction moves with
  | stays found typed mayBeNull =>
      intro top isTop
      exact .inl (Option.some.inj isTop).symm
  | climbs found typed required isParent further induction =>
      intro top isTop
      rcases induction top isTop with equal | below
      · exact .inr ⟨_, _, found, equal ▸ isParent⟩
      · exact .inr below
  | reachesRoot =>
      intro top isTop
      cases isTop

private theorem WellFormed.ne_root_of_typed {tree : Tree} (formed : tree.WellFormed) {id : NodeId}
    {node : Node} {type : TypeRef} (found : tree.node? id = some node)
    (typed : node.type = some type) : id ≠ rootId := by
  intro isRoot
  rcases formed.root with ⟨fields, foundRoot⟩
  rw [isRoot, foundRoot, Option.some.injEq] at found
  subst found
  cases typed

theorem WellFormed.nullAt {tree : Tree} (formed : tree.WellFormed) {id : NodeId}
    {target : Option NodeId} (moves : tree.MovesUp id target) :
    (tree.nullAt target).WellFormed := by
  cases target with
  | none =>
      refine ⟨formed.root, ?_, formed.child, formed.distinct⟩
      intro low node notRoot found
      rcases formed.hangs notRoot found with ⟨top, above, segment, type, hanging⟩
      exact ⟨top, above, segment, type, hanging.isParent, hanging.smaller, hanging.foundAbove,
        hanging.typed, hanging.path, hanging.listed⟩
  | some top =>
      rcases moves.target formed top rfl with ⟨node, type, found, typed, _⟩
      exact formed.set_null (formed.ne_root_of_typed found typed)

theorem nullAt_cases {tree : Tree} {target : Option NodeId} {id : NodeId} {node : Node}
    (found : (tree.nullAt target).node? id = some node) :
    (target ≠ some id ∧ tree.node? id = some node) ∨
    (target = some id ∧ ∃ before, tree.node? id = some before ∧
      node = { before with content := .null }) := by
  cases target with
  | none => exact .inl ⟨nofun, found⟩
  | some top =>
      by_cases same : id = top
      · subst same
        rw [nullAt, node?_set, if_pos rfl] at found
        rcases Option.map_eq_some_iff.mp found with ⟨before, foundBefore, isNode⟩
        exact .inr ⟨rfl, before, foundBefore, isNode.symm⟩
      · rw [nullAt, node?_set_of_ne _ same] at found
        exact .inl ⟨fun equal => same (Option.some.inj equal).symm, found⟩

/-! ## What persists -/

/-- A later tree has the nodes of an earlier one in their places, and what was null is null. -/
structure Extends (before after : Tree) : Prop where
  node : ∀ {id node}, before.node? id = some node →
    ∃ content, after.node? id = some { node with content := content } ∧
      (node.content = .null → content = .null)
  data : before.dataIsNull = true → after.dataIsNull = true

namespace Extends

theorem refl (tree : Tree) : tree.Extends tree :=
  ⟨fun {_ node} found => ⟨node.content, found, fun isNull => isNull⟩, fun allNull => allNull⟩

theorem trans {first second third : Tree} (earlier : first.Extends second)
    (later : second.Extends third) : first.Extends third := by
  refine ⟨?_, fun allNull => later.data (earlier.data allNull)⟩
  intro id node found
  rcases earlier.node found with ⟨middle, foundMiddle, staysNull⟩
  rcases later.node foundMiddle with ⟨content, foundLast, stillNull⟩
  exact ⟨content, foundLast, fun isNull => stillNull (staysNull isNull)⟩

theorem path_eq {before after : Tree} (growth : before.Extends after) {id : NodeId} {node : Node}
    (found : before.node? id = some node) : after.path id = before.path id := by
  rcases growth.node found with ⟨content, foundAfter, _⟩
  rw [Tree.path_eq found, Tree.path_eq foundAfter]

/-- What was discarded stays discarded. -/
theorem discarded {before after : Tree} (growth : before.Extends after)
    (formedBefore : before.WellFormed) (formedAfter : after.WellFormed) {id : NodeId} :
    ∀ {node}, before.node? id = some node → before.isDiscarded id = true →
      after.isDiscarded id = true := by
  induction id using Nat.strongRecOn with
  | ind id induction =>
      intro node found lost
      rcases growth.node found with ⟨content, foundAfter, staysNull⟩
      apply (formedAfter.isDiscarded_iff foundAfter).mpr
      rcases (formedBefore.isDiscarded_iff found).mp lost with allNull | isNull |
          ⟨parent, isParent, above⟩
      · exact .inl (growth.data allNull)
      · exact .inr (.inl (staysNull isNull))
      · have smaller := formedBefore.parent_lt found isParent
        rcases exists_node (Nat.lt_trans smaller (node?_lt found)) with ⟨top, foundTop⟩
        exact .inr (.inr ⟨parent, isParent, induction parent smaller foundTop above⟩)

theorem live {before after : Tree} (growth : before.Extends after)
    (formedBefore : before.WellFormed) (formedAfter : after.WellFormed) {id : NodeId}
    (live : after.isDiscarded id = false) : before.isDiscarded id = false := by
  cases lost : before.isDiscarded id with
  | false => rfl
  | true =>
      cases found : before.node? id with
      | some node =>
          rw [growth.discarded formedBefore formedAfter found lost] at live
          cases live
      | none =>
          have allNull : before.dataIsNull = true := by
            simpa [isDiscarded, nullAbove, found] using lost
          simp [isDiscarded, growth.data allNull] at live

end Extends

theorem attach_extends {tree : Tree} {id : NodeId} {node : Node} {content : NodeContent}
    {sprouts : List Sprout} (found : tree.node? id = some node) (notNull : node.content ≠ .null) :
    tree.Extends (tree.attach id content sprouts) := by
  refine ⟨?_, fun allNull => allNull⟩
  intro other before foundBefore
  by_cases same : other = id
  · subst same
    rw [found, Option.some.injEq] at foundBefore
    subst foundBefore
    exact ⟨content, node?_attach_self found _ _, fun isNull => absurd isNull notNull⟩
  · exact ⟨before.content, node?_attach_old foundBefore same _ _, fun isNull => isNull⟩

theorem set_extends {tree : Tree} {id : NodeId} {node : Node} {content : NodeContent}
    (found : tree.node? id = some node) (notNull : node.content ≠ .null) :
    tree.Extends (tree.set id content) :=
  tree.attach_nil id content ▸ attach_extends found notNull

theorem nullAt_extends (tree : Tree) (target : Option NodeId) :
    tree.Extends (tree.nullAt target) := by
  cases target with
  | none => exact ⟨fun {_ node} found => ⟨node.content, found, fun isNull => isNull⟩, fun _ => rfl⟩
  | some top =>
      refine ⟨?_, fun allNull => allNull⟩
      intro id node found
      by_cases same : id = top
      · subst same
        exact ⟨.null, node?_set_self found _, fun _ => rfl⟩
      · exact ⟨node.content, (node?_set_of_ne _ same _).trans found, fun isNull => isNull⟩

/-- After a null moved up from a node, the node is discarded. -/
theorem MovesUp.discards {tree : Tree} {id : NodeId} {target : Option NodeId}
    (moves : tree.MovesUp id target) (formed : tree.WellFormed) :
    (tree.nullAt target).isDiscarded id = true := by
  have formedAfter := formed.nullAt moves
  induction moves with
  | stays found typed mayBeNull =>
      exact (formedAfter.isDiscarded_iff (node?_set_self found _)).mpr (.inr (.inl rfl))
  | @climbs id parent node type target found typed required isParent further induction =>
      rcases (tree.nullAt_extends target).node found with ⟨content, foundAfter, _⟩
      exact (formedAfter.isDiscarded_iff foundAfter).mpr
        (.inr (.inr ⟨parent, isParent, induction formedAfter⟩))
  | reachesRoot => simp [nullAt, isDiscarded]

/-! ## Rendering -/

/-- The JSON of a node. -/
def json (tree : Tree) (id : NodeId) : Json := tree.render tree.nodes.size id

private theorem render_succ {tree : Tree} {id : NodeId} {node : Node}
    (found : tree.node? id = some node)
    (steps : Nat) : tree.render (steps + 1) id = node.content.shown (tree.render steps) := by
  rw [render, found]
  rcases node with ⟨content, parent, type, path⟩
  cases content <;> rfl

private theorem render_eq {tree : Tree} (formed : tree.WellFormed) :
    ∀ steps others id, tree.nodes.size ≤ steps + id → tree.nodes.size ≤ others + id →
      id < tree.nodes.size → tree.render steps id = tree.render others id := by
  intro steps
  induction steps with
  | zero => exact fun others id enough _ known => absurd known (by omega)
  | succ steps induction =>
      intro others id enough othersEnough known
      cases others with
      | zero => exact absurd known (by omega)
      | succ others =>
          rcases exists_node known with ⟨node, found⟩
          rw [render_succ found, render_succ found]
          apply NodeContent.shown_congr
          intro segment child listed
          have greater : (id : Nat) < child := formed.lt_child found listed
          rcases formed.child found listed with ⟨below, foundChild, _⟩
          exact induction others child (by omega) (by omega) (node?_lt foundChild)

/-- A node is rendered from what its children are rendered to. -/
theorem WellFormed.json_eq {tree : Tree} (formed : tree.WellFormed) {id : NodeId} {node : Node}
    (found : tree.node? id = some node) : tree.json id = node.content.shown tree.json := by
  have known := node?_lt found
  rw [json, render_eq formed tree.nodes.size (tree.nodes.size + 1) id (Nat.le_add_right _ _)
    (Nat.le_add_right_of_le (Nat.le_add_right _ 1)) known, render_succ found]
  rfl

/-- Unless it is null, the data is the JSON of the root. -/
theorem data_eq (tree : Tree) :
    tree.data = if tree.dataIsNull then .null else tree.json rootId := rfl

end Tree

end GraphQL
