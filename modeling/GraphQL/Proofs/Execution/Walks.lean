import GraphQL.Proofs.Execution.Tree
import Mathlib.Logic.Relation

/-!
The loops over a tree as they go: up from a node along parents, or down along what nodes list. Each
node they come to has to exist, and a derivation is finite, so where there is one the loop ends
without an index that is out of range.
-/

namespace GraphQL

/-- Whether a null is seen at a node. -/
def Node.seesNull? (node : Node) : Option Bool :=
  match node.content with
  | .null => some true
  | _ => none

/-- Where a null goes from a node. A node without type sends it to the root. -/
def Node.takesNull? (id : NodeId) (node : Node) : Option (Option NodeId) :=
  match node.type with
  | none => some none
  | some type => if type.isNonNull then none else some (some id)

namespace Tree

/-! ## The way up -/

/-- A loop goes up from a node along parents, to the first node that has an answer. -/
inductive Climbs {α : Type} (tree : Tree) (answer? : NodeId → Node → Option α) (past : α) :
    NodeId → α → Prop
  | answers {id : NodeId} {node : Node} {answer : α} (found : tree.node? id = some node)
      (given : answer? id node = some answer) : Climbs tree answer? past id answer
  | ends {id : NodeId} {node : Node} (found : tree.node? id = some node)
      (silent : answer? id node = none) (isTop : node.parent = none) :
      Climbs tree answer? past id past
  | climbs {id parent : NodeId} {node : Node} {answer : α} (found : tree.node? id = some node)
      (silent : answer? id node = none) (isParent : node.parent = some parent)
      (further : Climbs tree answer? past parent answer) : Climbs tree answer? past id answer

/-- Asking whether a node is discarded. -/
def AsksDiscarded (tree : Tree) (id : NodeId) (answer : Bool) : Prop :=
  if tree.dataIsNull then answer = true
  else tree.Climbs (fun _ node => node.seesNull?) false id answer

/-- Moving a null up from a node. -/
def SendsNull (tree : Tree) (id : NodeId) (after : Tree) : Prop :=
  ∃ target, tree.Climbs Node.takesNull? none id target ∧ after = tree.nullAt target

namespace WellFormed

variable {tree : Tree} (formed : tree.WellFormed)

include formed

/-- A node without answer has that of its parent. -/
private theorem climbs_parent {α : Type} {answer? : NodeId → Node → Option α} {past : α}
    (upper : NodeId → α) {id : NodeId} {node : Node} (found : tree.node? id = some node)
    (silent : answer? id node = none)
    (above : ∀ parent node, parent < id → tree.node? parent = some node →
      tree.Climbs answer? past parent (upper parent)) :
    tree.Climbs answer? past id (node.parent.elim past upper) := by
  cases isParent : node.parent with
  | none => exact .ends found silent isParent
  | some parent =>
      have smaller := formed.parent_lt found isParent
      rcases exists_node (Nat.lt_trans smaller (node?_lt found)) with ⟨top, foundTop⟩
      exact .climbs found silent isParent (above parent top smaller foundTop)

private theorem nullAbove_climbs (id : NodeId) :
    ∀ steps node, id < steps → tree.node? id = some node →
      tree.Climbs (fun _ node => node.seesNull?) false id (tree.nullAbove steps id) := by
  induction id using Nat.strongRecOn with
  | ind id induction =>
      intro steps node enough found
      cases steps with
      | zero => exact absurd enough (Nat.not_lt_zero _)
      | succ steps =>
          have upwards : node.seesNull? = none →
              tree.Climbs (fun _ node => node.seesNull?) false id
                (node.parent.any (tree.nullAbove steps)) := by
            intro silent
            have onward := formed.climbs_parent (tree.nullAbove steps) found silent
              fun parent above smaller => induction parent smaller steps above
                (Nat.lt_of_lt_of_le smaller (Nat.le_of_lt_succ enough))
            have same : node.parent.any (tree.nullAbove steps) =
                node.parent.elim false (tree.nullAbove steps) := by
              cases node.parent <;> rfl
            exact same ▸ onward
          rw [nullAbove, found]
          rcases node with ⟨content, parent, type, path⟩
          cases content with
          | null => exact .answers found rfl
          | _ => exact upwards rfl

private theorem nullable?_climbs (id : NodeId) :
    ∀ steps node, id < steps → tree.node? id = some node →
      tree.Climbs Node.takesNull? none id (tree.nullable? steps id) := by
  induction id using Nat.strongRecOn with
  | ind id induction =>
      intro steps node enough found
      cases steps with
      | zero => exact absurd enough (Nat.not_lt_zero _)
      | succ steps =>
          simp only [nullable?, found, Option.bind_eq_bind, Option.bind_some]
          cases typed : node.type with
          | none => exact .answers found (by rw [Node.takesNull?, typed]; rfl)
          | some type =>
              rw [Option.bind_some]
              cases required : type.isNonNull with
              | false => exact .answers found (by simp [Node.takesNull?, typed, required])
              | true =>
                  have silent : Node.takesNull? id node = none := by
                    simp [Node.takesNull?, typed, required]
                  have onward := formed.climbs_parent (tree.nullable? steps) found silent
                    fun parent above smaller => induction parent smaller steps above
                      (Nat.lt_of_lt_of_le smaller (Nat.le_of_lt_succ enough))
                  have same : node.parent.bind (tree.nullable? steps) =
                      node.parent.elim none (tree.nullable? steps) := by
                    cases node.parent <;> rfl
                  rw [if_pos rfl, same]
                  exact onward

end WellFormed

/-- What a loop comes to is the answer of the node, or that of its parent. -/
private theorem Climbs.cases_of_found {α : Type} {tree : Tree} {answer? : NodeId → Node → Option α}
    {past answer : α} {id : NodeId} {node : Node} (climbs : tree.Climbs answer? past id answer)
    (found : tree.node? id = some node) :
    answer? id node = some answer ∨
    (answer? id node = none ∧ node.parent = none ∧ answer = past) ∨
    (answer? id node = none ∧ ∃ parent, node.parent = some parent ∧
      tree.Climbs answer? past parent answer) := by
  cases climbs with
  | answers sameFound given =>
      cases found.symm.trans sameFound
      exact .inl given
  | ends sameFound silent isTop =>
      cases found.symm.trans sameFound
      exact .inr (.inl ⟨silent, isTop, rfl⟩)
  | climbs sameFound silent isParent further =>
      cases found.symm.trans sameFound
      exact .inr (.inr ⟨silent, _, isParent, further⟩)

private theorem Climbs.unique {α : Type} {tree : Tree} {answer? : NodeId → Node → Option α}
    {past : α} {id : NodeId} {first second : α} (climbs : tree.Climbs answer? past id first)
    (again : tree.Climbs answer? past id second) : first = second := by
  induction climbs with
  | answers found given =>
      rcases again.cases_of_found found with other | ⟨silent, _⟩ | ⟨silent, _⟩
      · exact Option.some.inj (given.symm.trans other)
      · cases given.symm.trans silent
      · cases given.symm.trans silent
  | ends found silent isTop =>
      rcases again.cases_of_found found with given | ⟨_, _, isPast⟩ | ⟨_, parent, isParent, _⟩
      · cases silent.symm.trans given
      · exact isPast.symm
      · cases isTop.symm.trans isParent
  | climbs found silent isParent _ induction =>
      rcases again.cases_of_found found with given | ⟨_, isTop, _⟩ | ⟨_, parent, same, further⟩
      · cases silent.symm.trans given
      · cases isParent.symm.trans isTop
      · cases isParent.symm.trans same
        exact induction further

namespace WellFormed

variable {tree : Tree} (formed : tree.WellFormed)

include formed

theorem asksDiscarded_iff {id : NodeId} (known : id < tree.nodes.size) {answer : Bool} :
    tree.AsksDiscarded id answer ↔ answer = tree.isDiscarded id := by
  rcases exists_node known with ⟨node, found⟩
  have climbs := formed.nullAbove_climbs id (id + 1) node (Nat.lt_succ_self id) found
  rw [AsksDiscarded, isDiscarded]
  cases tree.dataIsNull with
  | true => rfl
  | false => exact ⟨fun asks => asks.unique climbs, fun same => same ▸ climbs⟩

theorem sendsNull_iff {id : NodeId} (known : id < tree.nodes.size) {after : Tree} :
    tree.SendsNull id after ↔ after = tree.propagateNull id := by
  rcases exists_node known with ⟨node, found⟩
  have climbs := formed.nullable?_climbs id (id + 1) node (Nat.lt_succ_self id) found
  constructor
  · rintro ⟨target, sends, equal⟩
    rw [equal, sends.unique climbs]
    rfl
  · intro equal
    exact ⟨_, climbs, equal⟩

end WellFormed

/-! ## The way down -/

/-- A node is rendered when all that it lists is. -/
inductive Renders (tree : Tree) : NodeId → Json → Prop
  | node {id : NodeId} {node : Node} {value : NodeId → Json} (found : tree.node? id = some node)
      (below : ∀ segment child, (segment, child) ∈ node.content.children →
        Renders tree child (value child)) :
      Renders tree id (node.content.shown value)

/-- Rendering the data. -/
def RendersData (tree : Tree) (data : Json) : Prop :=
  if tree.dataIsNull then data = .null else tree.Renders rootId data

namespace WellFormed

variable {tree : Tree} (formed : tree.WellFormed)

include formed

private theorem renders {id : NodeId} (known : id < tree.nodes.size) :
    tree.Renders id (tree.json id) := by
  -- A child has a greater number, so the nodes that are left on the way down get fewer.
  induction measured : tree.nodes.size - id using Nat.strongRecOn generalizing id with
  | ind left induction =>
      rcases exists_node known with ⟨node, found⟩
      rw [formed.json_eq found]
      refine .node found fun segment child listed => ?_
      rcases formed.child found listed with ⟨below, foundChild, _⟩
      have fewer : tree.nodes.size - child < tree.nodes.size - id :=
        Nat.sub_lt_sub_left known (formed.lt_child found listed)
      exact induction _ (measured ▸ fewer) (node?_lt foundChild) rfl

theorem renders_iff {id : NodeId} (known : id < tree.nodes.size) {json : Json} :
    tree.Renders id json ↔ json = tree.json id := by
  constructor
  · intro renders
    induction renders with
    | node found below induction =>
        rw [formed.json_eq found]
        apply NodeContent.shown_congr
        intro segment child listed
        rcases formed.child found listed with ⟨node, foundChild, _⟩
        exact induction segment child listed (node?_lt foundChild)
  · intro same
    exact same ▸ formed.renders known

theorem rendersData_iff {data : Json} : tree.RendersData data ↔ data = tree.data := by
  rw [RendersData, data_eq]
  cases tree.dataIsNull with
  | true => rfl
  | false =>
      rcases formed.root with ⟨fields, found⟩
      exact formed.renders_iff (node?_lt found)

end WellFormed

/-! ## Nodes above a node -/

/-- One node is the parent of another. -/
def HasParent (tree : Tree) (id parent : NodeId) : Prop :=
  ∃ node, tree.node? id = some node ∧ node.parent = some parent

/-- A node is null, or one above it is. -/
def NullAtOrAbove (tree : Tree) (id : NodeId) : Prop :=
  ∃ top node, Relation.ReflTransGen tree.HasParent id top ∧ tree.node? top = some node ∧
    node.content = .null

private theorem nullAtOrAbove_iff {tree : Tree} {id : NodeId} {node : Node}
    (found : tree.node? id = some node) :
    tree.NullAtOrAbove id ↔
      node.content = .null ∨ ∃ parent, node.parent = some parent ∧ tree.NullAtOrAbove parent := by
  constructor
  · rintro ⟨top, null, reaches, foundTop, isNull⟩
    rcases Relation.ReflTransGen.cases_head reaches with same | ⟨parent, step, onward⟩
    · subst same
      cases found.symm.trans foundTop
      exact .inl isNull
    · rcases step with ⟨same, foundSame, isParent⟩
      cases found.symm.trans foundSame
      exact .inr ⟨parent, isParent, top, null, onward, foundTop, isNull⟩
  · rintro (isNull | ⟨parent, isParent, top, null, onward, foundTop, isNull⟩)
    · exact ⟨id, node, .refl, found, isNull⟩
    · exact ⟨top, null, .head ⟨node, found, isParent⟩ onward, foundTop, isNull⟩

theorem WellFormed.isDiscarded_iff_nullAtOrAbove {tree : Tree} (formed : tree.WellFormed)
    {id : NodeId} (known : id < tree.nodes.size) :
    tree.isDiscarded id = true ↔ tree.dataIsNull = true ∨ tree.NullAtOrAbove id := by
  induction id using Nat.strongRecOn with
  | ind id induction =>
      rcases exists_node known with ⟨node, found⟩
      rw [formed.isDiscarded_iff found, nullAtOrAbove_iff found]
      have above : ∀ parent, node.parent = some parent → (tree.isDiscarded parent = true ↔
          tree.dataIsNull = true ∨ tree.NullAtOrAbove parent) := by
        intro parent isParent
        have smaller := formed.parent_lt found isParent
        exact induction parent smaller (Nat.lt_trans smaller known)
      constructor
      · rintro (allNull | isNull | ⟨parent, isParent, lost⟩)
        · exact .inl allNull
        · exact .inr (.inl isNull)
        · exact ((above parent isParent).mp lost).imp_right fun further =>
            .inr ⟨parent, isParent, further⟩
      · rintro (allNull | isNull | ⟨parent, isParent, further⟩)
        · exact .inl allNull
        · exact .inr (.inl isNull)
        · exact .inr (.inr ⟨parent, isParent, (above parent isParent).mpr (.inr further)⟩)

end Tree

end GraphQL
