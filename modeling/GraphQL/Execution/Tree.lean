import GraphQL.Response.Error
import GraphQL.Schema.TypeRef

/-!
The data of a response while it is being made: a tree whose nodes know their parents, so that a
null can move up from where it arose to the nearest position that may be null.
-/

namespace GraphQL

/-- Nodes are numbered in order of creation; a parent comes before its children. -/
abbrev NodeId := Nat

inductive NodeContent where
  /-- The fields of the root object. -/
  | root (children : List (String × NodeId))
  /-- Not resolved yet. -/
  | pending
  | object (children : List (String × NodeId))
  | array (items : List NodeId)
  | leaf (value : Json)
  | null

structure Node where
  content : NodeContent
  parent : Option NodeId
  /-- The type of the position; the root has none. -/
  type : Option TypeRef
  path : Path

structure Tree where
  nodes : Array Node
  /-- Whether a null moved up to the root. -/
  dataIsNull : Bool

namespace Tree

def rootId : NodeId := 0

def empty : Tree := ⟨#[⟨.root [], none, none, []⟩], false⟩

def node? (tree : Tree) (id : NodeId) : Option Node := tree.nodes[id]?

def path (tree : Tree) (id : NodeId) : Path := ((tree.node? id).map Node.path).getD []

/-! ## Growing the tree -/

def set (tree : Tree) (id : NodeId) (content : NodeContent) : Tree :=
  { tree with nodes := tree.nodes.modify id fun node => { node with content := content } }

def makeObject (tree : Tree) (id : NodeId) : Tree :=
  match (tree.node? id).map Node.content with
  | some (.root _) => tree
  | _ => tree.set id (.object [])

def push (tree : Tree) (parent : NodeId) (segment : PathSegment) (type : TypeRef) :
    NodeId × Tree :=
  (tree.nodes.size,
    { tree with
      nodes := tree.nodes.push ⟨.pending, some parent, some type, tree.path parent ++ [segment]⟩ })

def addField (tree : Tree) (parent : NodeId) (name : String) (type : TypeRef) : NodeId × Tree :=
  let (child, tree) := tree.push parent (.key name) type
  (child,
    match (tree.node? parent).map Node.content with
    | some (.root children) => tree.set parent (.root (Named.put children (name, child)))
    | some (.object children) => tree.set parent (.object (Named.put children (name, child)))
    | _ => tree)

def pushItems (tree : Tree) (parent : NodeId) (type : TypeRef) (start : Nat) :
    (count : Nat) → List NodeId × Tree
  | 0 => ([], tree)
  | count + 1 =>
      let (item, tree) := tree.push parent (.index start) type
      let (items, tree) := tree.pushItems parent type (start + 1) count
      (item :: items, tree)

def addItems (tree : Tree) (parent : NodeId) (type : TypeRef) (count : Nat) :
    List NodeId × Tree :=
  let (items, tree) := tree.pushItems parent type 0 count
  (items, tree.set parent (.array items))

/-! ## Nulls -/

def nullAbove (tree : Tree) : (steps : Nat) → NodeId → Bool
  | 0, _ => false
  | steps + 1, id =>
      match tree.node? id with
      | none => false
      | some node =>
          match node.content with
          | .null => true
          | _ => node.parent.any (tree.nullAbove steps)

def isDiscarded (tree : Tree) (id : NodeId) : Bool :=
  tree.dataIsNull || tree.nullAbove (id + 1) id

def nullable? (tree : Tree) : (steps : Nat) → NodeId → Option NodeId
  | 0, _ => none
  | steps + 1, id => do
      let node ← tree.node? id
      let type ← node.type
      if type.isNonNull then node.parent.bind (tree.nullable? steps) else some id

/-- The nearest position at or above a node that may be null. There is none if all data has to be
null. -/
def nullPosition (tree : Tree) (id : NodeId) : Option NodeId := tree.nullable? (id + 1) id

def nullAt (tree : Tree) : Option NodeId → Tree
  | some target => tree.set target .null
  | none => { tree with dataIsNull := true }

def propagateNull (tree : Tree) (id : NodeId) : Tree := tree.nullAt (tree.nullPosition id)

/-! ## The data -/

/-- The JSON of a node. Children have greater numbers than their parents, so there are no more steps
down than nodes. -/
def render (tree : Tree) : (steps : Nat) → NodeId → Json
  | 0, _ => .null
  | steps + 1, id =>
      match (tree.node? id).map Node.content with
      | some (.root children) =>
          .object (children.map fun child => (child.1, tree.render steps child.2))
      | some (.object children) =>
          .object (children.map fun child => (child.1, tree.render steps child.2))
      | some (.array items) => .array (items.map (tree.render steps))
      | some (.leaf value) => value
      | some .pending => .null
      | some .null => .null
      | none => .null

def data (tree : Tree) : Json :=
  if tree.dataIsNull then .null else tree.render tree.nodes.size rootId

end Tree

end GraphQL
