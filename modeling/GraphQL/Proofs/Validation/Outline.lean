import GraphQL.Validation.Walk
import Mathlib.Data.List.Basic

/-!
The outline of a document: the tree of its nodes, without any types. A node has an address, the
numbers of the parts that lead to it, and a path, the nodes around it. Going through an outline
stops at a node on the way in and, where there is something to say, on the way out.
-/

namespace GraphQL

/-- A node of a document. A value is that of an argument or a default, an item of a list, or that
of a field of an object. -/
inductive SyntaxNode where
  | document (document : Document)
  | operation (operation : Operation)
  | fragment (fragment : Fragment)
  | variableDefinition (definition : VariableDefinition)
  | selectionSet (owner : Position) (selections : List Selection)
  | field (field : Field)
  | spread (spread : FragmentSpread)
  | inline (fragment : InlineFragment)
  | directive (directive : Directive) (location : DirectiveLocation)
  | arguments (arguments : ArgumentList)
  | argument (name : String) (value : Literal)
  | value (value : Literal)
  | item (value : Literal)
  | inputField (name : String) (value : Literal)

namespace SyntaxNode

def enter : SyntaxNode → Visit
  | document _ => .enterDocument
  | operation node => .enterOperation node
  | fragment node => .enterFragment node
  | variableDefinition node => .variableDefinition node
  | selectionSet owner under => .enterSelections owner under
  | field node => .enterField node
  | spread node => .spread node
  | inline node => .enterInline node
  | directive node location => .directive node location
  | arguments written => .arguments written
  | argument name literal => .argument name literal
  | value literal => .value literal
  | item literal => .value literal
  | inputField _ literal => .value literal

def leave? : SyntaxNode → Option Visit
  | document _ => some .leaveDocument
  | operation node => some (.leaveOperation node)
  | fragment node => some (.leaveFragment node)
  | selectionSet owner under => some (.leaveSelections owner under)
  | field node => some (.leaveField node)
  | inline node => some (.leaveInline node)
  | _ => none

end SyntaxNode

/-- A node and the parts under it, in order. -/
inductive Outline where
  | node (node : SyntaxNode) (parts : List Outline)

/-! ## The outline of a document -/

mutual

def Literal.parts : Literal → List Outline
  | .list items => itemOutlines items
  | .object fields => fieldOutlines fields
  | _ => []
termination_by structural literal => literal

def itemOutlines : List Literal → List Outline
  | [] => []
  | item :: items => .node (.item item) item.parts :: itemOutlines items
termination_by structural items => items

def fieldOutlines : List (String × Literal) → List Outline
  | [] => []
  | (name, item) :: fields => .node (.inputField name item) item.parts :: fieldOutlines fields
termination_by structural fields => fields

end

/-- A value where it is neither an item of a list nor in an object. -/
def Literal.outline (literal : Literal) : Outline := .node (.value literal) literal.parts

def argumentsOutline (written : ArgumentList) : Outline :=
  .node (.arguments written) (written.map fun (name, literal) =>
    .node (.argument name literal) [literal.outline])

def Directive.outline (location : DirectiveLocation) (directive : Directive) : Outline :=
  .node (.directive directive location) [argumentsOutline directive.arguments]

mutual

def Selection.outline : Selection → Outline
  | .field node => node.outline
  | .spread node => .node (.spread node) (node.directives.map (Directive.outline .fragmentSpread))
  | .inline node => node.outline
termination_by structural selection => selection

def Field.outline : Field → Outline
  | ⟨position, label, name, written, applied, under⟩ =>
      .node (.field ⟨position, label, name, written, applied, under⟩)
        (argumentsOutline written :: (applied.map (Directive.outline .field) ++
          if under.isEmpty then []
          else [.node (.selectionSet position under) (selectionOutlines under)]))
termination_by structural field => field

def InlineFragment.outline : InlineFragment → Outline
  | ⟨position, condition, applied, under⟩ =>
      .node (.inline ⟨position, condition, applied, under⟩)
        (applied.map (Directive.outline .inlineFragment) ++
          [.node (.selectionSet position under) (selectionOutlines under)])
termination_by structural fragment => fragment

def selectionOutlines : List Selection → List Outline
  | [] => []
  | selection :: selections => selection.outline :: selectionOutlines selections
termination_by structural selections => selections

end

def selectionSetOutline (owner : Position) (under : List Selection) : Outline :=
  .node (.selectionSet owner under) (selectionOutlines under)

def VariableDefinition.outline (definition : VariableDefinition) : Outline :=
  .node (.variableDefinition definition) (definition.default.toList.map Literal.outline)

def Definition.outline : Definition → Outline
  | .operation node =>
      .node (.operation node)
        (node.variableDefinitions.map VariableDefinition.outline ++
          (node.directives.map (Directive.outline (Walk.operationLocation node.kind)) ++
            [selectionSetOutline node.position node.selections]))
  | .fragment node =>
      .node (.fragment node)
        (node.directives.map (Directive.outline .fragmentDefinition) ++
          [selectionSetOutline node.position node.selections])

def Document.outline (document : Document) : Outline :=
  .node (.document document) (document.definitions.map Definition.outline)

/-! ## Going through an outline -/

/-- A node on the way in or out: its address, and its path from the inside out, itself first. -/
structure Stop where
  address : List Nat
  path : List SyntaxNode
  visit : Visit
  leaving : Bool

namespace Stop

/-- A stop in a part, as a stop in the whole. -/
def under (node : SyntaxNode) (number : Nat) (stop : Stop) : Stop :=
  { stop with address := number :: stop.address, path := stop.path ++ [node] }

end Stop

namespace Outline

/-- The nodes on the way to an address, the innermost first. -/
def path? : Outline → List Nat → Option (List SyntaxNode)
  | node root _, [] => some [root]
  | node root parts, number :: address =>
      (parts[number]?.bind fun part => part.path? address).map (· ++ [root])

mutual

def stops : Outline → List Stop
  | node root parts =>
      ⟨[], [root], root.enter, false⟩ ::
        (partStops root 0 parts ++
          root.leave?.toList.map fun visit => ⟨[], [root], visit, true⟩)

/-- The stops in the parts of a node, numbered from one on. -/
def partStops (root : SyntaxNode) (number : Nat) : List Outline → List Stop
  | [] => []
  | part :: parts => part.stops.map (Stop.under root number) ++ partStops root (number + 1) parts

end

/-- A node is called at once on the way in, before the nodes under it, and once on the way out if at
all, after them; the other stops are not under it. -/
def VisitedOnce (stops : List Stop) (address : List Nat) (path : List SyntaxNode) : Prop :=
  ∃ root outer before inside after, path = root :: outer ∧
    stops = before ++ ⟨address, path, root.enter, false⟩ :: (inside ++
      (root.leave?.toList.map fun visit => ⟨address, path, visit, true⟩) ++ after) ∧
    (∀ stop ∈ inside, address <+: stop.address ∧ stop.address ≠ address) ∧
    ∀ stop ∈ before ++ after, ¬address <+: stop.address

/-- The addresses in the order in which they are entered. -/
def entries (stops : List Stop) : List (List Nat) :=
  (stops.filter fun stop => !stop.leaving).map Stop.address

variable {root : SyntaxNode} {parts : List Outline} {part : Outline} {stop : Stop} {number : Nat}

/-! ### The parts of a node -/

private theorem partStops_append (left right : List Outline) :
    partStops root number (left ++ right) =
      partStops root number left ++ partStops root (number + left.length) right := by
  induction left generalizing number with
  | nil => rfl
  | cons part left induction =>
      simp only [List.cons_append, partStops, induction, List.append_assoc, List.length_cons]
      rw [Nat.add_right_comm, Nat.add_assoc]

private theorem mem_partStops (member : stop ∈ partStops root number parts) :
    ∃ index, ∃ part : Outline, parts[index]? = some part ∧
      ∃ inner ∈ part.stops, stop = inner.under root (number + index) := by
  induction parts generalizing number with
  | nil => cases member
  | cons part parts induction =>
      rw [partStops, List.mem_append, List.mem_map] at member
      rcases member with ⟨inner, inside, rfl⟩ | member
      · exact ⟨0, part, rfl, inner, inside, rfl⟩
      · rcases induction member with ⟨index, found, known, inner, inside, rfl⟩
        refine ⟨index + 1, found, known, inner, inside, ?_⟩
        rw [Nat.add_assoc, Nat.add_comm 1]

/-- Stops come from nodes of the outline. -/
theorem path?_of_stop (address : List Nat) (outline : Outline) (member : stop ∈ outline.stops)
    (isAddress : stop.address = address) : outline.path? address = some stop.path := by
  induction address generalizing outline stop with
  | nil =>
      rcases outline with ⟨root, parts⟩
      simp only [stops, List.mem_cons, List.mem_append, List.mem_map] at member
      rcases member with rfl | member | ⟨visit, _, rfl⟩
      · rfl
      · rcases mem_partStops member with ⟨_, _, _, _, _, rfl⟩
        cases isAddress
      · rfl
  | cons number address induction =>
      rcases outline with ⟨root, parts⟩
      simp only [stops, List.mem_cons, List.mem_append, List.mem_map] at member
      rcases member with rfl | member | ⟨visit, _, rfl⟩
      · cases isAddress
      · rcases mem_partStops member with ⟨index, part, known, inner, inside, rfl⟩
        rw [Stop.under, Nat.zero_add] at isAddress ⊢
        cases isAddress
        simp [path?, known, induction part inside rfl]
      · cases isAddress

/-! ### Once, and in order -/

private theorem split_at {index : Nat} (known : parts[index]? = some part) :
    ∃ left right, parts = left ++ part :: right ∧ left.length = index := by
  rcases List.getElem?_eq_some_iff.mp known with ⟨within, isPart⟩
  refine ⟨parts.take index, parts.drop (index + 1), ?_,
    List.length_take_of_le (Nat.le_of_lt within)⟩
  rw [← isPart, ← List.drop_eq_getElem_cons, List.take_append_drop]

theorem visitedOnce_of_path (address : List Nat) (outline : Outline) {path : List SyntaxNode}
    (leads : outline.path? address = some path) : VisitedOnce outline.stops address path := by
  induction address generalizing outline path with
  | nil =>
      rcases outline with ⟨root, parts⟩
      cases leads
      refine ⟨root, [], [], partStops root 0 parts, [], rfl, by simp [stops], ?_, by simp⟩
      intro stop member
      rcases mem_partStops member with ⟨_, _, _, _, _, rfl⟩
      exact ⟨List.nil_prefix, List.cons_ne_nil _ _⟩
  | cons number address induction =>
      rcases outline with ⟨root, parts⟩
      simp only [path?, Option.map_eq_some_iff, Option.bind_eq_some_iff] at leads
      rcases leads with ⟨inner, ⟨part, known, leads⟩, rfl⟩
      rcases induction part leads with
        ⟨node, outer, before, inside, after, rfl, isStops, below, apart⟩
      rcases split_at known with ⟨left, right, rfl, isNumber⟩
      let whole (stops : List Stop) := stops.map (Stop.under root number)
      refine ⟨node, outer ++ [root],
        ⟨[], [root], root.enter, false⟩ :: (partStops root 0 left ++ whole before),
        whole inside,
        whole after ++ (partStops root (number + 1) right ++
          root.leave?.toList.map fun visit => ⟨[], [root], visit, true⟩), rfl, ?_, ?_, ?_⟩
      · simp [stops, partStops_append, partStops, isStops, isNumber, whole, Stop.under]
      · intro stop member
        rcases List.mem_map.mp member with ⟨inner, isInside, rfl⟩
        rcases below inner isInside with ⟨under, other⟩
        exact ⟨(List.prefix_cons_inj number).mpr under,
          fun same => other (List.cons.inj same).2⟩
      · intro stop member within
        simp only [List.mem_append, List.mem_cons, List.mem_map, whole] at member
        rcases member with (rfl | member | ⟨inner, member, rfl⟩) |
          ⟨inner, member, rfl⟩ | member | ⟨visit, _, rfl⟩
        · exact absurd (List.prefix_nil.mp within) (List.cons_ne_nil _ _)
        · rcases mem_partStops member with ⟨index, part, known, inner, _, rfl⟩
          have less := (List.getElem?_eq_some_iff.mp known).1
          have same := (List.cons_prefix_cons.mp within).1
          omega
        · exact apart inner (List.mem_append_left after member)
            (List.cons_prefix_cons.mp within).2
        · exact apart inner (List.mem_append_right before member)
            (List.cons_prefix_cons.mp within).2
        · rcases mem_partStops member with ⟨index, part, known, inner, _, rfl⟩
          have same := (List.cons_prefix_cons.mp within).1
          omega
        · exact absurd (List.prefix_nil.mp within) (List.cons_ne_nil _ _)

/-! Entering goes by the order of addresses, a node before what is under it. -/

private theorem entries_append (left right : List Stop) :
    entries (left ++ right) = entries left ++ entries right := by
  rw [entries, List.filter_append, List.map_append]
  rfl

private theorem entries_under (stops : List Stop) :
    entries (stops.map (Stop.under root number)) = (entries stops).map (number :: ·) := by
  simp only [entries, List.filter_map, List.map_map]
  rfl

private theorem entries_stops :
    entries (node root parts).stops = [] :: entries (partStops root 0 parts) := by
  have leaves (visits : List Visit) :
      entries (visits.map fun visit => ⟨[], [root], visit, true⟩) = [] := by
    simp [entries]
  rw [stops, ← List.singleton_append, entries_append, entries_append, leaves, List.append_nil]
  rfl

private theorem number_le_of_entry {address : List Nat}
    (member : address ∈ entries (partStops root number parts)) :
    ∃ first rest, address = first :: rest ∧ number ≤ first := by
  rcases List.mem_map.mp member with ⟨stop, entered, rfl⟩
  rcases mem_partStops (List.mem_filter.mp entered).1 with ⟨index, part, _, inner, _, rfl⟩
  exact ⟨_, _, rfl, Nat.le_add_right number index⟩

mutual

theorem entries_sorted (outline : Outline) : (entries outline.stops).Pairwise (· < ·) := by
  cases outline with
  | node root parts =>
      rw [entries_stops, List.pairwise_cons]
      refine ⟨fun address member => ?_, entries_parts_sorted root 0 parts⟩
      rcases number_le_of_entry member with ⟨first, rest, rfl, _⟩
      exact List.nil_lt_cons first rest
termination_by structural outline

private theorem entries_parts_sorted (root : SyntaxNode) (number : Nat) (parts : List Outline) :
    (entries (partStops root number parts)).Pairwise (· < ·) := by
  cases parts with
  | nil => exact .nil
  | cons part parts =>
      rw [partStops, entries_append, entries_under, List.pairwise_append]
      refine ⟨?_, entries_parts_sorted root (number + 1) parts, ?_⟩
      · exact (entries_sorted part).map _ fun _ _ less =>
          List.cons_lt_cons_iff.mpr (.inr ⟨rfl, less⟩)
      · intro address member other later
        rcases List.mem_map.mp member with ⟨inner, _, rfl⟩
        rcases number_le_of_entry later with ⟨first, rest, rfl, after⟩
        exact List.cons_lt_cons_iff.mpr (.inl after)
termination_by structural parts

end

end Outline

end GraphQL
