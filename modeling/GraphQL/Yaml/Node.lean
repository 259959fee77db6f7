import GraphQL.Yaml.Scalar
import GraphQL.Yaml.Token

/-!
The values of the nodes that tokens describe. An alias stands for the value of the node with its
anchor, as far as that node has ended.
-/

namespace GraphQL

namespace Yaml

namespace Value

mutual

def same : Value → Value → Bool
  | .null, .null => true
  | .bool left, .bool right => left == right
  | .int left, .int right => left == right
  | .real left, .real right => left == right
  | .string left, .string right => left == right
  | .sequence left, .sequence right => sameItems left right
  | .mapping left, .mapping right => sameEntries left right
  | .bad, .bad => true
  | _, _ => false

private def sameItems : List Value → List Value → Bool
  | [], [] => true
  | left :: lefts, right :: rights => same left right && sameItems lefts rights
  | _, _ => false

private def sameEntries : List (Value × Value) → List (Value × Value) → Bool
  | [], [] => true
  | (key, left) :: lefts, (other, right) :: rights =>
      same key other && same left right && sameEntries lefts rights
  | _, _ => false

end

/-- The entries of a mapping by its nodes, keys and values in turn. A key may not be repeated; a bad
one is left out, and so is one without a value. -/
private def entries? : List Value → Option (List (Value × Value))
  | .bad :: nodes => entries? nodes
  | key :: value :: nodes => do
      let entries ← entries? nodes
      if entries.any fun entry => entry.1.same key then none else some ((key, value) :: entries)
  | _ => some []

end Value

structure Composer where
  tokens : List Token
  /-- What the handles of tags stand for. -/
  handles : List (String × String) := []
  /-- The numbers of the nodes with anchors, later anchors first. -/
  anchors : List (String × Nat) := []
  /-- The values of nodes with anchors that have ended. -/
  values : List (Nat × Value) := []
  /-- The number of the next node with an anchor. -/
  next : Nat := 1

namespace Composer

def rest (composer : Composer) : Composer := { composer with tokens := composer.tokens.tail }

def resolve? (composer : Composer) (tag : Tag) : Option Tag :=
  match composer.handles.lookup tag.handle with
  | some start => some ⟨start, tag.suffix⟩
  | none =>
      if tag.handle = "!!" then some ⟨Tag.core, tag.suffix⟩
      else if tag.handle.length < 2 then some tag
      else none

private def addAnchor (composer : Composer) (name : String) : Nat × Composer :=
  (composer.next,
    { composer with
      anchors := (name, composer.next) :: composer.anchors
      next := composer.next + 1 })

structure Properties where
  anchor : Option Nat := none
  tag : Option Tag := none

private def properties? (composer : Composer) : Option (Properties × Composer) :=
  match composer.tokens with
  | .anchor name :: .tag tag :: tokens => do
      let (number, composer) := { composer with tokens := tokens }.addAnchor name
      let tag ← composer.resolve? tag
      return (⟨some number, some tag⟩, composer)
  | .anchor name :: tokens =>
      let (number, composer) := { composer with tokens := tokens }.addAnchor name
      some (⟨some number, none⟩, composer)
  | .tag tag :: .anchor name :: tokens => do
      let (number, composer) := { composer with tokens := tokens }.addAnchor name
      let tag ← composer.resolve? tag
      return (⟨some number, some tag⟩, composer)
  | .tag tag :: tokens => do
      let tag ← composer.resolve? tag
      return (⟨none, some tag⟩, { composer with tokens := tokens })
  | _ => some ({}, composer)

private def endNode (composer : Composer) (properties : Properties) (value : Value) :
    Value × Composer :=
  match properties.anchor with
  | some number => (value, { composer with values := (number, value) :: composer.values })
  | none => (value, composer)

private def alias? (composer : Composer) (name : String) : Option Value :=
  (composer.anchors.lookup name).map fun number => (composer.values.lookup number).getD .bad

private def isLeftOut (ends : List Token) (composer : Composer) : Bool :=
  composer.tokens.head?.any ends.contains

mutual

/-- The value of the node that starts here. Collections that are marked by indentation may stand
only in some places, and without indentation of their own in even fewer. -/
private def readNode :
    (fuel : Nat) → (block unindented : Bool) → Composer → Option (Value × Composer)
  | 0, _, _, _ => none
  | fuel + 1, block, unindented, composer =>
      match composer.tokens with
      | .alias name :: _ => (composer.alias? name).map (·, composer.rest)
      | _ => do
          let (properties, composer) ← composer.properties?
          let (value, composer) ← match composer.tokens with
            | .scalar plain text :: _ =>
                some (Scalar.value plain properties.tag text, composer.rest)
            | .openBracket :: _ => do
                let (items, composer) ← readBracket fuel true composer.rest
                some (.sequence items, composer)
            | .openBrace :: _ => do
                let (nodes, composer) ← readBrace fuel true composer.rest
                let entries ← Value.entries? nodes
                some (.mapping entries, composer)
            | token :: _ => do
                if token = .item ∧ unindented then
                  let (items, composer) ← readUnindented fuel composer
                  some (.sequence items, composer)
                else if token = .openSequence ∧ block then
                  let (items, composer) ← readSequence fuel composer.rest
                  some (.sequence items, composer)
                else if token = .openMapping ∧ block then
                  let (nodes, composer) ← readMapping fuel composer.rest
                  let entries ← Value.entries? nodes
                  some (.mapping entries, composer)
                else empty properties composer
            | [] => empty properties composer
          return composer.endNode properties value
where
  /-- Only a node with anchor or tag may be empty. -/
  empty (properties : Properties) (composer : Composer) : Option (Value × Composer) :=
    if properties.anchor.isSome || properties.tag.isSome then
      some (Scalar.value true properties.tag "", composer)
    else none

private def readOptional : (fuel : Nat) → (ends : List Token) → (block unindented : Bool) →
    Composer → Option (Value × Composer)
  | 0, _, _, _, _ => none
  | fuel + 1, ends, block, unindented, composer =>
      if composer.isLeftOut ends then some (.null, composer)
      else readNode fuel block unindented composer

private def readSequence : (fuel : Nat) → Composer → Option (List Value × Composer)
  | 0, _ => none
  | fuel + 1, composer =>
      match composer.tokens with
      | .close :: _ => some ([], composer.rest)
      | .item :: _ => do
          let (item, composer) ← readOptional fuel [.item, .close] true false composer.rest
          let (items, composer) ← readSequence fuel composer
          return (item :: items, composer)
      | _ => none

private def readUnindented : (fuel : Nat) → Composer → Option (List Value × Composer)
  | 0, _ => none
  | fuel + 1, composer =>
      match composer.tokens with
      | .item :: _ => do
          let (item, composer) ←
            readOptional fuel [.item, .key, .value, .close] true false composer.rest
          let (items, composer) ← readUnindented fuel composer
          return (item :: items, composer)
      | _ => some ([], composer)

private def readMappingValue : (fuel : Nat) → Composer → Option (Value × Composer)
  | 0, _ => none
  | fuel + 1, composer =>
      match composer.tokens with
      | .value :: _ => readOptional fuel [.key, .value, .close] true true composer.rest
      | _ => some (.null, composer)

private def readMapping : (fuel : Nat) → Composer → Option (List Value × Composer)
  | 0, _ => none
  | fuel + 1, composer =>
      match composer.tokens with
      | .close :: _ => some ([], composer.rest)
      | .key :: _ => do
          let (key, composer) ←
            readOptional fuel [.key, .value, .close] true true composer.rest
          let (value, composer) ← readMappingValue fuel composer
          let (nodes, composer) ← readMapping fuel composer
          return (key :: value :: nodes, composer)
      | .value :: _ => do
          let (value, composer) ← readMappingValue fuel composer
          let (nodes, composer) ← readMapping fuel composer
          return (.null :: value :: nodes, composer)
      | _ => none

private def readBracket : (fuel : Nat) → (first : Bool) → Composer → Option (List Value × Composer)
  | 0, _, _ => none
  | fuel + 1, first, composer => do
      if composer.tokens.head? = some .closeBracket then
        return ([], composer.rest)
      if !first && composer.tokens.head? ≠ some .comma then none
      let composer := if first then composer else composer.rest
      match composer.tokens with
      | .closeBracket :: _ => some ([], composer.rest)
      | .key :: _ => do
          let composer := composer.rest
          let (key, composer) ←
            if composer.isLeftOut [.value, .comma, .closeBracket] then some (.null, composer.rest)
            else readNode fuel false false composer
          let (value, composer) ← match composer.tokens with
            | .value :: _ => readOptional fuel [.comma, .closeBracket] false false composer.rest
            | _ => some (.null, composer)
          let entries ← Value.entries? [key, value]
          let (items, composer) ← readBracket fuel false composer
          return (.mapping entries :: items, composer)
      | _ => do
          let (item, composer) ← readNode fuel false false composer
          let (items, composer) ← readBracket fuel false composer
          return (item :: items, composer)

private def readBrace : (fuel : Nat) → (first : Bool) → Composer → Option (List Value × Composer)
  | 0, _, _ => none
  | fuel + 1, first, composer => do
      if composer.tokens.head? = some .closeBrace then
        return ([], composer.rest)
      if !first && composer.tokens.head? ≠ some .comma then none
      let composer := if first then composer else composer.rest
      match composer.tokens with
      | .closeBrace :: _ => some ([], composer.rest)
      | .key :: _ => do
          let (key, composer) ←
            readOptional fuel [.value, .comma, .closeBrace] false false composer.rest
          let (value, composer) ← readBraceValue fuel composer
          let (nodes, composer) ← readBrace fuel false composer
          return (key :: value :: nodes, composer)
      | .value :: _ => do
          let (value, composer) ← readBraceValue fuel composer
          let (nodes, composer) ← readBrace fuel false composer
          return (.null :: value :: nodes, composer)
      | _ => do
          let (key, composer) ← readNode fuel false false composer
          let (nodes, composer) ← readBrace fuel false composer
          return (key :: .null :: nodes, composer)

private def readBraceValue : (fuel : Nat) → Composer → Option (Value × Composer)
  | 0, _ => none
  | fuel + 1, composer =>
      match composer.tokens with
      | .value :: _ => readOptional fuel [.comma, .closeBrace] false false composer.rest
      | _ => some (.null, composer)

end

/-! ## Documents -/

/-- Read directives. Only the last one counts, and there may be one version. -/
private def readDirectives : List Token → (version : Bool) → List (String × String) →
    Option (List (String × String) × List Token)
  | .directive .version :: tokens, version, _ =>
      if version then none else readDirectives tokens true []
  | .directive (.tag handle start) :: tokens, version, _ =>
      readDirectives tokens version [(handle, start)]
  | tokens, _, handles => some (handles, tokens)

private def endsContent : Token → Bool
  | .directive _ => true
  | .documentStart => true
  | .documentEnd => true
  | _ => false

/-- The values of all documents. The first one, and one behind an end of document, needs no mark at
its start. -/
private def readDocuments : (fuel : Nat) → (unmarked : Bool) → Composer → Option (List Value)
  | 0, _, _ => none
  | fuel + 1, unmarked, composer => do
      let tokens := composer.tokens.dropWhile (· = .documentEnd)
      if tokens.isEmpty then return []
      let composer := { composer with tokens := tokens, anchors := [] }
      let marked := tokens.head?.any endsContent || !unmarked
      let (value, composer) ←
        if marked then do
          let (handles, tokens) ← readDirectives tokens false composer.handles
          if tokens.head? ≠ some .documentStart then none
          let composer := { composer with tokens := tokens.tail, handles := handles }
          if composer.tokens.head?.all endsContent then some (.null, composer)
          else readNode (4 * tokens.length + 4) true false composer
        else readNode (4 * tokens.length + 4) true false composer
      let composer := { composer with handles := [] }
      match composer.tokens with
      | .documentEnd :: tokens => do
          let values ← readDocuments fuel true { composer with tokens := tokens }
          return value :: values
      | .directive _ :: _ => none
      | _ => do
          let values ← readDocuments fuel false composer
          return value :: values

end Composer

def values? (text : List Char) : Option (List Value) := do
  let tokens ← tokens? text
  Composer.readDocuments (tokens.length + 1) true { tokens := tokens }

end Yaml

end GraphQL
