import GraphQL.Decimal.Layout
import GraphQL.Decimal.Reading
import GraphQL.Json.Basic

/-!
Settings as a tree of values: putting trees over one another, and reading values of a kind from it.
Readers are lenient about scalars, so a number may be given as a text.
-/

namespace GraphQL

abbrev SettingsTree := List (String × Json)

namespace SettingsTree

/-! ## Putting values into a tree -/

mutual

/-- A value put over another one: tables are joined, anything else replaces what was there. -/
private def overlay : Json → Json → Json
  | .object fields, below => .object (overlayEntries fields (below.asObject?.getD []))
  | value, _ => value

private def overlayEntries : List (String × Json) → List (String × Json) → List (String × Json)
  | [], entries => entries
  | (key, value) :: fields, entries =>
      overlayEntries fields
        (Named.put entries (key, overlay value ((Named.value? entries key).getD .null)))

end

inductive Step where
  | key (name : String)
  /-- Places count from the front, or with a minus sign from the end. -/
  | place (index : Int)
deriving DecidableEq, Repr

/-- The items of a list with those that a place needs, and the place in them. Items before the front
or behind the end are null. -/
private def makePlace (items : List Json) (index : Int) : List Json × Nat :=
  if 0 ≤ index then
    (items ++ List.replicate (index.toNat + 1 - items.length) .null, index.toNat)
  else if index.natAbs ≤ items.length then (items, items.length - index.natAbs)
  else (List.replicate (index.natAbs - items.length) .null ++ items, 0)

/-- Put a value some steps below another one. What is no table or list on the way becomes one. -/
private def putBelow (value : Json) : List Step → Json → Json
  | [], below => overlay value below
  | .key name :: steps, below =>
      let entries := below.asObject?.getD []
      let inner := putBelow value steps ((Named.value? entries name).getD .null)
      .object (Named.put entries (name, inner))
  | .place index :: steps, below =>
      let (items, place) := makePlace (below.asArray?.getD []) index
      .array (items.modify place (putBelow value steps))

structure Path where
  root : String
  steps : List Step := []

def put (tree : SettingsTree) (value : Json) (path : Path) : SettingsTree :=
  let inner := putBelow value path.steps ((Named.value? tree path.root).getD .null)
  Named.put tree (path.root, inner)

/-! ## Paths -/

private def isPathChar (char : Char) : Bool := char.isAlphanum || char == '_' || char == '-'

private def readPlace (text : List Char) : Option (Int × List Char) := do
  let isBlank (char : Char) : Bool := char == ' ' || char == '\t'
  let (negative, text) := match text.dropWhile isBlank with
    | '-' :: rest => (true, rest)
    | rest => (false, rest)
  let digits := text.takeWhile Char.isDigit
  let index ← if digits.isEmpty then none else int64? negative (digitsValue digits)
  match (text.dropWhile Char.isDigit).dropWhile isBlank with
  | ']' :: rest => some (index, rest)
  | _ => none

private def readSteps : (fuel : Nat) → List Char → Option (List Step)
  | _, [] => some []
  | 0, _ => none
  | fuel + 1, '.' :: rest => do
      let name := rest.takeWhile isPathChar
      if name.isEmpty then none
      let steps ← readSteps fuel (rest.dropWhile isPathChar)
      return .key (String.ofList name) :: steps
  | fuel + 1, '[' :: rest => do
      let (place, rest) ← readPlace rest
      let steps ← readSteps fuel rest
      return .place place :: steps
  | _, _ => none

private def Path.ofKey (key : String) : Path :=
  let root := key.toList.takeWhile isPathChar
  match readSteps key.length (key.toList.dropWhile isPathChar) with
  | some steps => if root.isEmpty then ⟨key, []⟩ else ⟨String.ofList root, steps⟩
  | none => ⟨key, []⟩

def addSource (tree : SettingsTree) (entries : List (String × Json)) : SettingsTree :=
  entries.foldl (fun tree entry => tree.put entry.2 (Path.ofKey entry.1)) tree

end SettingsTree

/-! ## Reading values -/

namespace Setting

private def lowered (text : String) : String := String.ofList (text.toList.map Char.toLower)

private def truthWord? (word : String) : Option Bool :=
  if ["true", "on", "yes"].contains (lowered word) then some true
  else if ["false", "off", "no"].contains (lowered word) then some false
  else none

def truth? : Json → Option Bool
  | .bool value => some value
  | .number (.int value) => some (value != 0)
  | .number (.float value) => some (value != 0.0)
  | .string "1" => some true
  | .string "0" => some false
  | .string word => truthWord? word
  | _ => none

def digits? (text : String) : Option Nat :=
  let digits := match text.toList with
    | '+' :: rest => rest
    | chars => chars
  if digits.isEmpty || !digits.all Char.isDigit then none else countOf? (digitsValue digits)

/-- A count as a number, a text or a truth value. Doubles are rounded into the range. -/
def count? : Json → Option Nat
  | .bool value => some value.toNat
  | .number (.int value) => countOf? value
  | .number (.float value) => some value.round.toUInt64.toNat
  | .string text =>
      match truthWord? text with
      | some value => some value.toNat
      | none => digits? text
  | _ => none

def text? : Json → Option String
  | .string text => some text
  | .bool value => some (toString value)
  | .number (.int value) => some (toString value)
  | .number (.float value) => some (FloatLayout.literal.write (Double.ofFloat value))
  | _ => none

def texts? : Json → Option (List String)
  | .array items => items.mapM text?
  | _ => none

def optional? {α : Type} (read? : Json → Option α) : Json → Option (Option α)
  | .null => some none
  | value => (read? value).map some

def choice? {α : Type} (ofName? : String → Option α) : Json → Option α
  | .string name => ofName? name
  | .object [(name, _)] => ofName? name
  | _ => none

/-- The values in a section by name. A table may hold no other keys; a list gives the values in
order. -/
def section? (names : List String) : Json → Option (String → Option Json)
  | .object entries =>
      if entries.all fun entry => names.contains entry.1 then some (Named.value? entries) else none
  | .array items => some fun name => (names.zip items).lookup name
  | _ => none

def orDefault {α : Type} (value? : Option Json) (default : α) (read? : Json → Option α) :
    Option α :=
  match value? with
  | none => some default
  | some value => read? value

end Setting

end GraphQL
