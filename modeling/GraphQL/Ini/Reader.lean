import GraphQL.Json.Basic
import GraphQL.Text.Blank
import GraphQL.Text.Digits

/-!
Reading settings in sections: headers in brackets, and below them lines of keys with their values,
all of which are texts. Of equal sections the last one counts as a whole.
-/

namespace GraphQL

namespace Ini

structure Place where
  before : Char
  rest : List Char

namespace Place

private def advance (place : Place) (count : Nat) : Place :=
  ⟨((place.rest.take count).getLast?).getD place.before, place.rest.drop count⟩

private def skip (place : Place) (test : Char → Bool) : Place :=
  place.advance (place.rest.takeWhile test).length

end Place

/-! ## Texts -/

/-- The character of an escape. Most characters stand for themselves. -/
private def escape : Char → Char
  | '0' => Char.ofNat 0
  | 'a' => Char.ofNat 7
  | 'b' => Char.ofNat 8
  | 't' => '\t'
  | 'r' => '\r'
  | 'n' => '\n'
  | other => other

/-- Read a text up to a character that ends it. Without `open_` it has to be there. -/
private def readUntil (isEnd : Char → Bool) (open_ : Bool) :
    (steps : Nat) → (text : List Char) → Place → Option (List Char × Place)
  | 0, _, _ => none
  | steps + 1, text, place =>
      match place.rest with
      | [] => if open_ then some (text.reverse, place) else none
      | char :: rest =>
          if isEnd char then some (text.reverse, place)
          else if char != '\\' then readUntil isEnd open_ steps (char :: text) (place.advance 1)
          else match rest with
            | [] => none
            | '\n' :: _ => readUntil isEnd open_ steps text (place.advance 2)
            | 'x' :: digits => do
                if digits.length < 4 then none
                let char ← (hexNumber? (digits.take 4)).bind charOfCode?
                readUntil isEnd open_ steps (char :: text) (place.advance 6)
            | mark :: _ => readUntil isEnd open_ steps (escape mark :: text) (place.advance 2)

private def readTo (isEnd : Char → Bool) (open_ : Bool) (place : Place) :
    Option (List Char × Place) :=
  readUntil isEnd open_ (place.rest.length + 1) [] place

private def isBreak (char : Char) : Bool := char == '\n' || char == '\r'

private def trimEnd (text : List Char) : List Char := (text.reverse.dropWhile isWhiteSpace).reverse

private def readValue : (steps : Nat) → (text : List Char) → (first : Bool) → Place →
    Option (List Char × Place)
  | 0, _, _, _ => none
  | steps + 1, text, first, place =>
      match place.rest with
      | [] => some (text, place)
      | char :: _ =>
          if char == '"' || char == '\'' then do
            let (quoted, place) ← readTo (· == char) false (place.advance 1)
            readValue steps (text ++ quoted) false (place.advance 1)
          else do
            let (line, place) ← readTo isBreak true place
            return (text ++ (if first then trimWhiteSpace line else trimEnd line), place)

/-! ## Sections -/

structure Section where
  name : Option String
  entries : List (String × String) := []

private def addEntry : List Section → String → String → List Section
  | [], key, value => [⟨none, [(key, value)]⟩]
  | [last], key, value => [{ last with entries := last.entries ++ [(key, value)] }]
  | first :: more, key, value => first :: addEntry more key value

private def trimmedText (text : List Char) : String := String.ofList (trimWhiteSpace text)

/-- Read sections and entries. `key` is a key whose value comes next. A comment starts its line. -/
private def readSections :
    (steps : Nat) → (key : String) → List Section → Place → Option (List Section)
  | 0, _, _, _ => none
  | steps + 1, key, sections, place =>
      let place := place.skip isWhiteSpace
      match place.rest with
      | [] => some sections
      | char :: _ =>
          if char == ';' || char == '#' then
            if place.before != '\n' then none
            else readSections steps key sections (place.skip (· != '\n'))
          else if char == '[' then do
            let (name, place) ← readTo (· == ']') false (place.advance 1)
            readSections steps key (sections ++ [⟨some (trimmedText name), []⟩]) (place.advance 1)
          else if char == '=' || char == ':' then do
            if key.isEmpty then none
            let start := (place.advance 1).skip fun char => isWhiteSpace char && !isBreak char
            let (value, place) ← readValue (start.rest.length + 1) [] true start
            readSections steps "" (addEntry sections key (trimmedText value)) place
          else do
            let (key, place) ← readTo (fun char => char == '=' || char == ':') false place
            readSections steps (trimmedText key) sections place

private def tableOf (entries : List (String × String)) : List (String × Json) :=
  Named.ofList (entries.map fun entry => (entry.1, Json.string entry.2))

private def rootOf (sections : List Section) : List (String × Json) :=
  Named.ofList (sections.flatMap fun part =>
    match part.name with
    | some name => [(name, Json.object (tableOf part.entries))]
    | none => tableOf part.entries)

def ofText? (text : String) : Option Json := do
  let sections ← readSections (2 * text.length + 2) "" [] ⟨'\n', text.toList⟩
  return .object (rootOf sections)

end Ini

end GraphQL
