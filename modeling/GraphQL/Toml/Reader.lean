import GraphQL.Named
import GraphQL.Toml.Scalar

/-!
Reading TOML: lines with keys and values, below the headers of the tables that they belong to. What
is written once may not be written again in another form.
-/

namespace GraphQL

namespace Toml

inductive Item where
  /-- A value that is complete as it was written. -/
  | value (value : Json)
  /-- A table. Only one that no header has named yet may get a header or keys with points. -/
  | table (named dotted : Bool) (entries : List (String × Item))
  /-- The tables of a repeated header, the last one first. -/
  | tables (tables : List (List (String × Item)))

instance : Inhabited Item := ⟨.value .null⟩

abbrev Table := List (String × Item)

namespace Item

mutual

def toJson : Item → Json
  | .value json => json
  | .table _ _ entries => .object (entriesToJson entries)
  | .tables elements => .array (tablesToJson elements).reverse

private def entriesToJson : List (String × Item) → List (String × Json)
  | [] => []
  | (key, item) :: entries => (key, toJson item) :: entriesToJson entries

private def tablesToJson : List (List (String × Item)) → List Json
  | [] => []
  | entries :: elements => .object (entriesToJson entries) :: tablesToJson elements

end

end Item

namespace Table

/-- Change the table at a path, making the tables on the way. `dotted` says that the path is a key
with points, which does not lead into tables with a header of their own. -/
private def change (dotted : Bool) (edit : Table → Option Table) :
    List String → Table → Option Table
  | [], table => edit table
  | key :: keys, table =>
      match Named.value? table key with
      | none => do
          let inner ← change dotted edit keys []
          return Named.put table (key, .table false dotted inner)
      | some (.table named wasDotted entries) =>
          if dotted && named then none
          else do
            let inner ← change dotted edit keys entries
            return Named.put table (key, .table named wasDotted inner)
      | some (.tables (last :: others)) =>
          if dotted then none
          else do
            let inner ← change dotted edit keys last
            return Named.put table (key, .tables (inner :: others))
      | some _ => none

def put (table : Table) (path : List String) (value : Json) : Option Table :=
  match path.getLast? with
  | none => none
  | some key =>
      change true
        (fun table =>
          if Named.contains table key then none else some (Named.put table (key, .value value)))
        path.dropLast table

private def openTable (table : Table) (path : List String) : Option Table :=
  match path.getLast? with
  | none => none
  | some key =>
      change false
        (fun table =>
          match Named.value? table key with
          | none => some (Named.put table (key, .table true false []))
          | some (.table false false entries) =>
              some (Named.put table (key, .table true false entries))
          | some _ => none)
        path.dropLast table

/-- Begin one more table of a repeated header. -/
private def addTable (table : Table) (path : List String) : Option Table :=
  match path.getLast? with
  | none => none
  | some key =>
      change false
        (fun table =>
          match Named.value? table key with
          | none => some (Named.put table (key, .tables [[]]))
          | some (.tables tables) => some (Named.put table (key, .tables ([] :: tables)))
          | some _ => none)
        path.dropLast table

end Table

/-! ## Keys and values -/

private def skipSpace : (steps : Nat) → List Char → List Char
  | 0, text => text
  | steps + 1, text =>
      match skipBlanks text with
      | '#' :: rest => skipSpace steps (rest.dropWhile isPlain)
      | rest =>
          match afterBreak? rest with
          | some rest => skipSpace steps rest
          | none => rest

private def skipAll (text : List Char) : List Char := skipSpace (text.length + 1) text

private def isKeyChar (char : Char) : Bool := char.isAlphanum || char == '_' || char == '-'

private def readKeyPart (text : List Char) : Option (String × List Char) :=
  match text with
  | '"' :: rest => (readLineText '"' (rest.length + 1) rest).map fun (key, rest) =>
      (String.ofList key, rest)
  | '\'' :: rest => (readLineText '\'' (rest.length + 1) rest).map fun (key, rest) =>
      (String.ofList key, rest)
  | _ =>
      let key := text.takeWhile isKeyChar
      if key.isEmpty then none else some (String.ofList key, text.drop key.length)

private def readKey : (steps : Nat) → List Char → Option (List String × List Char)
  | 0, _ => none
  | steps + 1, text => do
      let (part, rest) ← readKeyPart (skipBlanks text)
      match skipBlanks rest with
      | '.' :: rest => do
          let (parts, rest) ← readKey steps rest
          return (part :: parts, rest)
      | rest => return ([part], rest)

private def readString (quote : Char) (text : List Char) : Option (Json × List Char) :=
  (readTextIn quote text).map fun (text, rest) => (.string (String.ofList text), rest)

mutual

private def readValue : (fuel : Nat) → List Char → Option (Json × List Char)
  | 0, _ => none
  | fuel + 1, text =>
      match text with
      | '[' :: rest => do
          let (items, rest) ← readItems fuel (skipAll rest)
          return (.array items, rest)
      | '\x7b' :: rest => do
          let (table, rest) ← readEntries fuel [] (skipAll rest)
          return (.object (Item.entriesToJson table), rest)
      | '"' :: _ => readString '"' text
      | '\'' :: _ => readString '\'' text
      | _ => readWord text

private def readItems : (fuel : Nat) → List Char → Option (List Json × List Char)
  | 0, _ => none
  | _, ']' :: rest => some ([], rest)
  | fuel + 1, text => do
      let (item, rest) ← readValue fuel text
      match skipAll rest with
      | ',' :: rest => do
          let (items, rest) ← readItems fuel (skipAll rest)
          return (item :: items, rest)
      | ']' :: rest => some ([item], rest)
      | _ => none

private def readEntries : (fuel : Nat) → Table → List Char → Option (Table × List Char)
  | 0, _, _ => none
  | _, table, '\x7d' :: rest => some (table, rest)
  | fuel + 1, table, text => do
      let (path, rest) ← readKey (text.length + 1) text
      match rest with
      | '=' :: rest => do
          let (value, rest) ← readValue fuel (skipBlanks rest)
          let table ← table.put path value
          match skipAll rest with
          | ',' :: rest => readEntries fuel table (skipAll rest)
          | '\x7d' :: rest => some (table, rest)
          | _ => none
      | _ => none

end

/-! ## Documents -/

private def endLine (text : List Char) : Option (List Char) :=
  let rest := match skipBlanks text with
    | '#' :: rest => rest.dropWhile isPlain
    | rest => rest
  if rest.isEmpty then some [] else afterBreak? rest

structure Reading where
  root : Table := []
  header : List String := []

def Reading.put (reading : Reading) (path : List String) (value : Json) : Option Reading := do
  let root ← Table.change false (fun table => table.put path value) reading.header reading.root
  return { reading with root := root }

private def readLine (reading : Reading) (text : List Char) : Option (Reading × List Char) :=
  match text with
  | '[' :: '[' :: rest => do
      let (path, rest) ← readKey (rest.length + 1) rest
      let root ← reading.root.addTable path
      match rest with
      | ']' :: ']' :: rest => some (⟨root, path⟩, rest)
      | _ => none
  | '[' :: rest => do
      let (path, rest) ← readKey (rest.length + 1) rest
      let root ← reading.root.openTable path
      match rest with
      | ']' :: rest => some (⟨root, path⟩, rest)
      | _ => none
  | _ => do
      let (path, rest) ← readKey (text.length + 1) text
      match rest with
      | '=' :: rest => do
          let rest := skipBlanks rest
          let (value, rest) ← readValue (2 * rest.length + 2) rest
          let reading ← reading.put path value
          return (reading, rest)
      | _ => none

private def readLines : (fuel : Nat) → Reading → List Char → Option Reading
  | 0, _, _ => none
  | fuel + 1, reading, text =>
      let text := skipAll text
      if text.isEmpty then some reading
      else do
        let (reading, rest) ← readLine reading text
        let rest ← endLine rest
        readLines fuel reading rest

def ofText? (text : String) : Option Json := do
  let reading ← readLines (text.length + 2) {} text.toList
  return .object (Item.entriesToJson reading.root)

end Toml

end GraphQL
