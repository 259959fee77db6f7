import GraphQL.Yaml.Cursor

/-!
Block scalars: indented lines that are taken as they stand, or folded.
-/

namespace GraphQL

namespace Yaml

namespace Block

inductive Chomping where
  /-- All are left out. -/
  | strip
  /-- One is kept. -/
  | clip
  /-- All are kept. -/
  | keep
deriving DecidableEq

private def chomping? : Char → Option Chomping
  | '+' => some .keep
  | '-' => some .strip
  | _ => none

structure Header where
  chomping : Chomping := .clip
  increment : Option Nat := none
  cursor : Cursor

private def increment? (cursor : Cursor) : Option (Option Nat × Cursor) :=
  match cursor.next? with
  | none => some (none, cursor)
  | some char =>
      if !char.isDigit then some (none, cursor)
      else if char == '0' then none
      else some (some (char.toNat - '0'.toNat), cursor.past 1)

private def header? (cursor : Cursor) : Option Header :=
  match cursor.next?.bind chomping? with
  | some chomping => do
      let (increment, cursor) ← increment? (cursor.past 1)
      return ⟨chomping, increment, cursor⟩
  | none => do
      let (increment, cursor) ← increment? cursor
      match increment.bind fun _ => cursor.next?.bind chomping? with
      | some chomping => return ⟨chomping, increment, cursor.past 1⟩
      | none => return ⟨.clip, increment, cursor⟩

private def skipIndent (indent : Nat) : (steps : Nat) → (breaks : Nat) → Cursor → Nat × Cursor
  | 0, breaks, cursor => (breaks, cursor)
  | steps + 1, breaks, cursor =>
      let spaces := cursor.rest.takeWhile (· == ' ')
      let cursor := cursor.advance (min spaces.length (indent - cursor.column))
      if cursor.next?.any isBreak then skipIndent indent steps (breaks + 1) cursor.nextLine
      else (breaks, cursor)

/-- Skip lines of spaces up to the first one with content, and its indentation. Gives the deepest
column that was reached, and the number of those lines. -/
private def firstIndent : (steps : Nat) → (deepest breaks : Nat) → Cursor → Nat × Nat × Cursor
  | 0, deepest, breaks, cursor => (deepest, breaks, cursor)
  | steps + 1, deepest, breaks, cursor =>
      let cursor := cursor.advance (cursor.rest.takeWhile (· == ' ')).length
      let deepest := max deepest cursor.column
      if cursor.next?.any isBreak then firstIndent steps deepest (breaks + 1) cursor.nextLine
      else (deepest, breaks, cursor)

structure Lines where
  text : List Char := []
  /-- A line break ends the last line. -/
  broken : Bool := false
  /-- How many empty lines follow it. -/
  empty : Nat := 0
  /-- The last line starts with a blank, so it is not folded. -/
  blank : Bool := false
  cursor : Cursor

private def Lines.between (lines : Lines) (folded blank : Bool) : List Char :=
  if folded && lines.broken && !lines.blank && !blank then
    if lines.empty = 0 then [' '] else List.replicate lines.empty '\n'
  else List.replicate ((if lines.broken then 1 else 0) + lines.empty) '\n'

private def readLines (folded : Bool) (indent : Nat) : (steps : Nat) → Lines → Lines
  | 0, lines => lines
  | steps + 1, lines =>
      let cursor := lines.cursor
      if cursor.column ≠ indent || cursor.rest.isEmpty || cursor.atMarker then lines
      else
        let blank := cursor.next?.any isBlank
        let line := cursor.rest.takeWhile fun char => !isBreak char
        let text := lines.text ++ lines.between folded blank ++ line
        let cursor := cursor.advance line.length
        if cursor.rest.isEmpty then ⟨text, false, 0, blank, cursor⟩
        else
          let (empty, cursor) := skipIndent indent cursor.rest.length 0 cursor.nextLine
          readLines folded indent steps ⟨text, true, empty, blank, cursor⟩

/-- What the line breaks at the end become. A last line without break gets one. -/
private def Lines.tail (lines : Lines) (indent : Nat) (chomping : Chomping) : List Char :=
  let last := if lines.broken then ['\n'] else []
  let added := if lines.cursor.rest.isEmpty ∧ max indent 1 ≤ lines.cursor.column then ['\n'] else []
  match chomping with
  | .strip => []
  | .clip => last ++ added
  | .keep => last ++ added ++ List.replicate lines.empty '\n'

private def emptyText (chomping : Chomping) (sameLine : Bool) (empty : Nat) : List Char :=
  match chomping with
  | .strip => []
  | .clip => if sameLine then [] else ['\n']
  | .keep => if sameLine then [] else List.replicate (max empty 1) '\n'

/-- Read a block scalar. The lines of what is around it are indented by `outer`; its own are
indented as its first line with content is, unless its header says how much. -/
def read (folded : Bool) (outer : Int) (start : Cursor) : Option (List Char × Cursor) := do
  let header ← header? (start.past 1)
  let gap ← header.cursor.gap? true
  if !endsLine gap.after.rest then none
  let first := gap.after.nextLine
  if first.next? == some '\t' then none
  let (indent, empty, cursor) := match header.increment with
    | some increment =>
        let indent := (max outer 0).toNat + increment
        (indent, skipIndent indent (first.rest.length + 1) 0 first)
    | none =>
        let (deepest, empty, cursor) := firstIndent (first.rest.length + 1) 0 0 first
        (max deepest (outer + 1).toNat, empty, cursor)
  if cursor.rest.isEmpty then
    some (emptyText header.chomping (cursor.line == start.line) empty, cursor)
  else if cursor.column < indent ∧ outer < cursor.column then none
  else
    let lines := readLines folded indent cursor.rest.length { empty := empty, cursor := cursor }
    some (lines.text ++ lines.tail indent header.chomping, lines.cursor)

end Block

end Yaml

end GraphQL
