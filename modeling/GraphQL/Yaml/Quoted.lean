import GraphQL.Text.Digits
import GraphQL.Yaml.Cursor

/-!
Scalars in quotes. Inside single quotes a quote is written twice; double quotes have escapes.
-/

namespace GraphQL

namespace Yaml

namespace Quoted

private def escape? : Char → Option Char
  | '0' => some (Char.ofNat 0)
  | 'a' => some (Char.ofNat 7)
  | 'b' => some (Char.ofNat 8)
  | 't' => some '\t'
  | '\t' => some '\t'
  | 'n' => some '\n'
  | 'v' => some (Char.ofNat 11)
  | 'f' => some (Char.ofNat 12)
  | 'r' => some '\r'
  | 'e' => some (Char.ofNat 27)
  | ' ' => some ' '
  | '"' => some '"'
  | '/' => some '/'
  | '\\' => some '\\'
  | 'N' => some (Char.ofNat 0x85)
  | '_' => some (Char.ofNat 0xA0)
  | 'L' => some (Char.ofNat 0x2028)
  | 'P' => some (Char.ofNat 0x2029)
  | _ => none

private def escapeDigits? : Char → Option Nat
  | 'x' => some 2
  | 'u' => some 4
  | 'U' => some 8
  | _ => none

/-- The character of an escape by what follows the backslash, and how much of that it takes. -/
private def escaped? : List Char → Option (Char × Nat)
  | [] => none
  | mark :: rest =>
      match escapeDigits? mark with
      | some count =>
          if rest.length < count then none
          else ((hexNumber? (rest.take count)).bind charOfCode?).map (·, count + 1)
      | none => (escape? mark).map (·, 1)

structure Word where
  text : List Char
  /-- A backslash stands before the line break at its end. -/
  joined : Bool
  cursor : Cursor

private def readWord (single : Bool) : (steps : Nat) → Word → Option Word
  | 0, word => some word
  | steps + 1, word =>
      let cursor := word.cursor
      match cursor.rest with
      | [] => some word
      | char :: rest =>
          if isBlank char || isBreak char then some word
          else if single then
            if char != '\'' then
              readWord single steps
                { word with text := word.text ++ [char], cursor := cursor.past 1 }
            else if rest.head? == some '\'' then
              readWord single steps
                { word with text := word.text ++ [char], cursor := cursor.past 2 }
            else some word
          else if char == '"' then some word
          else if char != '\\' then
            readWord single steps
                { word with text := word.text ++ [char], cursor := cursor.past 1 }
          else if rest.head?.any isBreak then
            some ⟨word.text, true, (cursor.past 1).nextLine⟩
          else do
            let (char, length) ← escaped? rest
            readWord single steps
              { word with text := word.text ++ [char], cursor := cursor.past (length + 1) }

structure Space where
  blanks : List Char := []
  breaks : Nat := 0
  /-- The space is part of a new line. -/
  broken : Bool
  cursor : Cursor

private def skipSpace (indent : Int) : (steps : Nat) → Space → Option Space
  | 0, space => some space
  | steps + 1, space =>
      let cursor := space.cursor
      match cursor.next? with
      | none => some space
      | some char =>
          if isBreak char then
            skipSpace indent steps ⟨[], space.breaks + 1, true, cursor.nextLine⟩
          else if !isBlank char then some space
          else if !space.broken then
            skipSpace indent steps
              { space with blanks := space.blanks ++ [char], cursor := cursor.advance 1 }
          else if char == '\t' && cursor.column < indent then none
          else skipSpace indent steps { space with cursor := cursor.advance 1 }

def Space.text (space : Space) (joined : Bool) : List Char :=
  if !space.broken then space.blanks
  else if joined then List.replicate space.breaks '\n'
  else joinBreaks space.breaks

private def readWords (single : Bool) (indent : Int) : (steps : Nat) → (text : List Char) → Cursor →
    Option (List Char × Cursor)
  | 0, _, _ => none
  | steps + 1, text, cursor =>
      if cursor.atMarker || cursor.rest.isEmpty || cursor.column < indent then none
      else do
        let word ← readWord single cursor.rest.length ⟨[], false, cursor⟩
        let cursor := word.cursor
        if cursor.next? == some (if single then '\'' else '"') then
          some (text ++ word.text, cursor.past 1)
        else
          let space ← skipSpace indent cursor.rest.length
            { broken := word.joined, cursor := cursor }
          readWords single indent steps (text ++ word.text ++ space.text word.joined) space.cursor

/-- What may follow the closing quote: the end of the line, a colon, or inside brackets what goes on
there. A key outside of brackets stands on one line. -/
private def endsWell (flow sameLine : Bool) (rest : List Char) : Bool :=
  match rest with
  | [] => true
  | char :: _ =>
      isBreak char || (char == ':' && (flow || sameLine)) ||
        (flow && ",\x7d]".toList.contains char)

/-- Read a scalar in quotes. Its lines are indented at least by `indent`. -/
def read (single flow : Bool) (indent : Int) (start : Cursor) : Option (List Char × Cursor) := do
  let (text, cursor) ← readWords single indent (start.rest.length + 1) [] (start.past 1)
  let gap ← cursor.gap? true
  if endsWell flow (start.line == gap.after.line) gap.after.rest then some (text, gap.after)
  else none

end Quoted

end Yaml

end GraphQL
