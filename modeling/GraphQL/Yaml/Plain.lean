import GraphQL.Yaml.Cursor

/-!
Scalars without quotes. They end before a colon or comment, and may go on over lines that are
indented enough.
-/

namespace GraphQL

namespace Yaml

namespace Plain

/-- Whether a scalar without quotes goes on with a character. A colon ends it before a blank, and
inside brackets also before a structuring character. -/
private def goesOn (flow : Bool) (char : Char) (rest : List Char) : Bool :=
  if char == ':' then !(endsWord rest || (flow && rest.head?.any isFlowMark))
  else !(flow && isFlowMark char)

def word (flow : Bool) : List Char → List Char
  | [] => []
  | char :: rest =>
      if isBlank char || isBreak char || !goesOn flow char rest then []
      else char :: word flow rest

structure Space where
  blanks : List Char := []
  breaks : Nat := 0
  cursor : Cursor

def Space.text (space : Space) : List Char :=
  if space.breaks = 0 then space.blanks else joinBreaks space.breaks

/-- Skip blanks and line breaks. A tab may indent a line only if at most a comment follows; the end
of a line with a comment is not counted. -/
private def skipSpace (indent : Int) : (steps : Nat) → Space → Option Space
  | 0, space => some space
  | steps + 1, space =>
      let cursor := space.cursor
      match cursor.next? with
      | none => some space
      | some char =>
          if isBreak char then
            let breaks := if cursor.leading then space.breaks + 1 else max space.breaks 1
            skipSpace indent steps ⟨[], breaks, cursor.nextLine⟩
          else if !isBlank char then some space
          else if !cursor.leading then
            skipSpace indent steps
              { space with blanks := space.blanks ++ [char], cursor := cursor.advance 1 }
          else if char == '\t' && cursor.column < indent then do
            let gap ← cursor.gap? true
            if endsLine gap.after.rest then
              skipSpace indent steps { space with cursor := gap.after }
            else none
          else skipSpace indent steps { space with cursor := cursor.advance 1 }

private def readWords (flow : Bool) (indent : Int) : (steps : Nat) → (text : List Char) → Space →
    Option (List Char × Cursor)
  | 0, text, space => some (text, space.cursor)
  | steps + 1, text, space =>
      let cursor := space.cursor
      let word := word flow cursor.rest
      if cursor.atMarker || cursor.next? == some '#' then some (text, cursor)
      else if flow && cursor.next? == some '-' && cursor.rest.tail.head?.any isFlowMark then none
      else if word.isEmpty then some (text, cursor)
      else
        let text := text ++ space.text ++ word
        let cursor := cursor.past word.length
        if !cursor.next?.any fun char => isBlank char || isBreak char then some (text, cursor)
        else do
          let space ← skipSpace indent cursor.rest.length { cursor := cursor }
          if !flow && space.cursor.column < indent then some (text, space.cursor)
          else readWords flow indent steps text space

/-- Read a scalar without quotes. Its further lines, and inside brackets already the first one, are
indented deeper than `indent`. -/
def read (flow : Bool) (indent : Int) (cursor : Cursor) : Option (List Char × Cursor) :=
  if flow && cursor.column < indent + 1 then none
  else readWords flow (indent + 1) (cursor.rest.length + 1) [] { cursor := cursor }

end Plain

end Yaml

end GraphQL
