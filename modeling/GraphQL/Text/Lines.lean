/-!
The lines of a text. A line ends at a line feed, of which a carriage return before it is part; what
follows the last line feed is a line too unless it is empty.
-/

namespace GraphQL

def splitAtLineFeeds : List Char → List (List Char)
  | [] => [[]]
  | char :: rest =>
      if char = '\n' then [] :: splitAtLineFeeds rest
      else match splitAtLineFeeds rest with
        | [] => [[char]]
        | first :: more => (char :: first) :: more

def dropReturn (line : List Char) : List Char :=
  if line.getLast? = some '\r' then line.dropLast else line

def textLines (text : List Char) : List (List Char) :=
  let pieces := splitAtLineFeeds text
  pieces.dropLast.map dropReturn ++ pieces.getLast?.toList.filter (· ≠ [])

example : textLines ['a', '\r', '\n', '\n', 'b', '\r'] = [['a'], [], ['b', '\r']] := by decide

end GraphQL
