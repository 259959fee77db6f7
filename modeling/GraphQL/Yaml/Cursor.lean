/-!
A place in a text of YAML: what is left of the text, and where it stands. Columns matter, since
indentation says what belongs together.
-/

namespace GraphQL

namespace Yaml

/-! ## Classes of characters -/

def isBlank (char : Char) : Bool := char == ' ' || char == '\t'

def isBreak (char : Char) : Bool := char == '\n' || char == '\r'

def isFlowMark (char : Char) : Bool := ",[]\x7b\x7d".toList.contains char

def isNameChar (char : Char) : Bool := char.isAlphanum || char == '_' || char == '-'

def endsLine (rest : List Char) : Bool := rest.head?.all isBreak

def endsWord (rest : List Char) : Bool := rest.head?.all fun char => isBlank char || isBreak char

def startsDocument : List Char → Bool
  | '-' :: '-' :: '-' :: rest => endsWord rest
  | _ => false

def endsDocument : List Char → Bool
  | '.' :: '.' :: '.' :: rest => endsWord rest
  | _ => false

/-! ## Places -/

structure Cursor where
  rest : List Char
  /-- How many characters come before. -/
  index : Nat := 0
  /-- How many line breaks come before. -/
  line : Nat := 0
  column : Nat := 0
  /-- Nothing but white space comes before on the same line. -/
  leading : Bool := true

namespace Cursor

def next? (cursor : Cursor) : Option Char := cursor.rest.head?

/-- Skip characters of the same line that are white space, or that need not be told from it. -/
def advance (cursor : Cursor) (count : Nat) : Cursor :=
  { cursor with
    rest := cursor.rest.drop count
    index := cursor.index + count
    column := cursor.column + count }

def past (cursor : Cursor) (count : Nat) : Cursor :=
  { cursor.advance count with leading := false }

def nextLine (cursor : Cursor) : Cursor :=
  match cursor.rest with
  | '\r' :: '\n' :: rest => ⟨rest, cursor.index + 2, cursor.line + 1, 0, true⟩
  | char :: rest =>
      if isBreak char then ⟨rest, cursor.index + 1, cursor.line + 1, 0, true⟩ else cursor
  | [] => cursor

def atMarker (cursor : Cursor) : Bool :=
  cursor.column == 0 && (startsDocument cursor.rest || endsDocument cursor.rest)

def takeWhile (cursor : Cursor) (test : Char → Bool) : List Char × Cursor :=
  let taken := cursor.rest.takeWhile test
  (taken, cursor.past taken.length)

end Cursor

structure Gap where
  after : Cursor
  tabs : Bool
  spaces : Bool

/-- Skip blanks and a comment up to the end of the line. A comment has to stand behind a blank. -/
def Cursor.gap? (cursor : Cursor) (tabs : Bool) : Option Gap :=
  let blanks := cursor.rest.takeWhile fun char => char == ' ' || (tabs && char == '\t')
  let after := cursor.advance blanks.length
  match after.next? with
  | some '#' =>
      if blanks.isEmpty then none
      else
        let comment := after.takeWhile fun char => !isBreak char
        some ⟨comment.2, blanks.contains '\t', blanks.contains ' '⟩
  | _ => some ⟨after, blanks.contains '\t', blanks.contains ' '⟩

/-- The text for some line breaks between two lines of one scalar: a single one becomes a space, of
more the first is left out. -/
def joinBreaks : (breaks : Nat) → List Char
  | 0 => []
  | 1 => [' ']
  | breaks + 2 => List.replicate (breaks + 1) '\n'

end Yaml

end GraphQL
