import GraphQL.Text.Digits
import GraphQL.Yaml.Cursor

/-!
Tags, which say what kind of value a node is, and the directives before a document, one of which
gives short handles to the beginnings of tags.
-/

namespace GraphQL

namespace Yaml

structure Tag where
  handle : String
  suffix : String
deriving DecidableEq, Repr

def Tag.core : String := "tag:yaml.org,2002:"

namespace Tag

/-! ## Characters of tags -/

private def isUriChar (char : Char) : Bool :=
  char.isAlphanum || "-#;/?:@&=+$,_.!~*'()[]%".toList.contains char

private def isTagChar (char : Char) : Bool := isUriChar char && !isFlowMark char && char != '!'

private def escapedByte? : List Char → Option Nat
  | '%' :: high :: low :: _ => hexNumber? [high, low]
  | _ => none

private def byteCount? (first : Nat) : Option Nat :=
  if first < 0x80 then some 1
  else if first / 0x20 = 6 then some 2
  else if first / 0x10 = 0xE then some 3
  else if first / 0x08 = 0x1E then some 4
  else none

/-- Read the bytes of a character behind its first one. All bytes together are its code. -/
private def moreBytes? : (count code : Nat) → List Char → Option Nat
  | 0, code, _ => some code
  | count + 1, code, text => do
      let byte ← escapedByte? text
      if byte / 0x40 = 2 then moreBytes? count (0x100 * code + byte) (text.drop 3) else none

private def escaped? (text : List Char) : Option (Char × Nat) := do
  let first ← escapedByte? text
  let count ← byteCount? first
  let code ← moreBytes? (count - 1) first (text.drop 3)
  let char ← charOfCode? code
  return (char, 3 * count)

private def readUri (isPart : Char → Bool) : (steps : Nat) → (text : List Char) → Cursor →
    Option (List Char × Cursor)
  | 0, text, cursor => some (text, cursor)
  | steps + 1, text, cursor =>
      match cursor.next? with
      | none => some (text, cursor)
      | some char =>
          if char == '%' then do
            let (char, length) ← escaped? cursor.rest
            readUri isPart steps (text ++ [char]) (cursor.past length)
          else if isPart char then readUri isPart steps (text ++ [char]) (cursor.past 1)
          else some (text, cursor)

private def readAll (isPart : Char → Bool) (cursor : Cursor) : Option (List Char × Cursor) :=
  readUri isPart cursor.rest.length [] cursor

/-! ## Reading tags -/

private def readHandle (directive : Bool) (cursor : Cursor) : Option (List Char × Cursor) :=
  if cursor.next? ≠ some '!' then none
  else
    let (name, cursor) := (cursor.past 1).takeWhile isNameChar
    if cursor.next? == some '!' then some ('!' :: name ++ ['!'], cursor.past 1)
    else if directive && !name.isEmpty then none
    else some ('!' :: name, cursor)

private def readVerbatim (cursor : Cursor) : Option (Tag × Cursor) := do
  let (text, cursor) ← readAll isUriChar (cursor.past 2)
  if cursor.next? == some '>' then some (⟨"", String.ofList text⟩, cursor.past 1) else none

/-- Read a tag with or without a handle. A lone exclamation mark is a suffix without handle. -/
private def readShort (cursor : Cursor) : Option (Tag × Cursor) := do
  let (handle, cursor) ← readHandle false cursor
  let (rest, cursor) ← readAll isTagChar cursor
  if 2 ≤ handle.length ∧ handle.getLast? = some '!' then
    if rest.isEmpty then none else some (⟨String.ofList handle, String.ofList rest⟩, cursor)
  else
    let suffix := handle.tail ++ rest
    if suffix.isEmpty then some (⟨"", "!"⟩, cursor) else some (⟨"!", String.ofList suffix⟩, cursor)

/-- Read a tag. A blank, the end of the line or, inside brackets, a structuring character follows
it. -/
def read (flow : Bool) (cursor : Cursor) : Option (Tag × Cursor) := do
  let (tag, cursor) ←
    if cursor.rest.tail.head? == some '<' then readVerbatim cursor else readShort cursor
  if endsWord cursor.rest || (flow && cursor.next?.any isFlowMark) then some (tag, cursor) else none

end Tag

/-! ## Directives -/

inductive Directive where
  | version
  /-- Tags with a handle begin with a text. -/
  | tag (handle start : String)
deriving DecidableEq, Repr

namespace Directive

private def skipNumber (cursor : Cursor) : Option Cursor :=
  let (digits, after) := cursor.takeWhile Char.isDigit
  if digits.isEmpty || 9 < digits.length then none else some after

private def skipBlanks (cursor : Cursor) : Cursor :=
  cursor.advance (cursor.rest.takeWhile isBlank).length

private def readVersion (cursor : Cursor) : Option (Directive × Cursor) := do
  let cursor ← skipNumber (skipBlanks cursor)
  if cursor.next? ≠ some '.' then none
  let cursor ← skipNumber (cursor.past 1)
  return (.version, cursor)

private def readStart (cursor : Cursor) : Option (List Char × Cursor) :=
  match cursor.next? with
  | none => none
  | some char =>
      if char == '!' then do
        let (text, cursor) ← Tag.readAll Tag.isUriChar (cursor.past 1)
        return (char :: text, cursor)
      else if Tag.isTagChar char then Tag.readAll Tag.isUriChar cursor
      else none

private def readTag (cursor : Cursor) : Option (Directive × Cursor) := do
  let (handle, cursor) ← Tag.readHandle true (skipBlanks cursor)
  let (start, cursor) ← readStart (skipBlanks cursor)
  if endsWord cursor.rest then
    some (.tag (String.ofList handle) (String.ofList start), cursor)
  else none

def read (cursor : Cursor) : Option (Directive × Cursor) := do
  let (name, cursor) := cursor.takeWhile isNameChar
  if name.isEmpty || !endsWord cursor.rest then none
  let (directive, cursor) ← match String.ofList name with
    | "YAML" => readVersion cursor
    | "TAG" => readTag cursor
    | _ => some (.tag "" "", cursor.past (cursor.rest.takeWhile fun char => !isBreak char).length)
  let gap ← cursor.gap? true
  if endsLine gap.after.rest then some (directive, gap.after.nextLine) else none

end Directive

end Yaml

end GraphQL
