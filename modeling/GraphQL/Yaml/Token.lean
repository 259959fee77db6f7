import GraphQL.Yaml.Block
import GraphQL.Yaml.Plain
import GraphQL.Yaml.Quoted
import GraphQL.Yaml.Tag

/-!
The tokens of a text of YAML. Indentation becomes tokens that open and close collections. Whether a
node is a key shows only at the colon behind it, so what opens its mapping is noted for the place
where the key began, and put there when all tokens are known.
-/

namespace GraphQL

namespace Yaml

inductive Token where
  | directive (directive : Directive)
  | documentStart
  | documentEnd
  | openSequence
  | openMapping
  /-- The end of a collection that is marked by indentation. -/
  | close
  /-- Brackets around a sequence. -/
  | openBracket
  | closeBracket
  /-- Braces around a mapping. -/
  | openBrace
  | closeBrace
  /-- The dash before an item. -/
  | item
  /-- The comma between entries. -/
  | comma
  | key
  | value
  | anchor (name : String)
  /-- The place of a node with an anchor. -/
  | alias (name : String)
  | tag (tag : Tag)
  | scalar (plain : Bool) (text : String)
deriving DecidableEq, Repr

structure Indent where
  /-- The column of the level around it. -/
  outer : Int
  /-- A collection was opened, which its end has to close. -/
  opens : Bool

/-- The last node that may turn out to be a key. -/
structure PendingKey where
  possible : Bool := false
  /-- Nothing else may stand here. -/
  required : Bool := false
  /-- The number of its first token. -/
  token : Nat := 0
  index : Nat := 0
  line : Nat := 0
  column : Nat := 0

structure Lexer where
  cursor : Cursor
  tokens : Array Token := #[]
  /-- Tokens that go before one with a number. -/
  inserted : List (Nat × List Token) := []
  /-- The last token is an anchor or a tag at the left border. -/
  propertyAtMargin : Bool := false
  keyAllowed : Bool := true
  pending : PendingKey := {}
  /-- The pending keys around brackets and braces that are open, innermost first. -/
  outer : List PendingKey := []
  indent : Int := -1
  indents : List Indent := []
  /-- For each open bracket, innermost first, the depth at which an entry is a mapping without
  braces. -/
  bare : List (Option Nat) := []
  /-- The keys of this place need no mapping of their own. -/
  inMapping : Bool := false
  /-- Where a colon may stand without a blank behind it. -/
  adjacent : Nat := 0

namespace Lexer

/-! ## Tokens and keys -/

private def depth (lexer : Lexer) : Nat := lexer.outer.length

private def inFlow (lexer : Lexer) : Bool := !lexer.outer.isEmpty

def push (lexer : Lexer) (token : Token) : Lexer :=
  { lexer with tokens := lexer.tokens.push token, propertyAtMargin := false }

private def pushProperty (lexer : Lexer) (token : Token) (column : Nat) : Lexer :=
  { lexer.push token with propertyAtMargin := column == 0 }

private def noteKey (lexer : Lexer) : Lexer :=
  if !lexer.keyAllowed then lexer
  else
    let cursor := lexer.cursor
    let required := !lexer.inFlow && lexer.indent == cursor.column &&
      lexer.indents.head?.any Indent.opens
    { lexer with
      pending := ⟨true, required, lexer.tokens.size, cursor.index, cursor.line, cursor.column⟩ }

private def dropKey (lexer : Lexer) : Option Lexer :=
  if lexer.pending.possible && lexer.pending.required then none
  else some { lexer with pending := { lexer.pending with possible := false } }

/-- A key stands on one line and is not too long, unless brackets are around it. -/
private def dropStaleKey (lexer : Lexer) : Option Lexer :=
  let cursor := lexer.cursor
  let pending := lexer.pending
  if !lexer.inFlow && (pending.line < cursor.line || pending.index + 1024 < cursor.index) then
    lexer.dropKey
  else some lexer

/-! ## Indentation -/

private def unroll (lexer : Lexer) (column : Int) : Lexer :=
  if lexer.inFlow then lexer else go lexer.indents lexer
where
  go : List Indent → Lexer → Lexer
    | [], lexer => lexer
    | level :: levels, lexer =>
        if column < lexer.indent then
          let lexer := { lexer with indent := level.outer, indents := levels }
          go levels (if level.opens then lexer.push .close else lexer)
        else lexer

private def leaveSteps (lexer : Lexer) : Lexer :=
  go lexer.indents lexer
where
  go : List Indent → Lexer → Lexer
    | [], lexer => lexer
    | level :: levels, lexer =>
        if level.opens then lexer
        else go levels { lexer with indent := level.outer, indents := levels }

/-- Require what comes next to be indented by one more column, without opening a collection. -/
private def enterStep (lexer : Lexer) : Lexer :=
  if !lexer.inFlow && lexer.indents.head?.any Indent.opens then
    { lexer with indents := ⟨lexer.indent, false⟩ :: lexer.indents, indent := lexer.indent + 1 }
  else lexer

/-- Enter a level at a column, if it is deeper. Tells whether a collection opens there. -/
private def roll (lexer : Lexer) (column : Nat) : Lexer × Bool :=
  if lexer.inFlow then (lexer, false)
  else
    let lexer : Lexer := match lexer.indents with
      | level :: levels =>
          if lexer.indent ≤ column && !level.opens then
            { lexer with indent := level.outer, indents := levels }
          else lexer
      | [] => lexer
    if lexer.indent < column then
      ({ lexer with indents := ⟨lexer.indent, true⟩ :: lexer.indents, indent := column }, true)
    else (lexer, false)

private def rollWith (lexer : Lexer) (column : Nat) (opening : Token) : Lexer :=
  let (lexer, opens) := lexer.roll column
  if opens then lexer.push opening else lexer

/-! ## Space between tokens -/

private def skipSpace : (steps : Nat) → Lexer → Option Lexer
  | 0, lexer => some lexer
  | steps + 1, lexer =>
      let cursor := lexer.cursor
      match cursor.next? with
      | none => some lexer
      | some char =>
          if char == '\t' && !lexer.indents.isEmpty && cursor.leading &&
              cursor.column < lexer.indent then do
            let gap ← cursor.gap? true
            if endsLine gap.after.rest then skipSpace steps { lexer with cursor := gap.after }
            else none
          else if isBlank char then skipSpace steps { lexer with cursor := cursor.advance 1 }
          else if isBreak char then
            skipSpace steps
              { lexer with
                cursor := cursor.nextLine
                keyAllowed := lexer.keyAllowed || !lexer.inFlow }
          else if char == '#' then
            let comment := cursor.rest.takeWhile fun char => !isBreak char
            skipSpace steps { lexer with cursor := cursor.past comment.length }
          else some lexer

private def skipAll (lexer : Lexer) : Option Lexer := lexer.skipSpace (lexer.cursor.rest.length + 1)

private def skipGap (lexer : Lexer) : Option Lexer := do
  let gap ← lexer.cursor.gap? true
  return { lexer with cursor := gap.after }

/-! ## Documents -/

private def leaveAll (lexer : Lexer) : Option Lexer := do
  let lexer ← (lexer.unroll (-1)).dropKey
  return { lexer with keyAllowed := false }

private def readDirective (lexer : Lexer) : Option Lexer := do
  let lexer ← lexer.leaveAll
  let (directive, cursor) ← Directive.read (lexer.cursor.past 1)
  return { lexer with cursor := cursor }.push (.directive directive)

private def readMarker (lexer : Lexer) (token : Token) : Option Lexer := do
  let lexer ← lexer.leaveAll
  return { lexer with cursor := lexer.cursor.past 3 }.push token

private def readDocumentEnd (lexer : Lexer) : Option Lexer := do
  let lexer ← lexer.readMarker .documentEnd
  let lexer ← lexer.skipGap
  if endsLine lexer.cursor.rest then some lexer else none

/-! ## Brackets and braces -/

private def endBare (lexer : Lexer) (depth : Nat) : Lexer :=
  match lexer.bare with
  | some opened :: more =>
      if opened = depth then
        { lexer with bare := none :: more, inMapping := false }.push .closeBrace
      else lexer
  | _ => lexer

private def readOpening (lexer : Lexer) (token : Token) : Option Lexer := do
  let lexer := lexer.noteKey.enterStep
  if 255 ≤ lexer.depth then none
  let lexer := { lexer with
    outer := lexer.pending :: lexer.outer
    pending := {}
    keyAllowed := true
    cursor := lexer.cursor.past 1 }
  let lexer := if token = .openBrace then { lexer with inMapping := true }
    else { lexer with bare := none :: lexer.bare }
  let lexer ← lexer.skipGap
  return lexer.push token

private def readClosing (lexer : Lexer) (token : Token) : Option Lexer := do
  let lexer ← lexer.dropKey
  let lexer := if token = .closeBracket then
      let lexer := lexer.endBare lexer.depth
      { lexer with bare := lexer.bare.tail }
    else lexer
  let lexer : Lexer := match lexer.outer with
    | pending :: outer => { lexer with pending := pending, outer := outer }
    | [] => lexer
  let lexer := { lexer with keyAllowed := false, cursor := lexer.cursor.past 1 }
  let lexer ← lexer.skipGap
  let lexer := if lexer.inFlow then { lexer with adjacent := lexer.cursor.index } else lexer
  return lexer.push token

private def readComma (lexer : Lexer) : Option Lexer := do
  let lexer ← lexer.dropKey
  let lexer := { lexer with keyAllowed := true }.endBare lexer.depth
  let lexer ← { lexer with cursor := lexer.cursor.past 1 }.skipGap
  return lexer.push .comma

/-! ## Items, keys and values -/

private def readItem (lexer : Lexer) : Option Lexer := do
  let column := lexer.cursor.column
  if lexer.inFlow || !lexer.keyAllowed then none
  if lexer.propertyAtMargin && column = 0 && -1 < lexer.indent then none
  let lexer := { lexer with cursor := lexer.cursor.past 1 }.rollWith column .openSequence
  let gap ← lexer.cursor.gap? true
  match gap.after.rest with
  | '-' :: rest => if gap.tabs && endsWord rest then none
  | _ => pure ()
  let lexer := { lexer with cursor := gap.after }
  let lexer :=
    if gap.after.next?.any fun char => isBreak char || isFlowMark char then lexer.enterStep
    else lexer
  let lexer ← lexer.dropKey
  return { lexer with keyAllowed := true }.push .item

private def skipBehindKey : (steps : Nat) → Lexer → Lexer
  | 0, lexer => lexer
  | steps + 1, lexer =>
      let cursor := lexer.cursor
      match cursor.next? with
      | some ' ' => skipBehindKey steps { lexer with cursor := cursor.advance 1 }
      | some '#' =>
          let comment := cursor.rest.takeWhile fun char => !isBreak char
          skipBehindKey steps { lexer with cursor := cursor.past comment.length }
      | some char =>
          if isBreak char then
            skipBehindKey steps
              { lexer with
                cursor := cursor.nextLine
                keyAllowed := lexer.keyAllowed || !lexer.inFlow }
          else lexer
      | none => lexer

private def readKey (lexer : Lexer) : Option Lexer := do
  let column := lexer.cursor.column
  if !lexer.inFlow && !lexer.keyAllowed then none
  let lexer := if lexer.inFlow then { lexer with inMapping := true }
    else lexer.rollWith column .openMapping
  let lexer ← lexer.dropKey
  let lexer := { lexer with keyAllowed := !lexer.inFlow, cursor := lexer.cursor.past 1 }
  if lexer.cursor.next?.all (· == '\t') then none
  let lexer := lexer.skipBehindKey (lexer.cursor.rest.length + 1)
  if lexer.cursor.next? == some '\t' then none
  return lexer.push .key

private def readValue (lexer : Lexer) : Option Lexer := do
  let start := lexer.cursor
  let pending := lexer.pending
  let bare := !lexer.bare.isEmpty && !lexer.inMapping
  let lexer := if bare then { lexer with bare := some lexer.depth :: lexer.bare.tail } else lexer
  let cursor := start.past 1
  let cursor ←
    if cursor.next? ≠ some '\t' then some cursor
    else do
      let gap ← cursor.gap? true
      if !gap.spaces && gap.after.next?.any isNameChar then none
      else some gap.after
  let lexer := { lexer with cursor := cursor }
  let lexer ←
    if pending.possible then
      if bare && pending.line < start.line then none
      else
        let (lexer, opens) := lexer.roll pending.column
        let opening := (if opens then [Token.openMapping] else []) ++
          (if bare then [Token.openBrace] else []) ++ [Token.key]
        some { lexer.enterStep with
          inserted := (pending.token, opening) :: lexer.inserted
          pending := { pending with possible := false }
          keyAllowed := false }
    else
      let lexer := if bare then lexer.push .openBrace else lexer
      if !lexer.inFlow && !lexer.keyAllowed then none
      else
        let lexer := (lexer.rollWith start.column .openMapping).enterStep
        some { lexer with keyAllowed := !lexer.inFlow }
  return lexer.push .value

/-! ## Nodes -/

private def readAnchor (lexer : Lexer) (token : String → Token) : Option Lexer := do
  let lexer := { lexer.noteKey with keyAllowed := false }
  let column := lexer.cursor.column
  let isPart (char : Char) : Bool :=
    !isBlank char && !isBreak char && !isFlowMark char && char.toNat != 0xFEFF
  let (name, cursor) := (lexer.cursor.past 1).takeWhile isPart
  if name.isEmpty then none
  return { lexer with cursor := cursor }.pushProperty (token (String.ofList name)) column

private def readTag (lexer : Lexer) : Option Lexer := do
  let lexer := { lexer.noteKey with keyAllowed := false }
  let column := lexer.cursor.column
  let (tag, cursor) ← Tag.read lexer.inFlow lexer.cursor
  return { lexer with cursor := cursor }.pushProperty (.tag tag) column

private def pushScalar (lexer : Lexer) (plain : Bool) (text : List Char) : Lexer :=
  lexer.push (.scalar plain (String.ofList text))

private def readBlock (lexer : Lexer) (folded : Bool) : Option Lexer := do
  let lexer := { lexer.noteKey with keyAllowed := true }.leaveSteps
  let (text, cursor) ← Block.read folded lexer.indent lexer.cursor
  return { lexer with cursor := cursor }.pushScalar false text

private def readQuoted (lexer : Lexer) (single : Bool) : Option Lexer := do
  let lexer := { lexer.noteKey with keyAllowed := false }
  let (text, cursor) ← Quoted.read single lexer.inFlow lexer.indent lexer.cursor
  let lexer ← { lexer with cursor := cursor }.skipAll
  return { lexer with adjacent := lexer.cursor.index }.pushScalar false text

private def readPlain (lexer : Lexer) : Option Lexer := do
  let lexer := { lexer.noteKey with keyAllowed := false }.leaveSteps
  let (text, cursor) ← Plain.read lexer.inFlow lexer.indent lexer.cursor
  return { lexer with cursor := cursor, keyAllowed := cursor.leading }.pushScalar true text

/-! ## All tokens -/

/-- A colon stands before a value if a blank follows it. Inside brackets it may also stand before a
structuring character, or behind what ends with a quote or bracket. -/
private def colonIsValue (lexer : Lexer) (rest : List Char) : Bool :=
  endsWord rest ||
    (lexer.inFlow && (rest.head?.any isFlowMark || lexer.cursor.index == lexer.adjacent))

private def readToken (lexer : Lexer) (char : Char) (rest : List Char) : Option Lexer :=
  let cursor := lexer.cursor
  if cursor.column = 0 ∧ char = '%' then lexer.readDirective
  else if cursor.column = 0 ∧ startsDocument cursor.rest then lexer.readMarker .documentStart
  else if cursor.column = 0 ∧ endsDocument cursor.rest then lexer.readDocumentEnd
  else if cursor.column < lexer.indent then none
  else match char with
    | '[' => lexer.readOpening .openBracket
    | '\x7b' => lexer.readOpening .openBrace
    | ']' => lexer.readClosing .closeBracket
    | '\x7d' => lexer.readClosing .closeBrace
    | ',' => lexer.readComma
    | '*' => lexer.readAnchor .alias
    | '&' => lexer.readAnchor .anchor
    | '!' => lexer.readTag
    | '\'' => lexer.readQuoted true
    | '"' => lexer.readQuoted false
    | '%' => none
    | '@' => none
    | '-' => if endsWord rest then lexer.readItem else lexer.readPlain
    | '?' => if endsWord rest then lexer.readKey else lexer.readPlain
    | ':' => if lexer.colonIsValue rest then lexer.readValue else lexer.readPlain
    | '|' => if lexer.inFlow then lexer.readPlain else lexer.readBlock false
    | '>' => if lexer.inFlow then lexer.readPlain else lexer.readBlock true
    | char => if char.toNat = 0x60 then none else lexer.readPlain

private def finish (lexer : Lexer) : Option Lexer :=
  if (lexer.pending :: lexer.outer).any fun key => key.possible && key.required then none
  else some (lexer.unroll (-1))

private def readAll : (steps : Nat) → Lexer → Option Lexer
  | 0, _ => none
  | steps + 1, lexer => do
      let lexer ← lexer.skipAll
      let lexer ← lexer.dropStaleKey
      let lexer := lexer.unroll lexer.cursor.column
      match lexer.cursor.rest with
      | [] => lexer.finish
      | char :: rest => do
          let lexer ← lexer.readToken char rest
          readAll steps lexer

/-- The tokens in order, with those inserted that go before others. -/
private def allTokens (lexer : Lexer) : List Token :=
  let before (number : Nat) : List Token := (lexer.inserted.lookup number).getD []
  (lexer.tokens.toList.zipIdx.flatMap fun (token, number) => before number ++ [token]) ++
    before lexer.tokens.size

end Lexer

def tokens? (text : List Char) : Option (List Token) := do
  let text := text.takeWhile (· ≠ Char.ofNat 0)
  let lexer ← Lexer.readAll (text.length + 1) { cursor := ⟨text, 0, 0, 0, true⟩ }
  return lexer.allTokens

end Yaml

end GraphQL
