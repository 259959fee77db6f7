import GraphQL.Document.Literal
import GraphQL.Decimal.Reading
import GraphQL.Text.Blank
import GraphQL.Text.Digits
import GraphQL.Text.Lines
import GraphQL.Text.Reading

/-!
The tokens of a document. Blanks, commas and comments only move the position.
-/

namespace GraphQL

inductive Token where
  | mark (char : Char)
  | ellipsis
  | name (text : String)
  | int (value : Int)
  | float (value : Float)
  | string (value : String)

structure Located where
  position : Position
  token : Token

namespace Position

def advance (position : Position) (columns : Nat) : Position :=
  { position with column := position.column + columns }

def newLine (position : Position) : Position := ⟨position.line + 1, 1⟩

end Position

namespace Token

def isNameStart (char : Char) : Bool := char.isAlpha || char == '_'

def isNameChar (char : Char) : Bool := char.isAlphanum || char == '_'

def isMark (char : Char) : Bool :=
  ['(', ')', '[', ']', '\x7b', '\x7d', '!', '$', ':', '=', '@', '|', '&'].contains char

def opensBracket (char : Char) : Bool := char == '(' || char == '[' || char == '\x7b'

def closesBracket (char : Char) : Bool := char == ')' || char == ']' || char == '\x7d'

def endsNumber (char : Char) : Bool :=
  [' ', '\n', '\r', '\t', ',', '#', '!', '$', ':', '=', '@', '|', '&', '(', ')', '[', ']',
    '\x7b', '\x7d'].contains char

/-! ## Numbers -/

def isWholePart (digits : List Char) : Bool :=
  match digits with
  | [] => false
  | ['0'] => true
  | first :: rest => first != '0' && first.isDigit && rest.all Char.isDigit

/-- The exponent of a number: a sign and digits, or digits of which the first is 1 to 8. -/
def exponent? (text : List Char) : Option Int :=
  match text with
  | [] => none
  | first :: digits =>
      if !digits.all Char.isDigit then none
      else if first = '+' then (if digits = [] then none else some (digitsValue digits))
      else if first = '-' then (if digits = [] then none else some (-(digitsValue digits : Int)))
      else if '1' ≤ first ∧ first ≤ '8' then some (digitsValue (first :: digits))
      else none

def numeral? (text : List Char) : Option Numeral :=
  let (negative, magnitude) := match text with
    | '-' :: rest => (true, rest)
    | _ => (false, text)
  let isExponentMark := fun char : Char => char == 'e' || char == 'E'
  let mantissa := magnitude.takeWhile fun char => !isExponentMark char
  let afterMantissa := magnitude.dropWhile fun char => !isExponentMark char
  let whole := mantissa.takeWhile (· != '.')
  let afterWhole := mantissa.dropWhile (· != '.')
  if !isWholePart whole then none
  else
    let fraction : Option (Option (List Char)) := match afterWhole with
      | [] => some none
      | _ :: digits => if digits ≠ [] ∧ digits.all Char.isDigit then some (some digits) else none
    let exponent : Option (Option Int) := match afterMantissa with
      | [] => some none
      | _ :: text => (exponent? text).map some
    match fraction, exponent with
    | some fraction, some exponent => some ⟨negative, whole, fraction, exponent⟩
    | _, _ => none

/-- Whole numbers fit 64 bits; the others are doubles, infinite where they exceed all. -/
def number? (text : List Char) : Option Token :=
  match numeral? text with
  | none => none
  | some numeral =>
      if numeral.isWhole then
        if fitsInt64 numeral.toInt then some (.int numeral.toInt) else none
      else some (.float numeral.toFloat)

/-! ## Strings -/

/-- The character of a two-character escape. The letter b stands for U+0010. -/
def escape? : Char → Option Char
  | '"' => some '"'
  | '\\' => some '\\'
  | '/' => some '/'
  | 'n' => some '\n'
  | 'r' => some '\r'
  | 't' => some '\t'
  | 'f' => some '\x0c'
  | 'b' => some '\x10'
  | _ => none

def quotedExtent : List Char → Option (List Char × List Char)
  | [] => none
  | '"' :: rest => some ([], rest)
  | '\n' :: _ => none
  | '\\' :: escaped :: rest =>
      if escaped = '\n' then none
      else (quotedExtent rest).map fun (raw, after) => ('\\' :: escaped :: raw, after)
  | char :: rest => (quotedExtent rest).map fun (raw, after) => (char :: raw, after)

/-- The code of four characters after `\u`: hexadecimal digits, the first of which may be a plus
sign instead. -/
def escapedCode? (text : List Char) : Option Nat :=
  match text with
  | '+' :: digits => hexNumber? digits
  | digits => hexNumber? digits

def unescape : List Char → Option (List Char)
  | [] => some []
  | '\\' :: 'u' :: a :: b :: c :: d :: rest =>
      match (escapedCode? [a, b, c, d]).bind charOfCode? with
      | none => none
      | some char => (unescape rest).map (char :: ·)
  | '\\' :: escaped :: rest =>
      match escape? escaped with
      | none => none
      | some char => (unescape rest).map (char :: ·)
  | char :: rest => (unescape rest).map (char :: ·)

def blockExtent : List Char → Option (List Char × List Char)
  | [] => none
  | '\\' :: '"' :: '"' :: '"' :: rest =>
      (blockExtent rest).map fun (raw, after) => ('\\' :: '"' :: '"' :: '"' :: raw, after)
  | '"' :: '"' :: '"' :: rest => some ([], rest)
  | char :: rest => (blockExtent rest).map fun (raw, after) => (char :: raw, after)

def byteSize (text : List Char) : Nat := (text.map Char.utf8Size).foldl (· + ·) 0

def dropBytes : Nat → List Char → List Char
  | _, [] => []
  | bytes, char :: rest =>
      if bytes = 0 then char :: rest else dropBytes (bytes - char.utf8Size) rest

/-- The indentation that a block string loses: the least one of the lines after the first that are
not blank. -/
def commonIndent (all : List (List Char)) : Nat :=
  let indents := (all.drop 1).filterMap fun line =>
    if isAllWhiteSpace line then none else some (byteSize (line.takeWhile isWhiteSpace))
  indents.min?.getD 0

def unescapeBlock : List Char → List Char
  | [] => []
  | '\\' :: '"' :: '"' :: '"' :: rest => '"' :: '"' :: '"' :: unescapeBlock rest
  | char :: rest => char :: unescapeBlock rest

/-- The text that the raw characters of a block string stand for: without common indentation and
without blank lines at either end. -/
def blockText (raw : List Char) : List Char :=
  let all := textLines raw
  let indent := commonIndent all
  let stripped := match all with
    | [] => []
    | first :: more =>
        first :: more.map fun line => if byteSize line < indent then line else dropBytes indent line
  let kept := ((stripped.dropWhile isAllWhiteSpace).reverse.dropWhile isAllWhiteSpace).reverse
  unescapeBlock (List.intercalate ['\n'] kept)

/-! ## Tokens one by one -/

def positionAfter (position : Position) : List Char → Position
  | [] => position
  | '\n' :: rest => positionAfter position.newLine rest
  | _ :: rest => positionAfter (position.advance 1) rest

private theorem quotedExtent_shorter {text raw rest : List Char}
    (extent : quotedExtent text = some (raw, rest)) : rest.length < text.length := by
  fun_induction quotedExtent text generalizing raw rest with
  | case1 => cases extent
  | case2 => cases extent; simp
  | case3 => cases extent
  | case4 => cases extent
  | case5 _ _ _ induction =>
      obtain ⟨⟨inner, after⟩, found, equal⟩ := Option.map_eq_some_iff.mp extent
      cases equal
      have := induction found
      simp only [List.length_cons]
      omega
  | case6 _ _ _ _ _ induction =>
      obtain ⟨⟨inner, after⟩, found, equal⟩ := Option.map_eq_some_iff.mp extent
      cases equal
      have := induction found
      simp only [List.length_cons]
      omega

private theorem blockExtent_shorter {text raw rest : List Char}
    (extent : blockExtent text = some (raw, rest)) : rest.length < text.length := by
  fun_induction blockExtent text generalizing raw rest with
  | case1 => cases extent
  | case2 _ induction =>
      obtain ⟨⟨inner, after⟩, found, equal⟩ := Option.map_eq_some_iff.mp extent
      cases equal
      have := induction found
      simp only [List.length_cons]
      omega
  | case3 => cases extent; simp only [List.length_cons]; omega
  | case4 _ _ _ _ induction =>
      obtain ⟨⟨inner, after⟩, found, equal⟩ := Option.map_eq_some_iff.mp extent
      cases equal
      have := induction found
      simp only [List.length_cons]
      omega

def read (position : Position) (text : List Char) : Option (Read (Token × Position) text) :=
  match text with
  | [] => none
  | '.' :: '.' :: '.' :: rest => some ⟨(.ellipsis, position.advance 3), rest,
      length_lt_cons_of_lt _ (length_lt_cons_of_lt _ (length_lt_cons _ _))⟩
  | '"' :: '"' :: '"' :: rest =>
      match extent : blockExtent rest with
      | none => none
      | some (raw, after) =>
          some ⟨(.string (String.ofList (blockText raw)),
              positionAfter (position.advance 3) raw |>.advance 3), after,
            length_lt_cons_of_lt _ (length_lt_cons_of_lt _
              (length_lt_cons_of_lt _ (blockExtent_shorter extent)))⟩
  | '"' :: rest =>
      match extent : quotedExtent rest with
      | none => none
      | some (raw, after) =>
          match unescape raw with
          | none => none
          | some content =>
              some ⟨(.string (String.ofList content), position.advance (raw.length + 2)), after,
                length_lt_cons_of_lt _ (quotedExtent_shorter extent)⟩
  | first :: rest =>
      if isMark first then some ⟨(.mark first, position.advance 1), rest, length_lt_cons _ _⟩
      else if isNameStart first then
        let tail := rest.takeWhile isNameChar
        some ⟨(.name (String.ofList (first :: tail)), position.advance (tail.length + 1)),
          rest.dropWhile isNameChar, Nat.lt_succ_of_le (length_dropWhile_le _ _)⟩
      else if first.isDigit || first == '-' then
        let tail := rest.takeWhile fun char => !endsNumber char
        (number? (first :: tail)).map fun token =>
          ⟨(token, position.advance (tail.length + 1)),
            rest.dropWhile fun char => !endsNumber char,
            Nat.lt_succ_of_le (length_dropWhile_le _ _)⟩
      else none

mutual

def skipIgnored (position : Position) : List Char → Position × List Char
  | [] => (position, [])
  | char :: rest =>
      if char = '\ufeff' ∨ char = '\r' then skipIgnored position rest
      else if char = '\t' then skipIgnored (position.advance 8) rest
      else if char = '\n' then skipIgnored position.newLine rest
      else if char = ' ' ∨ char = ',' then skipIgnored (position.advance 1) rest
      else if char = '#' then skipComment position rest
      else (position, char :: rest)
termination_by structural text => text

def skipComment (position : Position) : List Char → Position × List Char
  | [] => (position, [])
  | char :: rest =>
      if char = '\r' ∨ char = '\n' then skipIgnored position.newLine rest
      else skipComment position rest
termination_by structural text => text

end

private theorem length_skipIgnored_le (text : List Char) :
    (∀ position, (skipIgnored position text).2.length ≤ text.length) ∧
      ∀ position, (skipComment position text).2.length ≤ text.length := by
  induction text with
  | nil => simp [skipIgnored, skipComment]
  | cons char rest induction =>
      obtain ⟨ignored, comment⟩ := induction
      constructor
      · intro position
        simp only [skipIgnored]
        repeat' split
        · exact Nat.le_succ_of_le (ignored _)
        · exact Nat.le_succ_of_le (ignored _)
        · exact Nat.le_succ_of_le (ignored _)
        · exact Nat.le_succ_of_le (ignored _)
        · exact Nat.le_succ_of_le (comment _)
        · exact Nat.le_refl _
      · intro position
        simp only [skipComment]
        split
        · exact Nat.le_succ_of_le (ignored _)
        · exact Nat.le_succ_of_le (comment _)

def maxOpen : Nat := 50

def openAfter (depth : Nat) : Token → Nat
  | .mark char =>
      if opensBracket char then depth + 1 else if closesBracket char then depth - 1 else depth
  | _ => depth

def scan (position : Position) (depth : Nat) (text : List Char) : Option (List Located) :=
  match front : skipIgnored position text with
  | (_, []) => some []
  | (start, first :: rest) =>
      match read start (first :: rest) with
      | none => none
      | some reading =>
          have : reading.rest.length < text.length := by
            have := (length_skipIgnored_le text).1 position
            have := reading.shorter
            simp_all only
            omega
          let (token, position) := reading.value
          let depth := openAfter depth token
          if maxOpen < depth then none
          else (scan position depth reading.rest).map (⟨start, token⟩ :: ·)
termination_by text.length

def ofText? (text : String) : Option (List Located) := scan ⟨1, 1⟩ 0 text.toList

end Token

end GraphQL
