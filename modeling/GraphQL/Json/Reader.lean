import GraphQL.Json.Basic
import GraphQL.Decimal.Reading
import GraphQL.Text.Digits
import GraphQL.Text.Reading

/-!
Reading JSON text. A number without point and exponent that fits 64 bits, signed or unsigned, is a
whole number; every other number is the nearest double, and one beyond all doubles is refused.
Arrays and objects nest at most 127 deep.
-/

namespace GraphQL

namespace Json

private def isBlank (char : Char) : Bool :=
  char == ' ' || char == '\n' || char == '\t' || char == '\r'

private def skipBlanks (chars : List Char) : List Char := chars.dropWhile isBlank

private theorem length_skipBlanks_le (chars : List Char) :
    (skipBlanks chars).length ≤ chars.length :=
  length_dropWhile_le _ _

private theorem length_lt_of_skipBlanks {text rest : List Char} {char : Char}
    (front : skipBlanks text = char :: rest) : rest.length < text.length := by
  have := length_skipBlanks_le text
  simp only [front, List.length_cons] at this
  omega

private def simpleEscape? : Char → Option Char
  | '"' => some '"'
  | '\\' => some '\\'
  | '/' => some '/'
  | 'b' => some '\x08'
  | 'f' => some '\x0c'
  | 'n' => some '\n'
  | 'r' => some '\r'
  | 't' => some '\t'
  | _ => none

private def readString : List Char → Option (List Char × List Char)
  | [] => none
  | '"' :: rest => some ([], rest)
  | '\\' :: 'u' :: a :: b :: c :: d :: '\\' :: 'u' :: e :: f :: g :: h :: rest =>
      match hexNumber? [a, b, c, d] with
      | none => none
      | some first =>
          match charOfCode? first with
          | some char =>
              (readString ('\\' :: 'u' :: e :: f :: g :: h :: rest)).map fun (chars, after) =>
                (char :: chars, after)
          | none =>
              match (hexNumber? [e, f, g, h]).bind (surrogatePair? first) with
              | none => none
              | some char => (readString rest).map fun (chars, after) => (char :: chars, after)
  | '\\' :: 'u' :: a :: b :: c :: d :: rest =>
      match (hexNumber? [a, b, c, d]).bind charOfCode? with
      | none => none
      | some char => (readString rest).map fun (chars, after) => (char :: chars, after)
  | '\\' :: escaped :: rest =>
      match simpleEscape? escaped with
      | none => none
      | some char => (readString rest).map fun (chars, after) => (char :: chars, after)
  | char :: rest =>
      if char.toNat < 0x20 ∨ char = '\\' then none
      else (readString rest).map fun (chars, after) => (char :: chars, after)

private theorem readString_shorter {text chars rest : List Char}
    (read : readString text = some (chars, rest)) : rest.length < text.length := by
  fun_induction readString text generalizing chars rest with
  | case1 => cases read
  | case2 tail =>
      cases read
      simp
  | case3 => cases read
  | case4 _ _ _ _ _ _ _ _ _ _ _ _ _ induction =>
      obtain ⟨⟨inner, after⟩, found, equal⟩ := Option.map_eq_some_iff.mp read
      cases equal
      have := induction found
      simp only [List.length_cons] at this ⊢
      omega
  | case5 => cases read
  | case6 _ _ _ _ _ _ _ _ _ _ _ _ _ _ induction =>
      obtain ⟨⟨inner, after⟩, found, equal⟩ := Option.map_eq_some_iff.mp read
      cases equal
      have := induction found
      simp only [List.length_cons]
      omega
  | case7 => cases read
  | case8 _ _ _ _ _ _ _ _ induction =>
      obtain ⟨⟨inner, after⟩, found, equal⟩ := Option.map_eq_some_iff.mp read
      cases equal
      have := induction found
      simp only [List.length_cons]
      omega
  | case9 => cases read
  | case10 _ _ _ _ _ _ induction =>
      obtain ⟨⟨inner, after⟩, found, equal⟩ := Option.map_eq_some_iff.mp read
      cases equal
      have := induction found
      simp only [List.length_cons]
      omega
  | case11 => cases read
  | case12 _ _ _ _ _ _ _ induction =>
      obtain ⟨⟨inner, after⟩, found, equal⟩ := Option.map_eq_some_iff.mp read
      cases equal
      have := induction found
      simp only [List.length_cons]
      omega

private def readDigits (text : List Char) : Option (Read (List Char) text) :=
  match text with
  | [] => none
  | first :: rest =>
      if first.isDigit then
        some ⟨first :: rest.takeWhile Char.isDigit, rest.dropWhile Char.isDigit,
          Nat.lt_succ_of_le (length_dropWhile_le _ _)⟩
      else none

private def readWhole (text : List Char) : Option (Read (List Char) text) :=
  match text with
  | '0' :: rest => some ⟨['0'], rest, length_lt_cons _ _⟩
  | text => readDigits text

private def readFraction (text : List Char) :
    Option (Option (List Char) × { rest : List Char // rest.length ≤ text.length }) :=
  match text with
  | '.' :: rest =>
      (readDigits rest).map fun digits =>
        (some digits.value, ⟨digits.rest, Nat.le_of_lt (Nat.lt_succ_of_lt digits.shorter)⟩)
  | text => some (none, ⟨text, Nat.le_refl _⟩)

private def readExponent (text : List Char) :
    Option (Option Int × { rest : List Char // rest.length ≤ text.length }) :=
  match text with
  | letter :: rest =>
      if letter = 'e' ∨ letter = 'E' then
        match rest with
        | '-' :: digits =>
            (readDigits digits).map fun digits =>
              (some (-(digitsValue digits.value : Int)),
                ⟨digits.rest, Nat.le_of_lt
                  (length_lt_cons_of_lt _ (length_lt_cons_of_lt _ digits.shorter))⟩)
        | '+' :: digits =>
            (readDigits digits).map fun digits =>
              (some (digitsValue digits.value : Int),
                ⟨digits.rest, Nat.le_of_lt
                  (length_lt_cons_of_lt _ (length_lt_cons_of_lt _ digits.shorter))⟩)
        | digits =>
            (readDigits digits).map fun digits =>
              (some (digitsValue digits.value : Int),
                ⟨digits.rest, Nat.le_of_lt (length_lt_cons_of_lt _ digits.shorter)⟩)
      else some (none, ⟨letter :: rest, Nat.le_refl _⟩)
  | [] => some (none, ⟨[], Nat.le_refl _⟩)

/-- The number a numeral stands for. Minus zero is a double. -/
private def ofNumeral? (numeral : Numeral) : Option Number :=
  let whole := numeral.toInt
  if numeral.isWhole ∧ (fitsInt64 whole ∨ (countOf? whole).isSome) ∧
      ¬(numeral.negative ∧ whole = 0) then
    some (.int whole)
  else
    let double := numeral.toFloat
    if (Double.ofFloat double).isFinite then some (.float double) else none

private def readMagnitude (negative : Bool) (text : List Char) : Option (Read Number text) :=
  match readWhole text with
  | none => none
  | some whole =>
      match readFraction whole.rest with
      | none => none
      | some (fraction, afterFraction) =>
          match readExponent afterFraction.val with
          | none => none
          | some (exponent, afterExponent) =>
              (ofNumeral? ⟨negative, whole.value, fraction, exponent⟩).map fun number =>
                ⟨number, afterExponent.val, Nat.lt_of_le_of_lt afterExponent.property
                  (Nat.lt_of_le_of_lt afterFraction.property whole.shorter)⟩

private def readNumber (text : List Char) : Option (Read Number text) :=
  match text with
  | '-' :: rest => (readMagnitude true rest).map (·.after (Nat.le_succ _))
  | text => readMagnitude false text

private theorem length_drop_lt {word text : List Char} (isFront : word.isPrefixOf text = true)
    (nonempty : 0 < word.length) : (text.drop word.length).length < text.length := by
  have := (List.isPrefixOf_iff_prefix.mp isFront).length_le
  simp only [List.length_drop]
  omega

private def readWord (word : List Char) (value : Json) (text : List Char)
    (nonempty : 0 < word.length) :
    Option (Read Json text) :=
  if isFront : word.isPrefixOf text then
    some ⟨value, text.drop word.length, length_drop_lt isFront nonempty⟩
  else none

mutual

private def readValue (depth : Nat) (text : List Char) : Option (Read Json text) :=
  match front : skipBlanks text with
  | [] => none
  | '"' :: rest =>
      match read : readString rest with
      | none => none
      | some (chars, after) => some ⟨.string (String.ofList chars), after,
          Nat.lt_trans (readString_shorter read) (length_lt_of_skipBlanks front)⟩
  | '[' :: rest =>
      match depth with
      | 0 => none
      | depth + 1 =>
          have shorter : rest.length < text.length := length_lt_of_skipBlanks front
          match afterOpening : skipBlanks rest with
          | ']' :: after => some ⟨.array [], after,
              Nat.lt_trans (length_lt_of_skipBlanks afterOpening) shorter⟩
          | _ => (readItems depth rest).map fun items =>
              ⟨.array items.value, items.rest, Nat.lt_trans items.shorter shorter⟩
  | '\x7b' :: rest =>
      match depth with
      | 0 => none
      | depth + 1 =>
          have shorter : rest.length < text.length := length_lt_of_skipBlanks front
          match afterOpening : skipBlanks rest with
          | '\x7d' :: after => some ⟨.object [], after,
              Nat.lt_trans (length_lt_of_skipBlanks afterOpening) shorter⟩
          | _ => (readFields depth rest).map fun fields =>
              ⟨.object (Named.ofList fields.value), fields.rest,
                Nat.lt_trans fields.shorter shorter⟩
  | first :: rest =>
      let reading : Option (Read Json (first :: rest)) :=
        if first = 't' then readWord ['t', 'r', 'u', 'e'] (.bool true) _ (by decide)
        else if first = 'f' then readWord ['f', 'a', 'l', 's', 'e'] (.bool false) _ (by decide)
        else if first = 'n' then readWord ['n', 'u', 'l', 'l'] .null _ (by decide)
        else (readNumber (first :: rest)).map (·.map .number)
      reading.map (·.after (front ▸ length_skipBlanks_le text))
termination_by (text.length, 0)

private def readItems (depth : Nat) (text : List Char) : Option (Read (List Json) text) :=
  match readValue depth text with
  | none => none
  | some item =>
      match rest : skipBlanks item.rest with
      | ',' :: more =>
          have shorter : more.length < text.length :=
            Nat.lt_trans (length_lt_of_skipBlanks rest) item.shorter
          (readItems depth more).map fun items =>
            ⟨item.value :: items.value, items.rest, Nat.lt_trans items.shorter shorter⟩
      | ']' :: after => some ⟨[item.value], after,
          Nat.lt_trans (length_lt_of_skipBlanks rest) item.shorter⟩
      | _ => none
termination_by (text.length, 1)

private def readFields (depth : Nat) (text : List Char) :
    Option (Read (List (String × Json)) text) :=
  match front : skipBlanks text with
  | '"' :: afterQuote =>
      match read : readString afterQuote with
      | none => none
      | some (key, afterKey) =>
          match colon : skipBlanks afterKey with
          | ':' :: afterColon =>
              have shorterColon : afterColon.length < text.length :=
                Nat.lt_trans (length_lt_of_skipBlanks colon)
                  (Nat.lt_trans (readString_shorter read) (length_lt_of_skipBlanks front))
              match readValue depth afterColon with
              | none => none
              | some value =>
                  match rest : skipBlanks value.rest with
                  | ',' :: more =>
                      have shorter : more.length < text.length :=
                        Nat.lt_trans (length_lt_of_skipBlanks rest)
                          (Nat.lt_trans value.shorter shorterColon)
                      (readFields depth more).map fun fields =>
                        ⟨(String.ofList key, value.value) :: fields.value, fields.rest,
                          Nat.lt_trans fields.shorter shorter⟩
                  | '\x7d' :: after => some ⟨[(String.ofList key, value.value)], after,
                      Nat.lt_trans (length_lt_of_skipBlanks rest)
                        (Nat.lt_trans value.shorter shorterColon)⟩
                  | _ => none
          | _ => none
  | _ => none
termination_by (text.length, 1)

end

def ofText? (text : String) : Option Json :=
  match readValue 127 text.toList with
  | none => none
  | some reading => if skipBlanks reading.rest = [] then some reading.value else none

end Json

end GraphQL
