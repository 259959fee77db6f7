import GraphQL.Json.Writer
import GraphQL.Proofs.Document.Numerals

/-!
The tokens of a text piece by piece. A piece is read on its own if what follows it cannot go on with
its last token: numbers and names go on up to a blank, a comma or a mark.
-/

namespace GraphQL

namespace Token

/-! ## The token at the front -/

/-- A text does not go on with the number or the name in front of it. -/
def Ends (text : List Char) : Prop := ∀ char ∈ text.head?, endsNumber char = true

/-- A text starts with a token that stands at its first character. -/
def Leads (text : List Char) (token : Token) (after : List Char) : Prop :=
  ∀ position, skipIgnored position text = (position, text) ∧
    ∃ reading, read position text = some reading ∧ reading.value.1 = token ∧ reading.rest = after

private theorem isMark_cases {char : Char} (isMark : isMark char = true) :
    ∀ position rest, skipIgnored position (char :: rest) = (position, char :: rest) ∧
      read position (char :: rest) =
        some ⟨(.mark char, position.advance 1), rest, length_lt_cons _ _⟩ := by
  simp only [Token.isMark, List.contains_iff_mem, List.mem_cons, List.not_mem_nil, or_false]
    at isMark
  intro position rest
  rcases isMark with rfl | rfl | rfl | rfl | rfl | rfl | rfl | rfl | rfl | rfl | rfl | rfl | rfl
  all_goals exact ⟨rfl, rfl⟩

theorem leads_mark {char : Char} (isMark : isMark char = true) (rest : List Char) :
    Leads (char :: rest) (.mark char) rest := fun position =>
  ⟨(isMark_cases isMark position rest).1, _, (isMark_cases isMark position rest).2, rfl, rfl⟩

/-- The characters that begin names and numbers. -/
private def beginsWord (char : Char) : Bool := isNameStart char || char.isDigit || char == '-'

private theorem beginsWord_ne {first other : Char} (begins : beginsWord first = true)
    (isOther : beginsWord other = false) : first ≠ other := by
  rintro rfl
  rw [begins] at isOther
  cases isOther

private theorem beginsWord_skips {first : Char} (begins : beginsWord first = true)
    (rest : List Char)
    (position : Position) : skipIgnored position (first :: rest) = (position, first :: rest) := by
  have different : ∀ other, beginsWord other = false → first ≠ other :=
    fun _ => beginsWord_ne begins
  simp [skipIgnored, different _ (show beginsWord '\ufeff' = false from rfl),
    different _ (show beginsWord '\r' = false from rfl),
    different _ (show beginsWord '\t' = false from rfl),
    different _ (show beginsWord '\n' = false from rfl),
    different _ (show beginsWord ' ' = false from rfl),
    different _ (show beginsWord ',' = false from rfl),
    different _ (show beginsWord '#' = false from rfl)]

private theorem beginsWord_reads {first : Char} (begins : beginsWord first = true)
    (rest : List Char) (position : Position) : read position (first :: rest) =
      if isNameStart first then
        some ⟨(.name (String.ofList (first :: rest.takeWhile isNameChar)),
          position.advance ((rest.takeWhile isNameChar).length + 1)),
          rest.dropWhile isNameChar, Nat.lt_succ_of_le (length_dropWhile_le _ _)⟩
      else
        (number? (first :: rest.takeWhile fun char => !endsNumber char)).map fun token =>
          ⟨(token, position.advance ((rest.takeWhile fun char => !endsNumber char).length + 1)),
            rest.dropWhile fun char => !endsNumber char,
            Nat.lt_succ_of_le (length_dropWhile_le _ _)⟩ := by
  have notMark : isMark first = false := by
    refine Bool.eq_false_iff.mpr fun isMark => ?_
    simp only [Token.isMark, List.contains_iff_mem, List.mem_cons, List.not_mem_nil, or_false]
      at isMark
    rcases isMark with
      rfl | rfl | rfl | rfl | rfl | rfl | rfl | rfl | rfl | rfl | rfl | rfl | rfl <;> cases begins
  rw [read]
  · rw [if_neg (Bool.eq_false_iff.mp notMark)]
    split
    · rfl
    · rename_i notName
      rw [if_pos]
      simpa [beginsWord, notName] using begins
  · rintro more ⟨⟩
    cases begins
  · rintro more ⟨⟩
    cases begins
  · rintro ⟨⟩
    cases begins

theorem leads_name {first : Char} {more rest : List Char} (starts : isNameStart first = true)
    (goesOn : ∀ char ∈ more, isNameChar char = true) (ends : Ends rest) :
    Leads (first :: more ++ rest) (.name (String.ofList (first :: more))) rest := by
  have begins : beginsWord first = true := by simp [beginsWord, starts]
  have stops : ∀ char ∈ rest.head?, isNameChar char = false := fun char isHead =>
    endsNumber_apart (by decide) (ends char isHead)
  obtain ⟨taken, left⟩ := takeWhile_stops goesOn stops
  refine fun position => ⟨beginsWord_skips begins _ position, ?_⟩
  rw [List.cons_append, beginsWord_reads begins, if_pos starts]
  refine ⟨_, rfl, ?_, left⟩
  rw [taken]

theorem leads_number {text rest : List Char} {token : Token} (isNumber : IsNumber text token)
    (ends : Ends rest) : Leads (text ++ rest) token rest := by
  obtain ⟨reads, ⟨first, more, rfl, starts⟩, goesOn⟩ := isNumber
  have begins : beginsWord first = true := by simp [beginsWord, starts, Bool.or_assoc]
  have notName : ¬isNameStart first = true := by
    intro isName
    rcases Bool.or_eq_true_iff.mp starts with isDigit | isMinus
    · simp only [Char.isDigit, isNameStart, Char.isAlpha, Char.isUpper, Char.isLower,
        Bool.or_eq_true, Bool.and_eq_true, decide_eq_true_eq, beq_iff_eq,
        UInt32.le_iff_toNat_le, ge_iff_le] at isDigit isName
      change 48 ≤ first.val.toNat ∧ first.val.toNat ≤ 57 at isDigit
      rcases isName with isAlpha | rfl
      · change (65 ≤ first.val.toNat ∧ first.val.toNat ≤ 90) ∨
          97 ≤ first.val.toNat ∧ first.val.toNat ≤ 122 at isAlpha
        omega
      · revert isDigit
        decide
    · rw [eq_of_beq isMinus] at isName
      cases isName
  have parts := List.forall_mem_cons.mp goesOn
  obtain ⟨taken, left⟩ := takeWhile_stops
    (fun char member => show (!endsNumber char) = true by rw [parts.2 char member]; rfl)
    (fun char isHead => show (!endsNumber char) = false by rw [ends char isHead]; rfl)
  refine fun position => ⟨beginsWord_skips begins _ position, ?_⟩
  rw [List.cons_append, beginsWord_reads begins, if_neg notName]
  rw [taken, reads]
  exact ⟨_, rfl, rfl, left⟩

/-! ## Strings -/

/-- A character is escaped by a letter or by its code, or stands for itself. The letter for U+0008
means another character in a document. -/
private theorem escape_cases {char : Char} (notBackspace : char ≠ '\x08') :
    (∃ letter, Json.escape char = ['\\', letter] ∧ letter ≠ 'u' ∧ letter ≠ '\n' ∧
      escape? letter = some char) ∨
    (∃ high low, Json.escape char = ['\\', 'u', '0', '0', high, low] ∧ high.isAlphanum = true ∧
      low.isAlphanum = true ∧ (escapedCode? ['0', '0', high, low]).bind charOfCode? = some char) ∨
    (Json.escape char = [char] ∧ char ≠ '"' ∧ char ≠ '\\' ∧ char ≠ '\n') := by
  rw [Json.escape]
  split
  · rename_i isQuote
    exact .inl ⟨_, rfl, by decide, by decide, by rw [isQuote]; rfl⟩
  rename_i notQuote
  split
  · rename_i isBackslash
    exact .inl ⟨_, rfl, by decide, by decide, by rw [isBackslash]; rfl⟩
  rename_i notBackslash
  split
  · rename_i isTab
    exact .inl ⟨_, rfl, by decide, by decide, by rw [isTab]; rfl⟩
  split
  · rename_i isLine
    exact .inl ⟨_, rfl, by decide, by decide, by rw [isLine]; rfl⟩
  rename_i notLine
  split
  · rename_i isPage
    exact .inl ⟨_, rfl, by decide, by decide, by rw [isPage]; rfl⟩
  split
  · rename_i isReturn
    exact .inl ⟨_, rfl, by decide, by decide, by rw [isReturn]; rfl⟩
  split
  · rename_i isControl
    have codes : ∀ code < 32, (Nat.digitChar (code / 16)).isAlphanum = true ∧
        (Nat.digitChar (code % 16)).isAlphanum = true ∧
        (escapedCode? ['0', '0', Nat.digitChar (code / 16), Nat.digitChar (code % 16)]).bind
          charOfCode? = some (Char.ofNat code) := by decide
    obtain ⟨high, low, isCode⟩ := codes char.toNat isControl
    rw [Char.ofNat_toNat] at isCode
    exact .inr (.inl ⟨_, _, rfl, high, low, isCode⟩)
  · exact .inr (.inr ⟨rfl, notQuote, notBackslash, notLine⟩)

private theorem quotedExtent_plain {char : Char} (notQuote : char ≠ '"')
    (notBackslash : char ≠ '\\')
    (notLine : char ≠ '\n') (rest : List Char) : quotedExtent (char :: rest) =
      (quotedExtent rest).map fun (raw, after) => (char :: raw, after) := by
  rw [quotedExtent]
  · exact notQuote
  · exact notLine
  · rintro _ _ isBackslash
    exact absurd isBackslash notBackslash

private theorem quotedExtent_escape {char : Char} (notBackspace : char ≠ '\x08')
    {rest raw after : List Char} (extent : quotedExtent rest = some (raw, after)) :
    quotedExtent (Json.escape char ++ rest) = some (Json.escape char ++ raw, after) := by
  rcases escape_cases notBackspace with ⟨letter, isEscape, _, notLine, _⟩ |
    ⟨high, low, isEscape, isHigh, isLow, _⟩ | ⟨isEscape, notQuote, notBackslash, notLine⟩
  · rw [isEscape]
    simp [quotedExtent, notLine, extent]
  · have plain : ∀ {digit : Char}, digit.isAlphanum = true →
        digit ≠ '"' ∧ digit ≠ '\\' ∧ digit ≠ '\n' := by
      intro digit isDigit
      refine ⟨?_, ?_, ?_⟩ <;> rintro rfl <;> cases isDigit
    rw [isEscape]
    obtain ⟨highQuote, highBackslash, highLine⟩ := plain isHigh
    obtain ⟨lowQuote, lowBackslash, lowLine⟩ := plain isLow
    simp [quotedExtent, quotedExtent_plain, *]
  · rw [isEscape, List.singleton_append, quotedExtent_plain notQuote notBackslash notLine, extent]
    rfl

private theorem unescape_escape {char : Char} (notBackspace : char ≠ '\x08') (rest : List Char) :
    unescape (Json.escape char ++ rest) = (unescape rest).map (char :: ·) := by
  rcases escape_cases notBackspace with ⟨letter, isEscape, notCode, _, isChar⟩ |
    ⟨high, low, isEscape, _, _, isCode⟩ | ⟨isEscape, _, notBackslash, _⟩
  · rw [isEscape]
    simp [unescape, notCode, isChar]
  · rw [isEscape]
    simp [unescape, isCode]
  · rw [isEscape]
    simp [unescape, notBackslash]

private theorem quotedExtent_quoted {text : List Char} (plain : '\x08' ∉ text) (rest : List Char) :
    quotedExtent (text.flatMap Json.escape ++ '"' :: rest) =
        some (text.flatMap Json.escape, rest) ∧
      unescape (text.flatMap Json.escape) = some text := by
  induction text with
  | nil => exact ⟨by rw [List.flatMap_nil, List.nil_append, quotedExtent], rfl⟩
  | cons first more induction =>
      obtain ⟨notFirst, notMore⟩ := not_or.mp (mt List.mem_cons.mpr plain)
      obtain ⟨extent, content⟩ := induction notMore
      rw [List.flatMap_cons, List.append_assoc]
      exact ⟨quotedExtent_escape (Ne.symm notFirst) extent,
        by rw [unescape_escape (Ne.symm notFirst), content]; rfl⟩

private theorem quoted_ne_block {text rest : List Char} (plain : '\x08' ∉ text) (ends : Ends rest)
    (block : List Char) : text.flatMap Json.escape ++ '"' :: rest ≠ '"' :: '"' :: block := by
  cases text with
  | nil =>
      rintro isBlock
      obtain ⟨_, rfl⟩ := List.cons_eq_cons.mp isBlock
      have quote := ends '"' rfl
      cases quote
  | cons first more =>
      have notBackspace := Ne.symm (not_or.mp (mt List.mem_cons.mpr plain)).1
      rw [List.flatMap_cons]
      rcases escape_cases notBackspace with ⟨letter, isEscape, _⟩ | ⟨high, low, isEscape, _⟩ |
        ⟨isEscape, notQuote, _⟩
      · rw [isEscape]
        rintro ⟨⟩
      · rw [isEscape]
        rintro ⟨⟩
      · rw [isEscape]
        rintro isBlock
        exact notQuote (List.cons_eq_cons.mp isBlock).1

theorem leads_quote {text : String} {rest : List Char} (plain : '\x08' ∉ text.toList)
    (ends : Ends rest) : Leads ((Json.quote text).toList ++ rest) (.string text) rest := by
  obtain ⟨extent, content⟩ := quotedExtent_quoted plain rest
  have isText : (Json.quote text).toList ++ rest =
      '"' :: (text.toList.flatMap Json.escape ++ '"' :: rest) := by
    simp [Json.quote]
  rw [isText]
  refine fun position => ⟨rfl, ?_⟩
  rw [read]
  · split
    · rename_i none
      rw [extent] at none
      cases none
    · rename_i found
      rw [extent] at found
      cases found
      simp only [content]
      exact ⟨_, rfl, by rw [String.ofList_toList], rfl⟩
  · exact fun _ => quoted_ne_block plain ends _

/-! ## Piece by piece -/

/-- What is scanned depends only on what is left when blanks, commas and comments are skipped. -/
theorem scan_eq (position : Position) (depth : Nat) (text : List Char) :
    scan position depth text =
      match skipIgnored position text with
      | (_, []) => some []
      | (start, first :: rest) =>
          match read start (first :: rest) with
          | none => none
          | some reading =>
              if maxOpen < openAfter depth reading.value.1 then none
              else (scan reading.value.2 (openAfter depth reading.value.1) reading.rest).map
                (⟨start, reading.value.1⟩ :: ·) := by
  rw [scan]
  split
  · rename_i front
    rw [front]
  · rename_i start first rest front
    cases found : read start (first :: rest) <;> simp only [front, found]

theorem scan_leads {text after : List Char} {token : Token} (leads : Leads text token after)
    {depth : Nat} (shallow : openAfter depth token ≤ maxOpen) (position : Position) :
    ∃ next, scan position depth text =
      (scan next (openAfter depth token) after).map (⟨position, token⟩ :: ·) := by
  obtain ⟨skipped, reading, found, rfl, rfl⟩ := leads position
  refine ⟨reading.value.2, ?_⟩
  rw [scan_eq, skipped]
  cases text with
  | nil => cases found
  | cons first rest =>
      dsimp only
      rw [found]
      exact if_neg (not_lt.mpr shallow)

/-- A text gives some tokens first, whatever follows. `before` and `after` count the brackets that
are open. -/
def Lexes (before after : Nat) (text : List Char) (tokens : List Token) : Prop :=
  ∀ rest, Ends rest → ∀ position, ∃ located next, located.map Located.token = tokens ∧
    scan position before (text ++ rest) = (scan next after rest).map (located ++ ·)

namespace Lexes

variable {before middle after depth : Nat} {text left right : List Char} {tokens : List Token}

theorem nil : Lexes depth depth [] [] := fun rest _ position =>
  ⟨[], position, rfl, by simp⟩

theorem append {first second : List Token} (isLeft : Lexes before middle left first)
    (isRight : Lexes middle after right second) (ends : Ends right) :
    Lexes before after (left ++ right) (first ++ second) := by
  intro rest restEnds position
  have rightEnds : Ends (right ++ rest) := by
    cases right with
    | nil => exact restEnds
    | cons head tail => exact ends
  obtain ⟨leftLocated, next, rfl, scanned⟩ := isLeft _ rightEnds position
  obtain ⟨rightLocated, last, rfl, later⟩ := isRight rest restEnds next
  refine ⟨leftLocated ++ rightLocated, last, List.map_append, ?_⟩
  rw [List.append_assoc, scanned, later, Option.map_map]
  simp [Function.comp_def]

theorem lead {token : Token} (leads : ∀ rest, Ends rest → Leads (text ++ rest) token rest)
    (level : openAfter depth token = depth) (shallow : depth ≤ maxOpen) :
    Lexes depth depth text [token] := by
  intro rest ends position
  obtain ⟨next, scanned⟩ := scan_leads (leads rest ends) (level.symm ▸ shallow) position
  rw [level] at scanned
  exact ⟨[⟨position, token⟩], next, rfl, scanned⟩

theorem mark {char : Char} (isMark : isMark char = true)
    (level : openAfter before (.mark char) = middle) (shallow : middle ≤ maxOpen)
    (later : Lexes middle after text tokens) :
    Lexes before after (char :: text) (.mark char :: tokens) := by
  subst level
  intro rest ends position
  obtain ⟨next, scanned⟩ := scan_leads (leads_mark isMark (text ++ rest)) shallow position
  obtain ⟨located, last, rfl, more⟩ := later rest ends next
  refine ⟨⟨position, .mark char⟩ :: located, last, rfl, ?_⟩
  rw [List.cons_append, scanned, more, Option.map_map]
  rfl

/-- Blanks and commas stand between tokens. -/
theorem gap {char : Char} (isGap : char = ' ' ∨ char = ',')
    (later : Lexes before after text tokens) : Lexes before after (char :: text) tokens := by
  intro rest ends position
  obtain ⟨located, next, isLocated, scanned⟩ := later rest ends (position.advance 1)
  refine ⟨located, next, isLocated, ?_⟩
  have skipped : skipIgnored position (char :: text ++ rest) =
      skipIgnored (position.advance 1) (text ++ rest) := by
    rcases isGap with rfl | rfl <;> rfl
  rw [scan_eq, skipped, ← scan_eq, scanned]

end Lexes

theorem Lexes.ofText? {after : Nat} {text : String} {tokens : List Token}
    (lexes : Lexes 0 after text.toList tokens) :
    ∃ located, Token.ofText? text = some located ∧ located.map Located.token = tokens := by
  obtain ⟨located, next, isLocated, scanned⟩ := lexes [] nofun ⟨1, 1⟩
  refine ⟨located, ?_, isLocated⟩
  rw [List.append_nil] at scanned
  rw [Token.ofText?, scanned, scan_eq]
  simp [skipIgnored]

end Token

end GraphQL
