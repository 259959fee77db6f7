import GraphQL.Decimal.Layout
import GraphQL.Document.Token
import GraphQL.Json.Writer
import GraphQL.Proofs.Decimal.Shortest

/-!
The numbers of JSON text as numbers of a document. Every double is written as a numeral with a
fraction or an exponent, which stands for a decimal that is read back as the double.
-/

namespace GraphQL

/-- A prefix is taken as far as its last character, and what follows is left. -/
theorem takeWhile_stops {keeps : Char → Bool} {left right : List Char}
    (kept : ∀ char ∈ left, keeps char = true) (stops : ∀ char ∈ right.head?, keeps char = false) :
    (left ++ right).takeWhile keeps = left ∧ (left ++ right).dropWhile keeps = right := by
  rw [List.takeWhile_append_of_pos kept, List.dropWhile_append_of_pos kept]
  cases right with
  | nil => exact ⟨List.append_nil left, rfl⟩
  | cons first rest =>
      have stop : ¬keeps first = true := Bool.not_eq_true _ ▸ stops first rfl
      rw [List.takeWhile_cons_of_neg stop, List.dropWhile_cons_of_neg stop, List.append_nil]
      exact ⟨rfl, rfl⟩

/-! ## Digits -/

/-- Nothing but decimal digits. -/
private def AreDigits (text : List Char) : Prop := ∀ char ∈ text, char.isDigit = true

private theorem AreDigits.append {left right : List Char} (leftDigits : AreDigits left)
    (rightDigits : AreDigits right) : AreDigits (left ++ right) := fun char member =>
  (List.mem_append.mp member).elim (leftDigits char) (rightDigits char)

private theorem areDigits_toDigits (number : Nat) :
    AreDigits (Nat.toDigits 10 number) := fun _ member =>
  Nat.isDigit_of_mem_toDigits (by decide) (by decide) member

private theorem areDigits_zeros (count : Nat) : AreDigits (List.replicate count '0') := by
  intro char member
  rw [List.eq_of_mem_replicate member]
  rfl

private theorem digitsValue_eq (digits : List Char) :
    digitsValue digits = Nat.ofDigitChars 10 digits 0 :=
  rfl

private theorem digitsValue_toDigits (number : Nat) :
    digitsValue (Nat.toDigits 10 number) = number :=
  Nat.ofDigitChars_ten_toDigits

private theorem digitsValue_append (left right : List Char) :
    digitsValue (left ++ right) = digitsValue left * 10 ^ right.length + digitsValue right := by
  rw [digitsValue_eq, Nat.ofDigitChars_append, Nat.ofDigitChars_eq_ofDigitChars_zero, Nat.mul_comm]
  rfl

private theorem digitsValue_zeros (count : Nat) : digitsValue (List.replicate count '0') = 0 := by
  rw [digitsValue_eq, Nat.ofDigitChars_replicate_zero, Nat.mul_zero]

private theorem toDigits_eq_cons {number : Nat} (positive : 0 < number) :
    ∃ first rest, Nat.toDigits 10 number = first :: rest ∧ first ≠ '0' := by
  induction number using Nat.strongRecOn with
  | ind number induction =>
      rcases Nat.lt_or_ge number 10 with small | large
      · refine ⟨number.digitChar, [], Nat.toDigits_of_lt_base small, ?_⟩
        interval_cases number <;> decide
      · obtain ⟨first, rest, isDigits, nonzero⟩ :=
          induction (number / 10) (by omega) (by omega)
        exact ⟨first, rest ++ [(number % 10).digitChar], by
          rw [Nat.toDigits_of_base_le (by decide) large, isDigits, List.cons_append], nonzero⟩

/-! ## Numerals -/

namespace Token

/-- The text of a sign. -/
private def signText (negative : Bool) : List Char := if negative then ['-'] else []

private theorem isWholePart_cons {first : Char} {rest : List Char} (nonzero : first ≠ '0')
    (digits : AreDigits (first :: rest)) : isWholePart (first :: rest) = true := by
  rw [isWholePart]
  · rw [digits first List.mem_cons_self,
      List.all_eq_true.mpr fun char member => digits char (List.mem_cons_of_mem first member)]
    simpa using nonzero
  · rintro ⟨⟩
    exact absurd rfl nonzero

private theorem isWholePart_digits {text : List Char} (isWhole : isWholePart text = true) :
    AreDigits text ∧ text ≠ [] := by
  rw [isWholePart.eq_def] at isWhole
  split at isWhole
  · cases isWhole
  · exact ⟨by simp [AreDigits], List.cons_ne_nil _ _⟩
  · simp only [Bool.and_eq_true, List.all_eq_true] at isWhole
    exact ⟨List.forall_mem_cons.mpr ⟨isWhole.1.2, isWhole.2⟩, List.cons_ne_nil _ _⟩

private theorem digit_ne {char other : Char} (isDigit : char.isDigit = true)
    (isOther : other.isDigit = false) : char ≠ other := by
  rintro rfl
  rw [isDigit] at isOther
  cases isOther

/-- What stands for an optional part: nothing, or a mark and the part. -/
private def partText (mark : Char) (part? : Option (List Char)) : List Char :=
  part?.elim [] (mark :: ·)

private theorem head?_partText {mark char : Char} {part? : Option (List Char)}
    (isHead : char ∈ (partText mark part?).head?) : char = mark := by
  cases part? with
  | none => cases isHead
  | some part =>
      cases isHead
      rfl

/-- The parts of a numeral after its sign, as they are written. -/
structure Spelling where
  whole : List Char
  fraction? : Option (List Char)
  exponent? : Option (List Char)
  isWhole : isWholePart whole = true
  areDigits : ∀ digits ∈ fraction?, digits ≠ [] ∧ AreDigits digits
  isExponent : ∀ text ∈ exponent?, (Token.exponent? text).isSome = true

namespace Spelling

def text (spelling : Spelling) : List Char :=
  spelling.whole ++ partText '.' spelling.fraction? ++ partText 'e' spelling.exponent?

private def exponent (spelling : Spelling) : Option Int := spelling.exponent?.bind Token.exponent?

private def numeral (spelling : Spelling) (negative : Bool) : Numeral :=
  ⟨negative, spelling.whole, spelling.fraction?, spelling.exponent⟩

/-- The number that is spelled, without its sign. -/
def value (spelling : Spelling) : ℚ :=
  digitsValue (spelling.whole ++ spelling.fraction?.getD []) *
    10 ^ (spelling.exponent.getD 0 - (spelling.fraction?.getD []).length)

private theorem mantissa_text (spelling : Spelling) :
    spelling.text.takeWhile (fun char => !(char == 'e' || char == 'E')) =
        spelling.whole ++ partText '.' spelling.fraction? ∧
      spelling.text.dropWhile (fun char => !(char == 'e' || char == 'E')) =
        partText 'e' spelling.exponent? := by
  have digit : ∀ {char : Char}, char.isDigit = true → (!(char == 'e' || char == 'E')) = true := by
    intro char isDigit
    have small : char ≠ 'e' := digit_ne isDigit rfl
    have capital : char ≠ 'E' := digit_ne isDigit rfl
    simp [small, capital]
  refine takeWhile_stops ?_ ?_
  · intro char member
    rcases List.mem_append.mp member with inWhole | inFraction
    · exact digit ((isWholePart_digits spelling.isWhole).1 char inWhole)
    · rcases isFraction : spelling.fraction? with _ | digits
      · rw [isFraction] at inFraction
        cases inFraction
      · rw [isFraction] at inFraction
        rcases List.mem_cons.mp inFraction with rfl | inDigits
        · rfl
        · exact digit ((spelling.areDigits digits isFraction).2 char inDigits)
  · intro char isHead
    rw [head?_partText isHead]
    rfl

private theorem whole_mantissa (spelling : Spelling) :
    (spelling.whole ++ partText '.' spelling.fraction?).takeWhile (· != '.') = spelling.whole ∧
      (spelling.whole ++ partText '.' spelling.fraction?).dropWhile (· != '.') =
        partText '.' spelling.fraction? := by
  refine takeWhile_stops ?_ ?_
  · intro char member
    have point : char ≠ '.' := digit_ne ((isWholePart_digits spelling.isWhole).1 char member) rfl
    simpa using point
  · intro char isHead
    rw [head?_partText isHead]
    rfl

private theorem numeral?_text (spelling : Spelling) (negative : Bool) :
    numeral? (signText negative ++ spelling.text) = some (spelling.numeral negative) := by
  have areDigits : ∀ digits ∈ spelling.fraction?, digits ≠ [] ∧ digits.all Char.isDigit = true :=
    fun digits isFraction =>
      (spelling.areDigits digits isFraction).imp_right List.all_eq_true.mpr
  have isNumber : ∀ mark ∈ spelling.exponent?, ∃ number, Token.exponent? mark = some number :=
    fun mark isExponent => Option.isSome_iff_exists.mp (spelling.isExponent mark isExponent)
  have unsigned : ∀ rest, spelling.text ≠ '-' :: rest := by
    obtain ⟨digits, nonempty⟩ := isWholePart_digits spelling.isWhole
    obtain ⟨first, rest, isCons⟩ := List.exists_cons_of_ne_nil nonempty
    rw [text, isCons]
    rintro _ ⟨⟩
    exact digit_ne (digits '-' (isCons ▸ List.mem_cons_self)) rfl rfl
  cases negative
  case' true =>
    change numeral? ('-' :: spelling.text) = _
    rw [numeral?]
  case' false =>
    rw [signText, if_neg Bool.false_ne_true, List.nil_append, numeral?]
    swap
    exact unsigned
  all_goals
    simp only [spelling.mantissa_text, spelling.whole_mantissa, spelling.isWhole, numeral, exponent]
    rcases isFraction : spelling.fraction? with _ | digits <;>
      rcases isExponent : spelling.exponent? with _ | mark
    · rfl
    · obtain ⟨number, read⟩ := isNumber mark isExponent
      simp [partText, read]
    · simp [partText, areDigits digits isFraction]
    · obtain ⟨number, read⟩ := isNumber mark isExponent
      simp [partText, read, areDigits digits isFraction]

/-- Zeros behind the digits are made up for by the exponent. -/
private theorem value_eq (spelling : Spelling) {decimal : Decimal} (zeros : Nat)
    (digits : digitsValue (spelling.whole ++ spelling.fraction?.getD []) =
      decimal.digits * 10 ^ zeros)
    (exponent : spelling.exponent.getD 0 - (spelling.fraction?.getD []).length =
      decimal.exponent - zeros) : spelling.value = decimal.value := by
  rw [value, digits, exponent, Decimal.value, Nat.cast_mul, Nat.cast_pow, mul_assoc,
    Nat.cast_ofNat, ← zpow_natCast, ← zpow_add₀ (by norm_num), add_sub_cancel]

end Spelling

/-! ## The text of a double -/

/-- A decimal is spelled by a text that is not read as a whole number. -/
private def SpellsDecimal (text : List Char) (decimal : Decimal) : Prop :=
  ∃ spelling : Spelling, spelling.text = text ∧ spelling.value = decimal.value ∧
    (spelling.fraction?.isSome = true ∨ spelling.exponent.isSome = true)

private theorem isWholePart_toDigits {number : Nat} (positive : 0 < number) {more : List Char}
    (digits : AreDigits more) : isWholePart (Nat.toDigits 10 number ++ more) = true := by
  obtain ⟨first, rest, isDigits, nonzero⟩ := toDigits_eq_cons positive
  have all := (areDigits_toDigits number).append digits
  rw [isDigits] at all ⊢
  exact isWholePart_cons nonzero all

private theorem isWholePart_take {number places : Nat} (positive : 0 < number) (some : 0 < places) :
    isWholePart ((Nat.toDigits 10 number).take places) = true := by
  obtain ⟨first, rest, isDigits, nonzero⟩ := toDigits_eq_cons positive
  have digits := areDigits_toDigits number
  obtain ⟨places, rfl⟩ := Nat.exists_eq_add_one.mpr some
  rw [isDigits] at digits ⊢
  rw [List.take_succ_cons]
  have parts := List.forall_mem_cons.mp digits
  exact isWholePart_cons nonzero (List.forall_mem_cons.mpr
    ⟨parts.1, fun char member => parts.2 char (List.mem_of_mem_take member)⟩)

/-- A whole part and a fraction spell a decimal, whose digits may have got zeros behind them. -/
private theorem spellsDecimal_fraction {decimal : Decimal} {whole fraction : List Char}
    (zeros : Nat)
    (isWhole : isWholePart whole = true) (nonempty : fraction ≠ []) (areDigits : AreDigits fraction)
    (digits : digitsValue (whole ++ fraction) = decimal.digits * 10 ^ zeros)
    (exponent : -(fraction.length : Int) = decimal.exponent - zeros) :
    SpellsDecimal (whole ++ '.' :: fraction) decimal := by
  have isFraction : ∀ digits ∈ some fraction, digits ≠ [] ∧ AreDigits digits := by
    rintro _ ⟨⟩
    exact ⟨nonempty, areDigits⟩
  let spelling : Spelling := ⟨whole, some fraction, none, isWhole, isFraction, nofun⟩
  refine ⟨spelling, ?_, spelling.value_eq zeros digits ?_, .inl rfl⟩
  · simp [spelling, Spelling.text, partText]
  · change (0 : Int) - fraction.length = _
    rw [zero_sub, exponent]

private theorem spellsDecimal_positional {decimal : Decimal} (positive : 0 < decimal.digits) :
    SpellsDecimal (FloatLayout.json.positional decimal) decimal := by
  have areDigits := areDigits_toDigits decimal.digits
  rw [FloatLayout.positional]
  dsimp only
  split
  · rename_i atLeast
    refine spellsDecimal_fraction (decimal.exponent.toNat + 1)
      (isWholePart_toDigits positive (areDigits_zeros _)) (List.cons_ne_nil _ _)
      (areDigits_zeros 1) ?_ ?_
    · rw [digitsValue_append, digitsValue_append, digitsValue_zeros, digitsValue_toDigits,
        List.length_replicate, pow_succ, ← mul_assoc]
      rfl
    · rw [List.length_singleton]
      omega
  · rename_i below
    obtain ⟨places, isPlaces⟩ : ∃ places, places = (-decimal.exponent).toNat := ⟨_, rfl⟩
    rw [← isPlaces]
    split
    · rename_i inside
      refine spellsDecimal_fraction 0 (isWholePart_take positive (Nat.sub_pos_of_lt inside)) ?_
        (fun char member => areDigits char (List.mem_of_mem_drop member)) ?_ ?_
      · rw [Ne, List.drop_eq_nil_iff]
        omega
      · rw [List.take_append_drop, digitsValue_toDigits, pow_zero, mul_one]
      · rw [List.length_drop]
        omega
    · rename_i outside
      refine spellsDecimal_fraction 0 (rfl : isWholePart ['0'] = true)
        (List.append_ne_nil_of_right_ne_nil _ Nat.toDigits_ne_nil)
        ((areDigits_zeros _).append areDigits) ?_ ?_
      · rw [digitsValue_append, digitsValue_append, digitsValue_zeros, digitsValue_toDigits,
          pow_zero, mul_one]
        simp [digitsValue]
      · rw [List.length_append, List.length_replicate]
        omega

private theorem exponent?_sign (exponent : Int) :
    exponent? ((if exponent < 0 then '-' else '+') :: Nat.toDigits 10 exponent.natAbs) =
      some exponent := by
  have digits : (Nat.toDigits 10 exponent.natAbs).all Char.isDigit = true :=
    List.all_eq_true.mpr (areDigits_toDigits _)
  have some : Nat.toDigits 10 exponent.natAbs ≠ [] := Nat.toDigits_ne_nil
  rcases lt_or_ge exponent 0 with negative | nonnegative
  · simp [exponent?, negative, digits, some, digitsValue_toDigits, abs_of_neg negative]
  · simp [exponent?, not_lt.mpr nonnegative, digits, some, digitsValue_toDigits,
      abs_of_nonneg nonnegative]

private theorem spellsDecimal_scientific {decimal : Decimal} (positive : 0 < decimal.digits) :
    SpellsDecimal (FloatLayout.scientific decimal) decimal := by
  have areDigits := areDigits_toDigits decimal.digits
  obtain ⟨first, rest, isDigits, nonzero⟩ := toDigits_eq_cons positive
  have number := digitsValue_toDigits decimal.digits
  rw [isDigits] at areDigits number
  obtain ⟨firstDigit, restDigits⟩ := List.forall_mem_cons.mp areDigits
  obtain ⟨exponent, isExponent⟩ :
      ∃ exponent, exponent = decimal.exponent + (rest.length + 1 : Nat) - 1 := ⟨_, rfl⟩
  have sign := exponent?_sign exponent
  have readsExponent : ∀ text ∈ some ((if exponent < 0 then '-' else '+') ::
      Nat.toDigits 10 exponent.natAbs), (Token.exponent? text).isSome = true := by
    rintro _ ⟨⟩
    rw [sign]
    rfl
  have isWhole : isWholePart [first] = true :=
    isWholePart_cons nonzero (List.forall_mem_singleton.mpr firstDigit)
  rw [FloatLayout.scientific, isDigits, List.length_cons, ← isExponent]
  cases rest with
  | nil =>
      let spelling : Spelling := ⟨[first], none, _, isWhole, nofun, readsExponent⟩
      have isNumber : spelling.exponent = some exponent := sign
      refine ⟨spelling, ?_, spelling.value_eq 0 ?_ ?_, .inr ?_⟩
      · simp [spelling, Spelling.text, partText]
      · change digitsValue [first] = _
        rw [number, pow_zero, mul_one]
      · change spelling.exponent.getD 0 - (0 : Nat) = _
        rw [isNumber, isExponent, List.length_nil, Option.getD_some]
        omega
      · rw [isNumber]
        rfl
  | cons second rest =>
      have isFraction : ∀ digits ∈ some (second :: rest), digits ≠ [] ∧ AreDigits digits := by
        rintro _ ⟨⟩
        exact ⟨List.cons_ne_nil _ _, restDigits⟩
      let spelling : Spelling := ⟨[first], _, _, isWhole, isFraction, readsExponent⟩
      have isNumber : spelling.exponent = some exponent := sign
      refine ⟨spelling, ?_, spelling.value_eq 0 ?_ ?_, .inl rfl⟩
      · simp [spelling, Spelling.text, partText]
      · change digitsValue (first :: second :: rest) = _
        rw [number, pow_zero, mul_one]
      · change spelling.exponent.getD 0 - ((second :: rest).length : Nat) = _
        rw [isNumber, isExponent, Option.getD_some]
        omega

/-! ## Number tokens -/

/-- A number token: it begins like a number, and nothing in it ends one. -/
structure IsNumber (text : List Char) (token : Token) : Prop where
  reads : number? text = some token
  starts : ∃ first rest, text = first :: rest ∧ (first.isDigit || first == '-') = true
  goesOn : ∀ char ∈ text, endsNumber char = false

/-- The characters that end numbers are checked one by one. -/
theorem endsNumber_apart {keeps : Char → Bool} {char : Char}
    (apart : [' ', '\n', '\r', '\t', ',', '#', '!', '$', ':', '=', '@', '|', '&', '(', ')', '[',
      ']', '\x7b', '\x7d'].all (fun other => !keeps other) = true)
    (ends : endsNumber char = true) : keeps char = false := by
  simpa using List.all_eq_true.mp apart char (List.contains_iff_mem.mp ends)

private theorem endsNumber_digit {char : Char} (isDigit : char.isDigit = true) :
    endsNumber char = false := by
  refine Bool.eq_false_iff.mpr fun ends => ?_
  have notDigit : char.isDigit = false := endsNumber_apart (by decide) ends
  rw [isDigit] at notDigit
  cases notDigit

private theorem endsNumber_exponent {text : List Char}
    (isExponent : (exponent? text).isSome = true) :
    ∀ char ∈ text, endsNumber char = false := by
  cases text with
  | nil => cases isExponent
  | cons first digits =>
      rw [exponent?] at isExponent
      split at isExponent
      · cases isExponent
      rename_i areDigits
      simp only [Bool.not_eq_true', Bool.not_eq_false, List.all_eq_true] at areDigits
      refine List.forall_mem_cons.mpr ⟨?_, fun char member =>
        endsNumber_digit (areDigits char member)⟩
      split at isExponent
      · rename_i isPlus
        rw [isPlus]
        rfl
      split at isExponent
      · rename_i isMinus
        rw [isMinus]
        rfl
      split at isExponent
      · rename_i bounds
        refine endsNumber_digit ?_
        simp only [Char.isDigit, Bool.and_eq_true, decide_eq_true_eq]
        have least : '0'.val ≤ '1'.val := by decide
        have most : '8'.val ≤ '9'.val := by decide
        exact ⟨UInt32.le_trans least bounds.1, UInt32.le_trans bounds.2 most⟩
      · cases isExponent

private theorem Spelling.isNumber (spelling : Spelling) (negative : Bool) {token : Token}
    (reads : number? (signText negative ++ spelling.text) = some token) :
    IsNumber (signText negative ++ spelling.text) token := by
  obtain ⟨digits, nonempty⟩ := isWholePart_digits spelling.isWhole
  refine ⟨reads, ?_, fun char member => ?_⟩
  · cases negative with
    | true => exact ⟨'-', spelling.text, rfl, rfl⟩
    | false =>
        obtain ⟨first, rest, isCons⟩ := List.exists_cons_of_ne_nil nonempty
        have isDigit := digits first (isCons ▸ List.mem_cons_self)
        exact ⟨first, rest ++ partText '.' spelling.fraction? ++ partText 'e' spelling.exponent?,
          by simp [signText, Spelling.text, isCons], by simp [isDigit]⟩
  · simp only [Spelling.text, List.mem_append] at member
    rcases member with inSign | (inWhole | inFraction) | inExponent
    · cases negative with
      | true =>
          rw [List.mem_singleton.mp inSign]
          rfl
      | false => cases inSign
    · exact endsNumber_digit (digits char inWhole)
    · rcases isFraction : spelling.fraction? with _ | fraction
      · rw [isFraction] at inFraction
        cases inFraction
      · rw [isFraction] at inFraction
        rcases List.mem_cons.mp inFraction with rfl | inDigits
        · rfl
        · exact endsNumber_digit ((spelling.areDigits fraction isFraction).2 char inDigits)
    · rcases isExponent : spelling.exponent? with _ | text
      · rw [isExponent] at inExponent
        cases inExponent
      · rw [isExponent] at inExponent
        rcases List.mem_cons.mp inExponent with rfl | inText
        · rfl
        · exact endsNumber_exponent (spelling.isExponent text isExponent) char inText

/-- A whole number that fits 64 bits. -/
theorem isNumber_int {value : Int} (fits : fitsInt64 value = true) :
    IsNumber (toString value).toList (.int value) := by
  have isWhole : isWholePart (Nat.toDigits 10 value.natAbs) = true := by
    rcases Nat.eq_zero_or_pos value.natAbs with zero | positive
    · rw [zero]
      rfl
    · simpa using isWholePart_toDigits positive (areDigits_zeros 0)
  let spelling : Spelling := ⟨_, none, none, isWhole, nofun, nofun⟩
  have isText : (toString value).toList = signText (decide (value < 0)) ++ spelling.text := by
    cases value with
    | ofNat number =>
        change (Nat.repr number).toList = _
        simp [spelling, Spelling.text, partText, signText]
    | negSucc number =>
        change ("-" ++ Nat.repr (number + 1)).toList = _
        simp [spelling, Spelling.text, partText, signText]
  rw [isText]
  refine spelling.isNumber _ ?_
  rw [number?, spelling.numeral?_text]
  have isInt : (spelling.numeral (decide (value < 0))).toInt = value := by
    change (if decide (value < 0) then -((digitsValue (Nat.toDigits 10 value.natAbs) : Nat) : Int)
      else (digitsValue (Nat.toDigits 10 value.natAbs) : Nat)) = value
    rw [digitsValue_toDigits]
    split
    · rename_i negative
      rw [Int.ofNat_natAbs_of_nonpos (of_decide_eq_true negative).le, neg_neg]
    · rename_i nonnegative
      rw [Int.natAbs_of_nonneg (not_lt.mp (of_decide_eq_false (by simpa using nonnegative)))]
  change (if fitsInt64 (spelling.numeral (decide (value < 0))).toInt then _ else none) = _
  rw [isInt, if_pos fits]

private theorem SpellsDecimal.isNumber {text : List Char} {decimal : Decimal}
    (spells : SpellsDecimal text decimal) {value : Float} {negative : Bool}
    (nearest : ∀ (digits : Nat) (exponent : Int), (digits * 10 ^ exponent : ℚ) = decimal.value →
      nearestDouble negative digits exponent = value) :
    IsNumber (signText negative ++ text) (.float value) := by
  obtain ⟨spelling, rfl, isValue, notWhole⟩ := spells
  refine spelling.isNumber negative ?_
  rw [number?, spelling.numeral?_text]
  have isFloat : (spelling.numeral negative).isWhole = false := by
    rw [Numeral.isWhole, Bool.and_eq_false_iff, Option.isNone_eq_false_iff,
      Option.isNone_eq_false_iff]
    exact notWhole
  have isValue : (spelling.numeral negative).toFloat = value := nearest _ _ isValue
  simp only [isFloat, isValue]
  rfl

/-- The text of a double that is neither infinite nor undefined is read back as it. -/
theorem isNumber_float {value : Float} (isFinite : (Double.ofFloat value).isFinite = true) :
    IsNumber (FloatLayout.json.write (Double.ofFloat value)).toList (.float value) := by
  rcases isDouble : Double.ofFloat value with _ | _ | ⟨negative, magnitude⟩
  · rw [isDouble] at isFinite
    cases isFinite
  · rw [isDouble] at isFinite
    cases isFinite
  obtain ⟨body, isBody⟩ : ∃ body, body = (if FloatLayout.json.within
      ((Decimal.shortest .toEven magnitude).exponent +
        (Decimal.digitCount (Decimal.shortest .toEven magnitude).digits : Int) - 1)
      then FloatLayout.json.positional (Decimal.shortest .toEven magnitude)
      else FloatLayout.scientific (Decimal.shortest .toEven magnitude)) := ⟨_, rfl⟩
  have isText : (FloatLayout.json.write (.finite negative magnitude)).toList =
      signText negative ++ body := by
    rw [isBody, FloatLayout.write]
    cases negative <;> exact String.toList_ofList
  rw [isText]
  rcases Nat.eq_zero_or_pos magnitude.significand with zero | positive
  · have isZero : body = ['0', '.', '0'] := by
      rw [isBody, Decimal.shortest_zero zero]
      decide
    have spells : SpellsDecimal ['0', '.', '0'] ⟨0, 0⟩ := by
      have isFraction : ∀ digits ∈ some ['0'], digits ≠ [] ∧ AreDigits digits := by
        rintro _ ⟨⟩
        exact ⟨List.cons_ne_nil _ _, areDigits_zeros 1⟩
      let spelling : Spelling := ⟨['0'], some ['0'], none, rfl, isFraction, nofun⟩
      exact ⟨spelling, rfl, spelling.value_eq 1 rfl rfl, .inl rfl⟩
    rw [isZero]
    refine spells.isNumber fun digits exponent isValue => ?_
    have noDigits : digits = 0 := by
      have scale : (10 : ℚ) ^ exponent ≠ 0 := zpow_ne_zero _ (by norm_num)
      simpa [Decimal.value, scale] using isValue
    rw [noDigits]
    exact nearestDouble_zero isDouble zero exponent
  · have canonical := (Double.ofFloat_eq_finite isDouble).1
    have holds := Decimal.shortest_holds canonical positive .toEven
    have digits := Decimal.shortest_positive canonical positive .toEven
    have nearest : ∀ (digits : Nat) (exponent : Int),
        (digits * 10 ^ exponent : ℚ) = (Decimal.shortest .toEven magnitude).value →
        nearestDouble negative digits exponent = value := fun _ _ isValue =>
      nearestDouble_of_holds isDouble positive (isValue ▸ holds)
    rw [isBody]
    split
    · exact (spellsDecimal_positional digits).isNumber nearest
    · exact (spellsDecimal_scientific digits).isNumber nearest

end Token

end GraphQL
