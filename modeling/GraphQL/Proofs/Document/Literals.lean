import GraphQL.Document.Parser
import GraphQL.Proofs.Document.Constants
import GraphQL.Proofs.Document.Lexing

/-!
Constants and the texts that spell them. A text spells a constant if its tokens are read as the
constant whatever follows, so what is spelled piece by piece is read as a whole.
-/

namespace GraphQL

/-- The constant that a text spells, and nothing else. -/
def Literal.ofText? (text : String) : Option Literal := do
  let tokens ← Token.ofText? text
  let read ← Grammar.literal true tokens
  if read.rest.isEmpty then some read.value else none

namespace Grammar

/-! ## Tokens -/

/-- A reader gives a value and leaves a rest. -/
private def Leaves {α : Type} {tokens : List Located} (result : Option (Read α tokens)) (value : α)
    (rest : List Located) : Prop :=
  result.map (fun read => (read.value, read.rest)) = some (value, rest)

private theorem Leaves.eq_some {α : Type} {tokens rest : List Located}
    {result : Option (Read α tokens)} {value : α} (leaves : Leaves result value rest) :
    ∃ shorter, result = some ⟨value, rest, shorter⟩ := by
  obtain ⟨⟨_, _, shorter⟩, rfl, same⟩ := Option.map_eq_some_iff.mp leaves
  cases same
  exact ⟨shorter, rfl⟩

/-- Tokens are read as a constant, wherever they stand and whatever follows. -/
private def Parses (tokens : List Token) (value : Literal) : Prop :=
  ∀ located, located.map Located.token = tokens → ∀ rest,
    Leaves (literal true (located ++ rest)) value rest

/-- Tokens are read as the items of a list up to its closing bracket. -/
private def ParsesItems (tokens : List Token) (values : List Literal) : Prop :=
  ∀ located, located.map Located.token = tokens → ∀ position rest,
    Leaves (literals true (located ++ ⟨position, .mark ']'⟩ :: rest)) values rest

/-- Tokens are read as the fields of an object up to its closing brace. -/
private def ParsesFields (tokens : List Token) (fields : List (String × Literal)) : Prop :=
  ∀ located, located.map Located.token = tokens → ∀ position rest,
    Leaves (literalFields true (located ++ ⟨position, .mark '\x7d'⟩ :: rest)) fields rest

private theorem parses_int (value : Int) : Parses [.int value] (.int value) := by
  intro located isLocated rest
  obtain ⟨⟨position, _⟩, rfl, rfl⟩ := List.map_eq_singleton_iff.mp isLocated
  rw [List.singleton_append, literal]
  rfl

private theorem parses_float (value : Float) : Parses [.float value] (.float value) := by
  intro located isLocated rest
  obtain ⟨⟨position, _⟩, rfl, rfl⟩ := List.map_eq_singleton_iff.mp isLocated
  rw [List.singleton_append, literal]
  rfl

private theorem parses_string (value : String) : Parses [.string value] (.string value) := by
  intro located isLocated rest
  obtain ⟨⟨position, _⟩, rfl, rfl⟩ := List.map_eq_singleton_iff.mp isLocated
  rw [List.singleton_append, literal]
  rfl

private theorem parses_name (text : String) : Parses [.name text] (named text) := by
  intro located isLocated rest
  obtain ⟨⟨position, _⟩, rfl, rfl⟩ := List.map_eq_singleton_iff.mp isLocated
  rw [List.singleton_append, literal]
  rfl

private theorem parsesItems_nil : ParsesItems [] [] := by
  intro located isLocated position rest
  obtain rfl := List.map_eq_nil_iff.mp isLocated
  rw [literals]
  rfl

private theorem parsesFields_nil : ParsesFields [] [] := by
  intro located isLocated position rest
  obtain rfl := List.map_eq_nil_iff.mp isLocated
  rw [literalFields]
  rfl

private theorem mark_eq_none {tokens : List Located} {read : Read Literal tokens}
    (isLiteral : literal true tokens = some read) : mark ']' tokens = none := by
  cases tokens with
  | nil => rfl
  | cons first rest =>
      obtain ⟨position, token⟩ := first
      cases token with
      | mark found =>
          refine if_neg ?_
          rintro rfl
          rw [literal] at isLiteral
          cases isLiteral
      | _ => rfl

private theorem parsesItems_cons {first more : List Token} {value : Literal} {values : List Literal}
    (isFirst : Parses first value) (areMore : ParsesItems more values) :
    ParsesItems (first ++ more) (value :: values) := by
  intro located isLocated position rest
  obtain ⟨left, right, rfl, isLeft, isRight⟩ := List.map_eq_append_iff.mp isLocated
  obtain ⟨itemShorter, isItem⟩ :=
    (isFirst left isLeft (right ++ ⟨position, .mark ']'⟩ :: rest)).eq_some
  obtain ⟨itemsShorter, areItems⟩ := (areMore right isRight position rest).eq_some
  rw [List.append_assoc, literals, mark_eq_none isItem, isItem]
  dsimp only
  rw [areItems]
  rfl

private theorem parsesFields_cons {first more : List Token} {name : String} {value : Literal}
    {fields : List (String × Literal)} (isFirst : Parses first value)
    (areMore : ParsesFields more fields) :
    ParsesFields (.name name :: .mark ':' :: (first ++ more)) ((name, value) :: fields) := by
  intro located isLocated position rest
  obtain ⟨⟨namePosition, _⟩, afterName, rfl, rfl, isAfterName⟩ := List.map_eq_cons_iff.mp isLocated
  obtain ⟨⟨colonPosition, _⟩, afterColon, rfl, rfl, isAfterColon⟩ :=
    List.map_eq_cons_iff.mp isAfterName
  obtain ⟨left, right, rfl, isLeft, isRight⟩ := List.map_eq_append_iff.mp isAfterColon
  obtain ⟨fieldShorter, isField⟩ :=
    (isFirst left isLeft (right ++ ⟨position, .mark '\x7d'⟩ :: rest)).eq_some
  obtain ⟨othersShorter, areOthers⟩ := (areMore right isRight position rest).eq_some
  rw [List.cons_append, List.cons_append, List.append_assoc, literalFields]
  simp only [mark, andThen, Grammar.name, if_true]
  rw [isField]
  dsimp only
  rw [areOthers]
  rfl

private theorem parses_list {tokens : List Token} {items : List Literal}
    (areItems : ParsesItems tokens items) :
    Parses (.mark '[' :: (tokens ++ [.mark ']'])) (.list items) := by
  intro located isLocated rest
  obtain ⟨⟨opening, _⟩, inside, rfl, rfl, isInside⟩ := List.map_eq_cons_iff.mp isLocated
  obtain ⟨left, right, rfl, isLeft, isRight⟩ := List.map_eq_append_iff.mp isInside
  obtain ⟨⟨closing, _⟩, rfl, rfl⟩ := List.map_eq_singleton_iff.mp isRight
  obtain ⟨shorter, isRead⟩ := (areItems left isLeft closing rest).eq_some
  rw [List.cons_append, List.append_assoc, List.singleton_append, literal, if_neg (by decide),
    if_pos rfl, isRead]
  rfl

private theorem parses_object {tokens : List Token} {fields : List (String × Literal)}
    (areFields : ParsesFields tokens fields) :
    Parses (.mark '\x7b' :: (tokens ++ [.mark '\x7d'])) (Literal.ofFields fields) := by
  intro located isLocated rest
  obtain ⟨⟨opening, _⟩, inside, rfl, rfl, isInside⟩ := List.map_eq_cons_iff.mp isLocated
  obtain ⟨left, right, rfl, isLeft, isRight⟩ := List.map_eq_append_iff.mp isInside
  obtain ⟨⟨closing, _⟩, rfl, rfl⟩ := List.map_eq_singleton_iff.mp isRight
  obtain ⟨shorter, isRead⟩ := (areFields left isLeft closing rest).eq_some
  rw [List.cons_append, List.append_assoc, List.singleton_append, literal, if_neg (by decide),
    if_neg (by decide), if_pos rfl, isRead]
  rfl

/-! ## Texts -/

/-- A text spells a constant where some brackets are open. -/
def Spells (depth : Nat) (text : List Char) (value : Literal) : Prop :=
  ∃ tokens, Token.Lexes depth depth text tokens ∧ Parses tokens value

private def SpellsItems (depth : Nat) (text : List Char) (values : List Literal) : Prop :=
  ∃ tokens, Token.Lexes depth depth text tokens ∧ ParsesItems tokens values

private def SpellsFields (depth : Nat) (text : List Char) (fields : List (String × Literal)) :
    Prop :=
  ∃ tokens, Token.Lexes depth depth text tokens ∧ ParsesFields tokens fields

variable {depth : Nat} {text more : List Char} {value : Literal}

private theorem spells_int {number : Int} (fits : fitsInt64 number = true)
    (shallow : depth ≤ Token.maxOpen) : Spells depth (toString number).toList (.int number) :=
  ⟨_, .lead (fun _ => Token.leads_number (Token.isNumber_int fits)) rfl shallow,
    parses_int number⟩

private theorem spells_float {double : Float} (isFinite : (Double.ofFloat double).isFinite = true)
    (shallow : depth ≤ Token.maxOpen) :
    Spells depth (FloatLayout.json.write (Double.ofFloat double)).toList (.float double) :=
  ⟨_, .lead (fun _ => Token.leads_number (Token.isNumber_float isFinite)) rfl shallow,
    parses_float double⟩

private theorem spells_string {content : String} (plain : '\x08' ∉ content.toList)
    (shallow : depth ≤ Token.maxOpen) :
    Spells depth (Json.quote content).toList (.string content) :=
  ⟨_, .lead (fun _ => Token.leads_quote plain) rfl shallow, parses_string content⟩

/-- A text is a name. -/
def isName (text : String) : Bool :=
  match text.toList with
  | [] => false
  | first :: more => Token.isNameStart first && more.all Token.isNameChar

private theorem lexes_name {name : String} (isName : isName name = true)
    (shallow : depth ≤ Token.maxOpen) (ends : Token.Ends more) {after : Nat}
    {tokens : List Token} (later : Token.Lexes depth after more tokens) :
    Token.Lexes depth after (name.toList ++ more) (.name name :: tokens) := by
  rw [Grammar.isName] at isName
  split at isName
  · cases isName
  · rename_i first rest isText
    obtain ⟨starts, goesOn⟩ := Bool.and_eq_true_iff.mp isName
    have leads : ∀ rest, Token.Ends rest → Token.Leads (name.toList ++ rest) (.name name) rest := by
      intro after ends
      have leads := Token.leads_name starts (List.all_eq_true.mp goesOn) ends
      rwa [← isText, String.ofList_toList] at leads
    exact (Token.Lexes.lead leads rfl shallow).append later ends

theorem spells_name {name : String} (isName : isName name = true)
    (shallow : depth ≤ Token.maxOpen) : Spells depth name.toList (named name) := by
  have ends : Token.Ends [] := nofun
  have nothing : Token.Lexes depth depth [] [] := .nil
  have lexes := lexes_name isName shallow ends nothing
  rw [List.append_nil] at lexes
  exact ⟨_, lexes, parses_name name⟩

theorem spells_list {items : List Literal} (deeper : depth + 1 ≤ Token.maxOpen)
    (areItems : SpellsItems (depth + 1) text items) :
    Spells depth ('[' :: (text ++ [']'])) (.list items) := by
  obtain ⟨tokens, lexes, parses⟩ := areItems
  have closing : Token.Lexes (depth + 1) depth [']'] [.mark ']'] :=
    .mark rfl rfl (Nat.le_of_succ_le deeper) .nil
  have inside := lexes.append closing fun _ isHead => by
    cases isHead
    rfl
  exact ⟨_, .mark rfl rfl deeper inside, parses_list parses⟩

theorem spells_object {fields : List (String × Literal)} (deeper : depth + 1 ≤ Token.maxOpen)
    (areFields : SpellsFields (depth + 1) text fields) :
    Spells depth ('\x7b' :: (text ++ ['\x7d'])) (Literal.ofFields fields) := by
  obtain ⟨tokens, lexes, parses⟩ := areFields
  have closing : Token.Lexes (depth + 1) depth ['\x7d'] [.mark '\x7d'] :=
    .mark rfl rfl (Nat.le_of_succ_le deeper) .nil
  have inside := lexes.append closing fun _ isHead => by
    cases isHead
    rfl
  exact ⟨_, .mark rfl rfl deeper inside, parses_object parses⟩

private theorem spellsItems_nil : SpellsItems depth [] [] := ⟨[], .nil, parsesItems_nil⟩

private theorem spellsItems_cons {values : List Literal} (isFirst : Spells depth text value)
    (areMore : SpellsItems depth more values) (ends : Token.Ends more) :
    SpellsItems depth (text ++ more) (value :: values) := by
  obtain ⟨first, lexesFirst, parsesFirst⟩ := isFirst
  obtain ⟨others, lexesOthers, parsesOthers⟩ := areMore
  exact ⟨_, lexesFirst.append lexesOthers ends, parsesItems_cons parsesFirst parsesOthers⟩

private theorem spellsFields_nil : SpellsFields depth [] [] := ⟨[], .nil, parsesFields_nil⟩

/-- A field as it is printed. -/
def SpellsField (depth : Nat) (text : List Char) (field : String × Literal) : Prop :=
  ∃ inside, text = field.1.toList ++ ':' :: ' ' :: inside ∧ isName field.1 = true ∧
    Spells depth inside field.2

private theorem spellsFields_cons {field : String × Literal} {fields : List (String × Literal)}
    (shallow : depth ≤ Token.maxOpen) (isFirst : SpellsField depth text field)
    (areMore : SpellsFields depth more fields) (ends : Token.Ends more) :
    SpellsFields depth (text ++ more) (field :: fields) := by
  obtain ⟨inside, rfl, isName, first, lexesFirst, parsesFirst⟩ := isFirst
  obtain ⟨others, lexesOthers, parsesOthers⟩ := areMore
  have colon : Token.isMark ':' = true := rfl
  have afterName := Token.Lexes.mark colon rfl shallow
    ((lexesFirst.append lexesOthers ends).gap (.inl rfl))
  refine ⟨_, ?_, parsesFields_cons parsesFirst parsesOthers⟩
  rw [List.append_assoc]
  exact lexes_name isName shallow (fun _ isHead => by cases isHead; rfl) afterName

/-- What stands between texts is blanks and commas. -/
private theorem spells_intercalate {α : Type} {one : List Char → α → Prop}
    {many : List Char → List α → Prop} (nil : many [] [])
    (cons : ∀ {text more value values}, one text value → many more values → Token.Ends more →
      many (text ++ more) (value :: values))
    (gap : ∀ {char text values}, char = ' ' ∨ char = ',' → many text values →
      many (char :: text) values)
    {separator : List Char} (separates : ∀ char ∈ separator, char = ' ' ∨ char = ',')
    (some : separator ≠ []) {texts : List (List Char)} {values : List α}
    (each : List.Forall₂ one texts values) : many (separator.intercalate texts) values := by
  have gaps : ∀ {blanks : List Char}, (∀ char ∈ blanks, char = ' ' ∨ char = ',') →
      ∀ {text values}, many text values → many (blanks ++ text) values := by
    intro blanks areGaps text values rest
    induction blanks with
    | nil => exact rest
    | cons first others induction =>
        obtain ⟨isGap, areGaps⟩ := List.forall_mem_cons.mp areGaps
        exact gap isGap (induction areGaps)
  induction each with
  | nil => exact nil
  | @cons text value texts values head tail induction =>
      cases tail with
      | nil =>
          rw [List.intercalate_singleton, ← List.append_nil text]
          exact cons head nil nofun
      | cons next later =>
          rw [List.intercalate_cons_cons, List.append_assoc]
          refine cons head (gaps separates induction) ?_
          obtain ⟨first, others, rfl⟩ := List.exists_cons_of_ne_nil some
          rintro _ ⟨⟩
          rcases separates first List.mem_cons_self with rfl | rfl <;> rfl

theorem spellsItems_intercalate {separator : List Char}
    (separates : ∀ char ∈ separator, char = ' ' ∨ char = ',') (some : separator ≠ [])
    {texts : List (List Char)} {values : List Literal}
    (each : List.Forall₂ (Spells depth) texts values) :
    SpellsItems depth (separator.intercalate texts) values := by
  refine spells_intercalate spellsItems_nil spellsItems_cons ?_ separates some each
  rintro char text values isGap ⟨tokens, lexes, parses⟩
  exact ⟨tokens, lexes.gap isGap, parses⟩

theorem spellsFields_intercalate (shallow : depth ≤ Token.maxOpen) {separator : List Char}
    (separates : ∀ char ∈ separator, char = ' ' ∨ char = ',') (some : separator ≠ [])
    {texts : List (List Char)} {fields : List (String × Literal)}
    (each : List.Forall₂ (SpellsField depth) texts fields) :
    SpellsFields depth (separator.intercalate texts) fields := by
  refine spells_intercalate spellsFields_nil (spellsFields_cons shallow) ?_ separates some each
  rintro char text values isGap ⟨tokens, lexes, parses⟩
  exact ⟨tokens, lexes.gap isGap, parses⟩

theorem Spells.ofText? {text : String} {value : Literal} (spells : Spells 0 text.toList value) :
    Literal.ofText? text = some value := by
  obtain ⟨tokens, lexes, parses⟩ := spells
  obtain ⟨located, scanned, isLocated⟩ := lexes.ofText?
  have leaves := parses located isLocated []
  rw [List.append_nil] at leaves
  obtain ⟨shorter, isRead⟩ := leaves.eq_some
  rw [Literal.ofText?, scanned]
  change (literal true located).bind _ = _
  rw [isRead]
  rfl

end Grammar

/-- What a text spells is a constant. -/
theorem Literal.free_of_text {text : String} {literal : Literal}
    (isText : Literal.ofText? text = some literal) : literal.variableNames = [] := by
  obtain ⟨tokens, _, isText⟩ := Option.bind_eq_some_iff.mp isText
  obtain ⟨read, isRead, isText⟩ := Option.bind_eq_some_iff.mp isText
  obtain ⟨_, ⟨⟩⟩ := Option.ite_none_right_eq_some.mp isText
  exact Grammar.literal_free isRead

/-! ## JSON text -/

namespace Json

mutual

/-- The constant that JSON text spells, where some brackets may still be opened. An object with keys
spells none, for its keys are strings; nor does a string with U+0008, whose escape means another
character, nor a whole number of more than 64 bits. -/
def literal? : Json → Nat → Option Literal
  | .null, _ => some .null
  | .bool value, _ => some (.boolean value)
  | .number (.int value), _ => if fitsInt64 value then some (.int value) else none
  | .number (.float value), _ =>
      if (Double.ofFloat value).isFinite then some (.float value) else none
  | .string value, _ => if value.toList.contains '\x08' then none else some (.string value)
  | .array items, room + 1 => (itemLiterals? items room).map .list
  | .object [], _ + 1 => some (Literal.ofFields [])
  | _, _ => none

def itemLiterals? : List Json → Nat → Option (List Literal)
  | [], _ => some []
  | item :: items, room => do
      let literal ← literal? item room
      let literals ← itemLiterals? items room
      return literal :: literals

end

end Json

namespace Grammar

mutual

/-- JSON text spells the constant. -/
theorem spells_json {depth room : Nat} (value : Json) {literal : Literal}
    (isLiteral : value.literal? room = some literal) (shallow : depth + room ≤ Token.maxOpen) :
    Spells depth value.text.toList literal := by
  have level : depth ≤ Token.maxOpen := Nat.le_of_add_right_le shallow
  cases value with
  | null =>
      cases isLiteral
      exact spells_name rfl level
  | bool value =>
      cases isLiteral
      cases value
      · exact spells_name rfl level
      · exact spells_name rfl level
  | number number =>
      cases number with
      | int value =>
          obtain ⟨fits, ⟨⟩⟩ := Option.ite_none_right_eq_some.mp isLiteral
          exact spells_int fits level
      | float value =>
          obtain ⟨isFinite, ⟨⟩⟩ := Option.ite_none_right_eq_some.mp isLiteral
          exact spells_float isFinite level
  | string value =>
      obtain ⟨plain, ⟨⟩⟩ := Option.ite_none_left_eq_some.mp isLiteral
      exact spells_string (by simpa using plain) level
  | array items =>
      cases room with
      | zero => cases isLiteral
      | succ room =>
          rw [Json.literal?] at isLiteral
          obtain ⟨literals, areLiterals, rfl⟩ := Option.map_eq_some_iff.mp isLiteral
          have deeper : depth + 1 + room ≤ Token.maxOpen := by omega
          have each := spells_jsons items areLiterals deeper
          have items := spells_list (by omega)
            (spellsItems_intercalate (by simp) (List.cons_ne_nil ',' []) each)
          simpa [Json.text] using items
  | object fields =>
      cases room with
      | zero => cases fields <;> cases isLiteral
      | succ room =>
          cases fields with
          | nil =>
              cases isLiteral
              exact spells_object (by omega) spellsFields_nil
          | cons field fields => cases isLiteral

private theorem spells_jsons {depth room : Nat} (values : List Json) {literals : List Literal}
    (areLiterals : Json.itemLiterals? values room = some literals)
    (shallow : depth + room ≤ Token.maxOpen) :
    List.Forall₂ (Spells depth) ((Json.itemTexts values).map String.toList) literals := by
  cases values with
  | nil =>
      cases areLiterals
      exact .nil
  | cons head tail =>
      rw [Json.itemLiterals?] at areLiterals
      obtain ⟨first, isFirst, areLiterals⟩ := Option.bind_eq_some_iff.mp areLiterals
      obtain ⟨others, areOthers, ⟨⟩⟩ := Option.bind_eq_some_iff.mp areLiterals
      exact .cons (spells_json head isFirst shallow) (spells_jsons tail areOthers shallow)

end

end Grammar

private theorem Token.read_quotation {position : Position} {text : List Char}
    {reading : Read (Token × Position) text} (quotes : text.head? = some '"')
    (found : Token.read position text = some reading) :
    ∃ content, reading.value.1 = .string content := by
  unfold Token.read at found
  split at found
  · cases quotes
  · cases quotes
  · split at found
    · cases found
    · cases found
      exact ⟨_, rfl⟩
  · split at found
    · cases found
    · split at found
      · cases found
      · cases found
        exact ⟨_, rfl⟩
  · rename_i notString
    cases quotes
    exact (notString rfl).elim

private theorem Token.scan_object {text : List Char} {position : Position} {located : List Located}
    (scanned : Token.scan position 0 ('\x7b' :: '"' :: text) = some located) :
    ∃ opening quotation content rest,
      located = ⟨opening, .mark '\x7b'⟩ :: ⟨quotation, .string content⟩ :: rest := by
  have opens : Token.isMark '\x7b' = true := rfl
  have shallow : Token.openAfter 0 (.mark '\x7b') ≤ Token.maxOpen := by decide
  obtain ⟨next, isNext⟩ := Token.scan_leads (Token.leads_mark opens ('"' :: text)) shallow position
  rw [isNext] at scanned
  obtain ⟨later, scannedLater, rfl⟩ := Option.map_eq_some_iff.mp scanned
  rw [Token.scan_eq] at scannedLater
  have skipped : Token.skipIgnored next ('"' :: text) = (next, '"' :: text) := rfl
  simp only [skipped] at scannedLater
  split at scannedLater
  · cases scannedLater
  rename_i reading found
  split at scannedLater
  · cases scannedLater
  obtain ⟨rest, _, rfl⟩ := Option.map_eq_some_iff.mp scannedLater
  obtain ⟨content, isContent⟩ := Token.read_quotation rfl found
  rw [isContent]
  exact ⟨_, _, _, _, rfl⟩

/-- An object with keys is no constant: the keys of JSON are strings. -/
theorem Literal.ofText?_object (key : String) (value : Json) (fields : List (String × Json)) :
    Literal.ofText? (Json.text (.object ((key, value) :: fields))) = none := by
  obtain ⟨text, isText⟩ : ∃ text, (Json.text (.object ((key, value) :: fields))).toList =
      '\x7b' :: '"' :: text := by
    simp [Json.text, Json.fieldTexts, Json.quote]
  rw [Literal.ofText?, Token.ofText?, isText]
  rcases scanned : Token.scan ⟨1, 1⟩ 0 ('\x7b' :: '"' :: text) with _ | located
  · rfl
  · obtain ⟨opening, quotation, content, rest, rfl⟩ := Token.scan_object scanned
    change (Grammar.literal true _).bind _ = none
    rw [Grammar.literal, if_neg (by decide), if_neg (by decide), if_pos rfl,
      Grammar.literalFields]
    rfl

end GraphQL
