import GraphQL.Document.Basic
import GraphQL.Document.Token

/-!
Reading documents: the grammar of executable documents over tokens. A reader either takes at least
one token or is optional; nothing is ever read twice.
-/

namespace GraphQL

namespace Grammar

/-- A reader of tokens that takes at least one. -/
abbrev Reader (α : Type) := (tokens : List Located) → Option (Read α tokens)

abbrev Rest (tokens : List Located) := { rest : List Located // rest.length ≤ tokens.length }

def mark (char : Char) : Reader Position
  | ⟨position, .mark found⟩ :: rest =>
      if found = char then some ⟨position, rest, Nat.lt_succ_self _⟩ else none
  | _ => none

def name : Reader String
  | ⟨_, .name text⟩ :: rest => some ⟨text, rest, Nat.lt_succ_self _⟩
  | _ => none

def andThen {α β γ : Type} (first : Reader α) (second : Reader β) (join : α → β → γ) : Reader γ :=
  fun tokens =>
    match first tokens with
    | none => none
    | some left =>
        match second left.rest with
        | none => none
        | some right =>
            some ⟨join left.value right.value, right.rest, Nat.lt_trans right.shorter left.shorter⟩

/-! ## Values and types -/

mutual

/-- A value. Constants hold no variables. -/
def literal (constant : Bool) (tokens : List Located) : Option (Read Literal tokens) :=
  match tokens with
  | [] => none
  | ⟨_, .int value⟩ :: rest => some ⟨.int value, rest, Nat.lt_succ_self _⟩
  | ⟨_, .float value⟩ :: rest => some ⟨.float value, rest, Nat.lt_succ_self _⟩
  | ⟨_, .string value⟩ :: rest => some ⟨.string value, rest, Nat.lt_succ_self _⟩
  | ⟨_, .name text⟩ :: rest =>
      let value : Literal :=
        if text = "true" then .boolean true
        else if text = "false" then .boolean false
        else if text = "null" then .null
        else .enum text
      some ⟨value, rest, Nat.lt_succ_self _⟩
  | ⟨_, .ellipsis⟩ :: _ => none
  | ⟨_, .mark char⟩ :: rest =>
      if char = '$' ∧ !constant then
        (name rest).map fun read =>
          ⟨.variable read.value, read.rest, Nat.lt_succ_of_lt read.shorter⟩
      else if char = '[' then
        (literals constant rest).map fun items =>
          ⟨.list items.value, items.rest, Nat.lt_succ_of_lt items.shorter⟩
      else if char = '\x7b' then
        (literalFields constant rest).map fun fields =>
          ⟨Literal.ofFields fields.value, fields.rest, Nat.lt_succ_of_lt fields.shorter⟩
      else none
termination_by (tokens.length, 0)

def literals (constant : Bool) (tokens : List Located) :
    Option (Read (List Literal) tokens) :=
  match mark ']' tokens with
  | some closing => some ⟨[], closing.rest, closing.shorter⟩
  | none =>
      match literal constant tokens with
      | none => none
      | some item =>
          have := item.shorter
          (literals constant item.rest).map fun items =>
            ⟨item.value :: items.value, items.rest, Nat.lt_trans items.shorter item.shorter⟩
termination_by (tokens.length, 1)

def literalFields (constant : Bool) (tokens : List Located) :
    Option (Read (List (String × Literal)) tokens) :=
  match mark '\x7d' tokens with
  | some closing => some ⟨[], closing.rest, closing.shorter⟩
  | none =>
      match andThen name (mark ':') (fun key _ => key) tokens with
      | none => none
      | some key =>
          have := key.shorter
          match literal constant key.rest with
          | none => none
          | some value =>
              have := value.shorter
              (literalFields constant value.rest).map fun fields =>
                ⟨(key.value, value.value) :: fields.value, fields.rest,
                  Nat.lt_trans fields.shorter (Nat.lt_trans value.shorter key.shorter)⟩
termination_by (tokens.length, 1)

end

def orNonNull {tokens : List Located} (type : Read TypeExpr tokens) : Read TypeExpr tokens :=
  match mark '!' type.rest with
  | some exclamation =>
      ⟨.nonNull type.value, exclamation.rest, Nat.lt_trans exclamation.shorter type.shorter⟩
  | none => type

def typeExpr (tokens : List Located) : Option (Read TypeExpr tokens) :=
  match tokens with
  | ⟨_, .name text⟩ :: rest => some (orNonNull ⟨.named text, rest, Nat.lt_succ_self _⟩)
  | ⟨_, .mark char⟩ :: rest =>
      if char = '[' then
        match typeExpr rest with
        | none => none
        | some item =>
            (mark ']' item.rest).map fun closing =>
              orNonNull ⟨.list item.value, closing.rest,
                Nat.lt_succ_of_lt (Nat.lt_trans closing.shorter item.shorter)⟩
      else none
  | _ => none
termination_by tokens.length

/-! ## Repetition -/

def itemsUntil {α : Type} (item : Reader α) (closing : Char) (tokens : List Located) :
    Option (Read (List α) tokens) :=
  match item tokens with
  | none => none
  | some first =>
      match mark closing first.rest with
      | some closed =>
          some ⟨[first.value], closed.rest, Nat.lt_trans closed.shorter first.shorter⟩
      | none =>
          have := first.shorter
          (itemsUntil item closing first.rest).map fun more =>
            ⟨first.value :: more.value, more.rest, Nat.lt_trans more.shorter first.shorter⟩
termination_by tokens.length

def optionalList {α : Type} (opening closing : Char) (item : Reader α) (tokens : List Located) :
    Option (List α × Rest tokens) :=
  match mark opening tokens with
  | none => some ([], ⟨tokens, Nat.le_refl _⟩)
  | some opened =>
      (itemsUntil item closing opened.rest).map fun items =>
        (items.value, ⟨items.rest, Nat.le_of_lt (Nat.lt_trans items.shorter opened.shorter)⟩)

/-! ## Arguments and directives -/

def argument : Reader (String × Literal) :=
  andThen (andThen name (mark ':') fun key _ => key) (literal false) Prod.mk

def arguments : (tokens : List Located) → Option (ArgumentList × Rest tokens) :=
  optionalList '(' ')' argument

def directive (tokens : List Located) : Option (Read Directive tokens) :=
  match mark '@' tokens with
  | none => none
  | some sign =>
      match name sign.rest with
      | none => none
      | some name =>
          (arguments name.rest).map fun (arguments, rest) =>
            ⟨⟨sign.value, name.value, arguments⟩, rest.val, by
              have := sign.shorter
              have := name.shorter
              have := rest.property
              omega⟩

def directives (tokens : List Located) : Option (List Directive × Rest tokens) :=
  match mark '@' tokens with
  | none => some ([], ⟨tokens, Nat.le_refl _⟩)
  | some _ =>
      match directive tokens with
      | none => none
      | some first =>
          have := first.shorter
          (directives first.rest).map fun (more, rest) =>
            (first.value :: more, ⟨rest.val, by
              have := first.shorter
              have := rest.property
              omega⟩)
termination_by tokens.length

/-! ## Selections -/

def fieldName (tokens : List Located) : Option (Read (Option String × String) tokens) :=
  match name tokens with
  | none => none
  | some first =>
      match mark ':' first.rest with
      | none => some (first.map fun name => (none, name))
      | some colon =>
          (name colon.rest).map fun name =>
            ⟨(some first.value, name.value), name.rest,
              Nat.lt_trans name.shorter (Nat.lt_trans colon.shorter first.shorter)⟩

def condition (tokens : List Located) : Option (Option String × Rest tokens) :=
  match tokens with
  | ⟨_, .name "on"⟩ :: rest =>
      (name rest).map fun type =>
        (some type.value, ⟨type.rest, Nat.le_of_lt (Nat.lt_succ_of_lt type.shorter)⟩)
  | tokens => some (none, ⟨tokens, Nat.le_refl _⟩)

/-- The name of a spread fragment, which is not `on`. -/
def spreadName? : List Located → Option (String × List Located)
  | ⟨_, .name text⟩ :: rest => if text = "on" then none else some (text, rest)
  | _ => none

private theorem spreadName?_shorter {tokens rest : List Located} {text : String}
    (read : spreadName? tokens = some (text, rest)) : rest.length < tokens.length := by
  unfold spreadName? at read
  split at read
  · split at read
    · cases read
    · cases read
      exact Nat.lt_succ_self _
  · cases read

mutual

def selection (tokens : List Located) : Option (Read Selection tokens) :=
  match tokens with
  | ⟨_, .ellipsis⟩ :: after =>
      match after with
      | [] => none
      | ⟨position, token⟩ :: more =>
          match spread : spreadName? (⟨position, token⟩ :: more) with
          | some (name, rest) =>
              have := spreadName?_shorter spread
              (directives rest).map fun (directives, rest) =>
                ⟨.spread ⟨position, name, directives⟩, rest.val, by
                  have := rest.property
                  simp only [List.length_cons] at *
                  omega⟩
          | none =>
              match condition (⟨position, token⟩ :: more) with
              | none => none
              | some (type, rest) =>
                  match directives rest.val with
                  | none => none
                  | some (directives, afterDirectives) =>
                      have shorter : afterDirectives.val.length ≤ more.length + 1 := by
                        have := afterDirectives.property
                        have := rest.property
                        simp only [List.length_cons] at *
                        omega
                      (selectionSet afterDirectives.val).map fun selections =>
                        ⟨.inline ⟨position, type, directives, selections.value⟩, selections.rest, by
                          have := selections.shorter
                          simp only [List.length_cons] at *
                          omega⟩
  | first :: after =>
      match fieldName (first :: after) with
      | none => none
      | some name =>
          match arguments name.rest with
          | none => none
          | some (arguments, afterArguments) =>
              match directives afterArguments.val with
              | none => none
              | some (directives, rest) =>
                  have shorter : rest.val.length < (first :: after).length := by
                    have := name.shorter
                    have := afterArguments.property
                    have := rest.property
                    omega
                  match mark '\x7b' rest.val with
                  | none =>
                      some ⟨.field ⟨first.position, name.value.1, name.value.2, arguments, directives, []⟩,
                        rest.val, shorter⟩
                  | some _ =>
                      (selectionSet rest.val).map fun selections =>
                        ⟨.field ⟨first.position, name.value.1, name.value.2, arguments, directives,
                            selections.value⟩,
                          selections.rest, Nat.lt_trans selections.shorter shorter⟩
  | [] => none
termination_by (tokens.length, 0)

def selectionSet (tokens : List Located) : Option (Read (List Selection) tokens) :=
  match mark '\x7b' tokens with
  | none => none
  | some opened =>
      have := opened.shorter
      (selections opened.rest).map fun items =>
        ⟨items.value, items.rest, Nat.lt_trans items.shorter opened.shorter⟩
termination_by (tokens.length, 0)

def selections (tokens : List Located) : Option (Read (List Selection) tokens) :=
  match selection tokens with
  | none => none
  | some first =>
      match mark '\x7d' first.rest with
      | some closed =>
          some ⟨[first.value], closed.rest, Nat.lt_trans closed.shorter first.shorter⟩
      | none =>
          have := first.shorter
          (selections first.rest).map fun more =>
            ⟨first.value :: more.value, more.rest, Nat.lt_trans more.shorter first.shorter⟩
termination_by (tokens.length, 1)

end

/-! ## Definitions -/

def defaultValue (tokens : List Located) : Option (Option Literal × Rest tokens) :=
  match mark '=' tokens with
  | none => some (none, ⟨tokens, Nat.le_refl _⟩)
  | some sign =>
      (literal true sign.rest).map fun value =>
        (some value.value, ⟨value.rest, Nat.le_of_lt (Nat.lt_trans value.shorter sign.shorter)⟩)

def variableDefinition (tokens : List Located) : Option (Read VariableDefinition tokens) :=
  match andThen (mark '$') name Prod.mk tokens with
  | none => none
  | some read =>
      match andThen (mark ':') typeExpr (fun _ type => type) read.rest with
      | none => none
      | some type =>
          (defaultValue type.rest).map fun (default, rest) =>
            ⟨⟨read.value.1, read.value.2, type.value, default⟩, rest.val, by
              have := read.shorter
              have := type.shorter
              have := rest.property
              omega⟩

def operationKind? (keyword : String) : Option OperationKind :=
  if keyword = "query" then some .query
  else if keyword = "mutation" then some .mutation
  else if keyword = "subscription" then some .subscription
  else none

def optionalName (tokens : List Located) : Option String × Rest tokens :=
  match name tokens with
  | some found => (some found.value, ⟨found.rest, Nat.le_of_lt found.shorter⟩)
  | none => (none, ⟨tokens, Nat.le_refl _⟩)

def operation (position : Position) (kind : OperationKind) (tokens : List Located) :
    Option (Read Definition tokens) :=
  let (name, afterName) := optionalName tokens
  match optionalList '(' ')' variableDefinition afterName.val with
  | none => none
  | some (definitions, afterVariables) =>
      match directives afterVariables.val with
      | none => none
      | some (directives, rest) =>
          (selectionSet rest.val).map fun selections =>
            ⟨.operation ⟨position, kind, name, definitions, directives, selections.value⟩,
              selections.rest, by
                have := afterName.property
                have := afterVariables.property
                have := rest.property
                have := selections.shorter
                omega⟩

def fragment (position : Position) (tokens : List Located) : Option (Read Definition tokens) :=
  match name tokens with
  | none => none
  | some fragmentName =>
      match condition fragmentName.rest with
      | some (some type, afterCondition) =>
          match directives afterCondition.val with
          | none => none
          | some (directives, rest) =>
              (selectionSet rest.val).map fun selections =>
                ⟨.fragment ⟨position, fragmentName.value, type, directives, selections.value⟩,
                  selections.rest, by
                    have := fragmentName.shorter
                    have := afterCondition.property
                    have := rest.property
                    have := selections.shorter
                    omega⟩
      | _ => none

def definition (tokens : List Located) : Option (Read Definition tokens) :=
  match tokens with
  | ⟨position, .name keyword⟩ :: rest =>
      if keyword = "fragment" then (fragment position rest).map (·.after (Nat.le_succ _))
      else
        match operationKind? keyword with
        | some kind => (operation position kind rest).map (·.after (Nat.le_succ _))
        | none => none
  | ⟨position, .mark char⟩ :: rest =>
      (selectionSet (⟨position, .mark char⟩ :: rest)).map fun selections =>
        ⟨.operation ⟨position, .query, none, [], [], selections.value⟩, selections.rest,
          selections.shorter⟩
  | _ => none

def definitions (tokens : List Located) : Option (List Definition) :=
  match definition tokens with
  | none => none
  | some first =>
      if first.rest.isEmpty then some [first.value]
      else
        have := first.shorter
        (definitions first.rest).map (first.value :: ·)
termination_by tokens.length

end Grammar

def Document.ofText? (text : String) : Option Document :=
  match Token.ofText? text with
  | none => none
  | some tokens => (Grammar.definitions tokens).map Document.mk

end GraphQL
