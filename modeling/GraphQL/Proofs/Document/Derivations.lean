import GraphQL.Document.Basic
import GraphQL.Document.Token

/-!
The grammar of documents as relations between tokens and what they stand for.
-/

namespace GraphQL

namespace Grammar

/-! ## Tokens and lists -/

inductive DerivesMark (char : Char) : List Located → Position → Prop
  | mark {position : Position} : DerivesMark char [⟨position, .mark char⟩] position

inductive DerivesName : List Located → String → Prop
  | name {position : Position} {text : String} : DerivesName [⟨position, .name text⟩] text

/-- One after another. -/
inductive DerivesThen {α β : Type} (first : List Located → α → Prop)
    (second : List Located → β → Prop) : List Located → α × β → Prop
  | andThen {tokens others : List Located} {left : α} {right : β} (isFirst : first tokens left)
      (isSecond : second others right) : DerivesThen first second (tokens ++ others) (left, right)

section

variable {α : Type}

/-- As many items as there are. -/
inductive DerivesEach (derives : List Located → α → Prop) : List Located → List α → Prop
  | nil : DerivesEach derives [] []
  | cons {tokens others : List Located} {value : α} {values : List α}
      (first : derives tokens value) (more : DerivesEach derives others values) :
      DerivesEach derives (tokens ++ others) (value :: values)

/-- One or more items between two marks. -/
inductive DerivesBetween (opening closing : Char) (derives : List Located → α → Prop) :
    List Located → List α → Prop
  | between {opened closed : Position} {tokens : List Located} {values : List α}
      (each : DerivesEach derives tokens values) (some : values ≠ []) :
      DerivesBetween opening closing derives
        (⟨opened, .mark opening⟩ :: (tokens ++ [⟨closed, .mark closing⟩])) values

/-- The same, or nothing at all. -/
inductive DerivesOptional (opening closing : Char) (derives : List Located → α → Prop) :
    List Located → List α → Prop
  | missing : DerivesOptional opening closing derives [] []
  | present {tokens : List Located} {values : List α}
      (between : DerivesBetween opening closing derives tokens values) :
      DerivesOptional opening closing derives tokens values

variable {derives : List Located → α → Prop} {holds : α → Prop} {tokens : List Located}
  {values : List α}

theorem DerivesEach.gives (gives : ∀ tokens value, derives tokens value → holds value)
    (each : DerivesEach derives tokens values) : ∀ value ∈ values, holds value := by
  induction each with
  | nil => exact List.forall_mem_nil _
  | cons first _ induction => exact List.forall_mem_cons.mpr ⟨gives _ _ first, induction⟩

theorem DerivesBetween.ne_nil {opening closing : Char}
    (between : DerivesBetween opening closing derives tokens values) : tokens ≠ [] := by
  cases between
  exact List.cons_ne_nil _ _

theorem DerivesOptional.gives {opening closing : Char}
    (gives : ∀ tokens value, derives tokens value → holds value)
    (optional : DerivesOptional opening closing derives tokens values) :
    ∀ value ∈ values, holds value := by
  cases optional with
  | missing => exact List.forall_mem_nil _
  | present between =>
      cases between with
      | between each => exact each.gives gives

end

/-! ## Values and types -/

/-- The constant that a name stands for. -/
def named (text : String) : Literal :=
  if text = "true" then .boolean true
  else if text = "false" then .boolean false
  else if text = "null" then .null
  else .enum text

mutual

/-- Constants mention no variables. -/
inductive DerivesLiteral (constant : Bool) : List Located → Literal → Prop
  | mentioned {dollar position : Position} {name : String} (mentions : constant = false) :
      DerivesLiteral constant [⟨dollar, .mark '$'⟩, ⟨position, .name name⟩] (.variable name)
  | int {position : Position} {value : Int} :
      DerivesLiteral constant [⟨position, .int value⟩] (.int value)
  | float {position : Position} {value : Float} :
      DerivesLiteral constant [⟨position, .float value⟩] (.float value)
  | string {position : Position} {value : String} :
      DerivesLiteral constant [⟨position, .string value⟩] (.string value)
  | name {position : Position} {text : String} :
      DerivesLiteral constant [⟨position, .name text⟩] (named text)
  | list {opened closed : Position} {tokens : List Located} {items : List Literal}
      (each : DerivesEach (DerivesLiteral constant) tokens items) :
      DerivesLiteral constant (⟨opened, .mark '['⟩ :: (tokens ++ [⟨closed, .mark ']'⟩]))
        (.list items)
  | object {opened closed : Position} {tokens : List Located} {fields : List (String × Literal)}
      (each : DerivesEach (DerivesField constant) tokens fields) :
      DerivesLiteral constant (⟨opened, .mark '\x7b'⟩ :: (tokens ++ [⟨closed, .mark '\x7d'⟩]))
        (Literal.ofFields fields)

/-- A name and a value: the field of an object, or an argument. -/
inductive DerivesField (constant : Bool) : List Located → String × Literal → Prop
  | field {position colon : Position} {name : String} {tokens : List Located} {value : Literal}
      (isValue : DerivesLiteral constant tokens value) :
      DerivesField constant (⟨position, .name name⟩ :: ⟨colon, .mark ':'⟩ :: tokens) (name, value)

end

/-- No type has two exclamation marks. -/
inductive DerivesType : List Located → TypeExpr → Prop
  | named {position : Position} {name : String} :
      DerivesType [⟨position, .name name⟩] (.named name)
  | list {opened closed : Position} {tokens : List Located} {item : TypeExpr}
      (isItem : DerivesType tokens item) :
      DerivesType (⟨opened, .mark '['⟩ :: (tokens ++ [⟨closed, .mark ']'⟩])) (.list item)
  | nonNull {exclamation : Position} {tokens : List Located} {type : TypeExpr}
      (isType : DerivesType tokens type) (nullable : ∀ inner, type ≠ .nonNull inner) :
      DerivesType (tokens ++ [⟨exclamation, .mark '!'⟩]) (.nonNull type)

/-! ## Directives and selections -/

abbrev DerivesArguments := DerivesOptional '(' ')' (DerivesField false)

inductive DerivesDirective : List Located → Directive → Prop
  | directive {sign position : Position} {name : String} {tokens : List Located}
      {arguments : ArgumentList} (areGiven : DerivesArguments tokens arguments) :
      DerivesDirective (⟨sign, .mark '@'⟩ :: ⟨position, .name name⟩ :: tokens)
        ⟨sign, name, arguments⟩

abbrev DerivesDirectives := DerivesEach DerivesDirective

/-- The alias and the name of a field. -/
inductive DerivesFieldName : List Located → Option String × String → Prop
  | plain {position : Position} {name : String} :
      DerivesFieldName [⟨position, .name name⟩] (none, name)
  | aliased {position colon namePosition : Position} {label name : String} :
      DerivesFieldName
        [⟨position, .name label⟩, ⟨colon, .mark ':'⟩, ⟨namePosition, .name name⟩]
        (some label, name)

theorem DerivesFieldName.ne_nil {tokens : List Located} {value : Option String × String}
    (derived : DerivesFieldName tokens value) : tokens ≠ [] := by
  cases derived <;> exact List.cons_ne_nil _ _

inductive DerivesCondition : List Located → Option String → Prop
  | missing : DerivesCondition [] none
  | present {keyword position : Position} {type : String} :
      DerivesCondition [⟨keyword, .name "on"⟩, ⟨position, .name type⟩] (some type)

/-- Some tokens have a first one, which is at a position. -/
def StartsAt (position : Position) (tokens : List Located) : Prop :=
  tokens.head?.map Located.position = some position

/-- An inline fragment is at the position of what follows the ellipsis. -/
inductive DerivesSelection : List Located → Selection → Prop
  | field {position : Position} {label : Option String} {name : String}
      {arguments : ArgumentList} {directives : List Directive} {selections : List Selection}
      {tokens given applied block : List Located}
      (starts : StartsAt position tokens) (isNamed : DerivesFieldName tokens (label, name))
      (areGiven : DerivesArguments given arguments)
      (areApplied : DerivesDirectives applied directives)
      (selects : DerivesOptional '\x7b' '\x7d' DerivesSelection block selections) :
      DerivesSelection (tokens ++ (given ++ (applied ++ block)))
        (.field ⟨position, label, name, arguments, directives, selections⟩)
  | spread {ellipsis position : Position} {name : String} {directives : List Directive}
      {applied : List Located} (isSpread : name ≠ "on")
      (areApplied : DerivesDirectives applied directives) :
      DerivesSelection (⟨ellipsis, .ellipsis⟩ :: ⟨position, .name name⟩ :: applied)
        (.spread ⟨position, name, directives⟩)
  | inline {ellipsis position : Position} {condition : Option String}
      {directives : List Directive} {selections : List Selection}
      {tokens applied block : List Located}
      (starts : StartsAt position (tokens ++ (applied ++ block)))
      (isCondition : DerivesCondition tokens condition)
      (areApplied : DerivesDirectives applied directives)
      (selects : DerivesBetween '\x7b' '\x7d' DerivesSelection block selections) :
      DerivesSelection (⟨ellipsis, .ellipsis⟩ :: (tokens ++ (applied ++ block)))
        (.inline ⟨position, condition, directives, selections⟩)

abbrev DerivesSelections := DerivesBetween '\x7b' '\x7d' DerivesSelection

/-! ## Definitions -/

inductive DerivesDefault : List Located → Option Literal → Prop
  | missing : DerivesDefault [] none
  | present {sign : Position} {tokens : List Located} {value : Literal}
      (isValue : DerivesLiteral true tokens value) :
      DerivesDefault (⟨sign, .mark '='⟩ :: tokens) (some value)

inductive DerivesVariable : List Located → VariableDefinition → Prop
  | declared {dollar position colon : Position} {name : String} {type : TypeExpr}
      {default : Option Literal} {tokens preset : List Located} (isType : DerivesType tokens type)
      (isDefault : DerivesDefault preset default) :
      DerivesVariable
        (⟨dollar, .mark '$'⟩ :: ⟨position, .name name⟩ :: ⟨colon, .mark ':'⟩ :: (tokens ++ preset))
        ⟨dollar, name, type, default⟩

abbrev DerivesVariables := DerivesOptional '(' ')' DerivesVariable

inductive DerivesOptionalName : List Located → Option String → Prop
  | missing : DerivesOptionalName [] none
  | present {position : Position} {name : String} :
      DerivesOptionalName [⟨position, .name name⟩] (some name)

inductive DerivesDefinition : List Located → Definition → Prop
  | query {position : Position} {selections : List Selection} {block : List Located}
      (starts : StartsAt position block) (selects : DerivesSelections block selections) :
      DerivesDefinition block (.operation ⟨position, .query, none, [], [], selections⟩)
  | operation {position : Position} {kind : OperationKind} {name : Option String}
      {declared : List VariableDefinition} {directives : List Directive}
      {selections : List Selection} {tokens defined applied block : List Located}
      (isNamed : DerivesOptionalName tokens name)
      (areDefined : DerivesVariables defined declared)
      (areApplied : DerivesDirectives applied directives)
      (selects : DerivesSelections block selections) :
      DerivesDefinition
        (⟨position, .name kind.keyword⟩ :: (tokens ++ (defined ++ (applied ++ block))))
        (.operation ⟨position, kind, name, declared, directives, selections⟩)
  | fragment {position namePosition : Position} {name condition : String}
      {directives : List Directive} {selections : List Selection}
      {tokens applied block : List Located}
      (isCondition : DerivesCondition tokens (some condition))
      (areApplied : DerivesDirectives applied directives)
      (selects : DerivesSelections block selections) :
      DerivesDefinition
        (⟨position, .name "fragment"⟩ :: ⟨namePosition, .name name⟩ ::
          (tokens ++ (applied ++ block)))
        (.fragment ⟨position, name, condition, directives, selections⟩)

end Grammar

end GraphQL
