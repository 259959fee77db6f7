import GraphQL.Document.Parser
import GraphQL.Proofs.Document.Derivations

/-!
What readers read is derived by the grammar: each takes tokens off the front from which the value
that it gives is derived. A document that was read is derived from all tokens of its text.
-/

namespace GraphQL

namespace Grammar

/-! ## What readers take -/

/-- Tokens from which a value is derived are taken off the front. -/
def Takes {α : Type} (derives : List Located → α → Prop) (tokens : List Located) (value : α)
    (rest : List Located) : Prop :=
  ∃ taken, tokens = taken ++ rest ∧ derives taken value

/-- Items and the mark that closes them are taken off the front. -/
private def TakesUntil {α : Type} (closing : Char) (derives : List Located → α → Prop)
    (tokens : List Located) (values : List α) (rest : List Located) : Prop :=
  ∃ closed, Takes (DerivesThen (DerivesEach derives) (DerivesMark closing)) tokens
    (values, closed) rest

section

variable {α β : Type} {first derives : List Located → α → Prop} {second : List Located → β → Prop}
  {tokens middle rest : List Located} {left value : α} {right : β} {values : List α}
  {opening closing : Char}

private theorem Takes.imp (takes : Takes derives tokens value rest)
    (derived : ∀ taken, derives taken value → second taken right) :
    Takes second tokens right rest := by
  rcases takes with ⟨taken, equal, isDerived⟩
  exact ⟨taken, equal, derived taken isDerived⟩

private theorem Takes.andThen (isFirst : Takes first tokens left middle)
    (isSecond : Takes second middle right rest) :
    Takes (DerivesThen first second) tokens (left, right) rest := by
  rcases isFirst with ⟨taken, rfl, isFirst⟩
  rcases isSecond with ⟨others, rfl, isSecond⟩
  exact ⟨taken ++ others, (List.append_assoc _ _ _).symm, .andThen isFirst isSecond⟩

private theorem Takes.after {joined : List Located → β → Prop} (before : List Located)
    (takes : Takes derives tokens value rest)
    (derived : ∀ taken, derives taken value → joined (before ++ taken) right) :
    Takes joined (before ++ tokens) right rest := by
  rcases takes with ⟨taken, rfl, isDerived⟩
  exact ⟨before ++ taken, (List.append_assoc _ _ _).symm, derived taken isDerived⟩

/-- What is taken starts where the tokens do, unless nothing is. -/
private theorem Takes.starts {position : Position} {token : Token}
    (takes : Takes derives (⟨position, token⟩ :: tokens) value rest)
    (some : ∀ taken, derives taken value → taken ≠ []) :
    Takes (fun taken value => StartsAt position taken ∧ derives taken value)
      (⟨position, token⟩ :: tokens) value rest := by
  rcases takes with ⟨taken, equal, derived⟩
  refine ⟨taken, equal, ?_, derived⟩
  cases taken with
  | nil => exact absurd rfl (some [] derived)
  | cons head tail =>
      cases equal
      rfl

private theorem Takes.nil (derived : derives [] value) : Takes derives tokens value tokens :=
  ⟨[], rfl, derived⟩

private theorem Takes.each (isFirst : Takes derives tokens value middle)
    (more : DerivesEach derives middle values) : DerivesEach derives tokens (value :: values) := by
  rcases isFirst with ⟨taken, rfl, isFirst⟩
  exact .cons isFirst more

private theorem TakesUntil.nil {closed : Position}
    (isClosed : Takes (DerivesMark closing) tokens closed rest) :
    TakesUntil closing derives tokens [] rest :=
  ⟨closed, (Takes.nil .nil).andThen isClosed⟩

private theorem TakesUntil.cons (isFirst : Takes derives tokens value middle)
    (more : TakesUntil closing derives middle values rest) :
    TakesUntil closing derives tokens (value :: values) rest := by
  rcases more with ⟨closed, more⟩
  refine ⟨closed, (isFirst.andThen more).imp ?_⟩
  rintro _ ⟨isFirst, ⟨each, isClosed⟩⟩
  rw [← List.append_assoc]
  exact .andThen (.cons isFirst each) isClosed

private theorem TakesUntil.between {opened : Position}
    (isOpened : Takes (DerivesMark opening) tokens opened middle)
    (items : TakesUntil closing derives middle values rest) (some : values ≠ []) :
    Takes (DerivesBetween opening closing derives) tokens values rest := by
  rcases items with ⟨closed, items⟩
  apply (isOpened.andThen items).imp
  rintro _ ⟨⟨⟩, ⟨each, ⟨⟩⟩⟩
  exact .between each some

end

/-- A reader takes what the grammar derives. -/
private def Follows {α : Type} (reader : Reader α) (derives : List Located → α → Prop) : Prop :=
  ∀ ⦃tokens : List Located⦄ ⦃read : Read α tokens⦄, reader tokens = some read →
    Takes derives tokens read.value read.rest

private theorem takes_mark {char : Char} {position : Position} {rest : List Located} :
    Takes (DerivesMark char) (⟨position, .mark char⟩ :: rest) position rest :=
  ⟨_, rfl, .mark⟩

private theorem takes_name {text : String} {position : Position} {rest : List Located} :
    Takes DerivesName (⟨position, .name text⟩ :: rest) text rest :=
  ⟨_, rfl, .name⟩

private theorem mark_follows (char : Char) : Follows (mark char) (DerivesMark char) := by
  intro tokens read found
  unfold mark at found
  split at found
  · split at found
    next same =>
      cases found
      subst same
      exact takes_mark
    · cases found
  · cases found

private theorem name_follows : Follows name DerivesName := by
  intro tokens read found
  unfold name at found
  split at found
  · cases found
    exact takes_name
  · cases found

private theorem Follows.andThen {α β γ : Type} {first : Reader α} {second : Reader β}
    {left : List Located → α → Prop} {right : List Located → β → Prop}
    {joined : List Located → γ → Prop} {join : α → β → γ} (isFirst : Follows first left)
    (isSecond : Follows second right)
    (derived : ∀ taken before after, DerivesThen left right taken (before, after) →
      joined taken (join before after)) :
    Follows (andThen first second join) joined := by
  intro tokens read found
  unfold Grammar.andThen at found
  split at found
  · cases found
  next before firstFound =>
    split at found
    · cases found
    next after secondFound =>
      cases found
      exact ((isFirst firstFound).andThen (isSecond secondFound)).imp fun taken => derived taken _ _

/-! ### Values and types -/

private theorem key_follows : Follows (andThen name (mark ':') fun key _ => key)
    fun tokens key => ∃ position colon, tokens = [⟨position, .name key⟩, ⟨colon, .mark ':'⟩] := by
  apply name_follows.andThen (mark_follows ':')
  rintro _ _ _ ⟨⟨⟩, ⟨⟩⟩
  exact ⟨_, _, rfl⟩

mutual

theorem literal_takes (constant : Bool) (tokens : List Located) {read : Read Literal tokens}
    (found : literal constant tokens = some read) :
    Takes (DerivesLiteral constant) tokens read.value read.rest := by
  match tokens, read, found with
  | [], _, found => simp [literal] at found
  | ⟨_, .ellipsis⟩ :: _, _, found => simp [literal] at found
  | ⟨_, .int _⟩ :: _, _, found =>
      simp only [literal, Option.some.injEq] at found
      rw [← found]
      exact ⟨_, rfl, .int⟩
  | ⟨_, .float _⟩ :: _, _, found =>
      simp only [literal, Option.some.injEq] at found
      rw [← found]
      exact ⟨_, rfl, .float⟩
  | ⟨_, .string _⟩ :: _, _, found =>
      simp only [literal, Option.some.injEq] at found
      rw [← found]
      exact ⟨_, rfl, .string⟩
  | ⟨_, .name _⟩ :: _, _, found =>
      simp only [literal, Option.some.injEq] at found
      rw [← found]
      exact ⟨_, rfl, .name⟩
  | ⟨_, .mark _⟩ :: rest, _, found =>
      simp only [literal] at found
      split at found
      next isVariable =>
        rcases isVariable with ⟨rfl, mentions⟩
        obtain ⟨name, named, equal⟩ := Option.map_eq_some_iff.mp found
        rw [← equal]
        apply (takes_mark.andThen (name_follows named)).imp
        rintro _ ⟨⟨⟩, ⟨⟩⟩
        exact .mentioned (by simpa using mentions)
      split at found
      next isList =>
        subst isList
        obtain ⟨items, listed, equal⟩ := Option.map_eq_some_iff.mp found
        rw [← equal]
        rcases literals_take constant rest listed with ⟨closed, takesEach⟩
        apply (takes_mark.andThen takesEach).imp
        rintro _ ⟨⟨⟩, ⟨each, ⟨⟩⟩⟩
        exact .list each
      split at found
      next isObject =>
        subst isObject
        obtain ⟨fields, listed, equal⟩ := Option.map_eq_some_iff.mp found
        rw [← equal]
        rcases literalFields_take constant rest listed with ⟨closed, takesEach⟩
        apply (takes_mark.andThen takesEach).imp
        rintro _ ⟨⟨⟩, ⟨each, ⟨⟩⟩⟩
        exact .object each
      · cases found
termination_by (tokens.length, 0)

private theorem literals_take (constant : Bool) (tokens : List Located)
    {read : Read (List Literal) tokens} (found : literals constant tokens = some read) :
    TakesUntil ']' (DerivesLiteral constant) tokens read.value read.rest := by
  unfold literals at found
  split at found
  next closing closed =>
    cases found
    exact .nil (mark_follows _ closed)
  split at found
  · cases found
  next item itemFound =>
    have := item.shorter
    obtain ⟨items, more, equal⟩ := Option.map_eq_some_iff.mp found
    rw [← equal]
    exact .cons (literal_takes constant tokens itemFound) (literals_take constant item.rest more)
termination_by (tokens.length, 1)

private theorem literalFields_take (constant : Bool) (tokens : List Located)
    {read : Read (List (String × Literal)) tokens}
    (found : literalFields constant tokens = some read) :
    TakesUntil '\x7d' (DerivesField constant) tokens read.value read.rest := by
  unfold literalFields at found
  split at found
  next closing closed =>
    cases found
    exact .nil (mark_follows _ closed)
  split at found
  · cases found
  next key keyFound =>
    have := key.shorter
    split at found
    · cases found
    next value valueFound =>
      have := value.shorter
      obtain ⟨fields, more, equal⟩ := Option.map_eq_some_iff.mp found
      rw [← equal]
      refine .cons ?_ (literalFields_take constant value.rest more)
      apply ((key_follows keyFound).andThen (literal_takes constant key.rest valueFound)).imp
      rintro _ ⟨⟨_, _, rfl⟩, isValue⟩
      exact .field isValue
termination_by (tokens.length, 1)

end

private theorem orNonNull_takes {tokens : List Located} {type : Read TypeExpr tokens}
    (isType : Takes DerivesType tokens type.value type.rest)
    (nullable : ∀ inner, type.value ≠ .nonNull inner) :
    Takes DerivesType tokens (orNonNull type).value (orNonNull type).rest := by
  unfold orNonNull
  split
  next exclamation found =>
    apply (isType.andThen (mark_follows _ found)).imp
    rintro _ ⟨isType, ⟨⟩⟩
    exact .nonNull isType nullable
  · exact isType

private theorem typeExpr_takes (tokens : List Located) {read : Read TypeExpr tokens}
    (found : typeExpr tokens = some read) : Takes DerivesType tokens read.value read.rest := by
  match tokens, read, found with
  | ⟨_, .name _⟩ :: _, _, found =>
      simp only [typeExpr, Option.some.injEq] at found
      rw [← found]
      exact orNonNull_takes ⟨_, rfl, .named⟩ fun _ => TypeExpr.noConfusion
  | ⟨_, .mark _⟩ :: rest, _, found =>
      rw [typeExpr] at found
      split at found
      next isList =>
        subst isList
        split at found
        · cases found
        next item itemFound =>
          obtain ⟨closing, closed, equal⟩ := Option.map_eq_some_iff.mp found
          rw [← equal]
          refine orNonNull_takes ?_ fun _ => TypeExpr.noConfusion
          apply (takes_mark.andThen
            ((typeExpr_takes rest itemFound).andThen (mark_follows _ closed))).imp
          rintro _ ⟨⟨⟩, ⟨isItem, ⟨⟩⟩⟩
          exact .list isItem
      · cases found
  | [], _, found => simp [typeExpr] at found
  | ⟨_, .int _⟩ :: _, _, found => simp [typeExpr] at found
  | ⟨_, .float _⟩ :: _, _, found => simp [typeExpr] at found
  | ⟨_, .string _⟩ :: _, _, found => simp [typeExpr] at found
  | ⟨_, .ellipsis⟩ :: _, _, found => simp [typeExpr] at found
termination_by tokens.length

/-! ### Lists, arguments and directives -/

section

variable {α : Type} {item : Reader α} {derives : List Located → α → Prop}

private theorem itemsUntil_takes (follows : Follows item derives) (closing : Char)
    (tokens : List Located)
    {read : Read (List α) tokens} (found : itemsUntil item closing tokens = some read) :
    TakesUntil closing derives tokens read.value read.rest ∧ read.value ≠ [] := by
  unfold itemsUntil at found
  split at found
  · cases found
  next first firstFound =>
    have := first.shorter
    have takesFirst := follows firstFound
    split at found
    next closed markFound =>
      cases found
      exact ⟨.cons takesFirst (.nil (mark_follows _ markFound)), List.cons_ne_nil _ _⟩
    · obtain ⟨more, moreFound, equal⟩ := Option.map_eq_some_iff.mp found
      rw [← equal]
      have takesMore := itemsUntil_takes follows closing first.rest moreFound
      exact ⟨.cons takesFirst takesMore.1, List.cons_ne_nil _ _⟩
termination_by tokens.length

private theorem optionalList_takes (follows : Follows item derives) {opening closing : Char}
    {tokens : List Located} {values : List α} {rest : Rest tokens}
    (found : optionalList opening closing item tokens = some (values, rest)) :
    Takes (DerivesOptional opening closing derives) tokens values rest.val := by
  unfold optionalList at found
  split at found
  · cases found
    exact .nil .missing
  next opened markFound =>
    obtain ⟨read, itemsFound, equal⟩ := Option.map_eq_some_iff.mp found
    cases equal
    rcases itemsUntil_takes follows closing opened.rest itemsFound with ⟨takesEach, some⟩
    exact (takesEach.between (mark_follows _ markFound) some).imp fun _ => .present

end

private theorem argument_follows : Follows argument (DerivesField false) := by
  apply key_follows.andThen fun _ _ => literal_takes false _
  rintro _ _ _ ⟨⟨_, _, rfl⟩, isValue⟩
  exact .field isValue

private theorem directive_follows : Follows directive DerivesDirective := by
  intro tokens read found
  unfold directive at found
  split at found
  · cases found
  next sign signFound =>
    split at found
    · cases found
    next name nameFound =>
      obtain ⟨⟨arguments, rest⟩, argumentsFound, equal⟩ := Option.map_eq_some_iff.mp found
      rw [← equal]
      apply ((mark_follows _ signFound).andThen ((name_follows nameFound).andThen
        (optionalList_takes argument_follows argumentsFound))).imp
      rintro _ ⟨⟨⟩, ⟨⟨⟩, areGiven⟩⟩
      exact .directive areGiven

private theorem directives_take (tokens : List Located) {value : List Directive}
    {rest : Rest tokens} (found : directives tokens = some (value, rest)) :
    Takes DerivesDirectives tokens value rest.val := by
  unfold directives at found
  split at found
  · cases found
    exact .nil .nil
  · split at found
    · cases found
    next first firstFound =>
      have := first.shorter
      obtain ⟨⟨more, after⟩, moreFound, equal⟩ := Option.map_eq_some_iff.mp found
      cases equal
      apply ((directive_follows firstFound).andThen (directives_take first.rest moreFound)).imp
      rintro _ ⟨isFirst, areMore⟩
      exact .cons isFirst areMore
termination_by tokens.length

/-! ### Selections -/

private theorem fieldName_follows : Follows fieldName DerivesFieldName := by
  intro tokens read found
  unfold fieldName at found
  split at found
  · cases found
  next first firstFound =>
    have takesFirst := name_follows firstFound
    split at found
    · cases found
      apply takesFirst.imp
      rintro _ ⟨⟩
      exact .plain
    next colon colonFound =>
      obtain ⟨named, namedFound, equal⟩ := Option.map_eq_some_iff.mp found
      rw [← equal]
      apply (takesFirst.andThen ((mark_follows _ colonFound).andThen (name_follows namedFound))).imp
      rintro _ ⟨⟨⟩, ⟨⟨⟩, ⟨⟩⟩⟩
      exact .aliased

private theorem condition_takes {tokens : List Located} {value : Option String} {rest : Rest tokens}
    (found : condition tokens = some (value, rest)) :
    Takes DerivesCondition tokens value rest.val := by
  unfold condition at found
  split at found
  · obtain ⟨type, typeFound, equal⟩ := Option.map_eq_some_iff.mp found
    cases equal
    apply (takes_name.andThen (name_follows typeFound)).imp
    rintro _ ⟨⟨⟩, ⟨⟩⟩
    exact .present
  · cases found
    exact .nil .missing

private theorem spreadName?_takes {tokens rest : List Located} {position : Position} {token : Token}
    {text : String} (found : spreadName? (⟨position, token⟩ :: tokens) = some (text, rest)) :
    token = .name text ∧ text ≠ "on" ∧ tokens = rest := by
  unfold spreadName? at found
  split at found
  next starts =>
    cases starts
    split at found
    · cases found
    next notOn =>
      cases found
      exact ⟨rfl, notOn, rfl⟩
  · cases found

section

variable {directives : List Directive} {selections : List Selection} {position : Position}
  {token : Token} {tokens afterDirectives rest : List Located}

private theorem field_takes {label : Option String} {name : String} {arguments : ArgumentList}
    {afterName afterArguments : List Located}
    (isNamed : Takes DerivesFieldName (⟨position, token⟩ :: tokens) (label, name) afterName)
    (areGiven : Takes DerivesArguments afterName arguments afterArguments)
    (areApplied : Takes DerivesDirectives afterArguments directives afterDirectives)
    (selects : Takes (DerivesOptional '\x7b' '\x7d' DerivesSelection) afterDirectives selections
      rest) :
    Takes DerivesSelection (⟨position, token⟩ :: tokens)
      (.field ⟨position, label, name, arguments, directives, selections⟩) rest := by
  have starts := isNamed.starts fun _ => DerivesFieldName.ne_nil
  apply (starts.andThen (areGiven.andThen (areApplied.andThen selects))).imp
  rintro _ ⟨⟨starts, isNamed⟩, ⟨areGiven, ⟨areApplied, selects⟩⟩⟩
  exact .field starts isNamed areGiven areApplied selects

private theorem inline_takes {ellipsis : Position} {condition : Option String}
    {afterCondition : List Located}
    (isCondition : Takes DerivesCondition (⟨position, token⟩ :: tokens) condition afterCondition)
    (areApplied : Takes DerivesDirectives afterCondition directives afterDirectives)
    (selects : Takes DerivesSelections afterDirectives selections rest) :
    Takes DerivesSelection (⟨ellipsis, .ellipsis⟩ :: ⟨position, token⟩ :: tokens)
      (.inline ⟨position, condition, directives, selections⟩) rest := by
  apply ((isCondition.andThen (areApplied.andThen selects)).starts ?_).after [_]
  · rintro _ ⟨starts, ⟨isCondition, ⟨areApplied, selects⟩⟩⟩
    rw [List.singleton_append]
    exact .inline starts isCondition areApplied selects
  · rintro _ ⟨isCondition, ⟨areApplied, selects⟩⟩
    simp [selects.ne_nil]

end

mutual

private theorem selection_takes (tokens : List Located) {read : Read Selection tokens}
    (found : selection tokens = some read) :
    Takes DerivesSelection tokens read.value read.rest := by
  match tokens, read, found with
  | [], _, found => simp [selection] at found
  | [⟨_, .ellipsis⟩], _, found => simp [selection] at found
  | ⟨_, .ellipsis⟩ :: ⟨position, token⟩ :: more, _, found =>
      simp only [selection] at found
      split at found
      next name rest spread =>
        rcases spreadName?_takes spread with ⟨rfl, notOn, rfl⟩
        obtain ⟨⟨directives, after⟩, directivesFound, equal⟩ := Option.map_eq_some_iff.mp found
        rw [← equal]
        exact (directives_take _ directivesFound).after [_, _] fun _ => .spread notOn
      next spread =>
        split at found
        · cases found
        next type rest conditionFound =>
          split at found
          · cases found
          next directives afterDirectives directivesFound =>
            have shorter : afterDirectives.val.length ≤ more.length + 1 :=
              Nat.le_trans afterDirectives.property rest.property
            obtain ⟨selections, selectionsFound, equal⟩ := Option.map_eq_some_iff.mp found
            rw [← equal]
            exact inline_takes (condition_takes conditionFound)
              (directives_take _ directivesFound)
              (selectionSet_takes afterDirectives.val selectionsFound)
  | ⟨_, .mark _⟩ :: _, _, found | ⟨_, .int _⟩ :: _, _, found
  | ⟨_, .float _⟩ :: _, _, found | ⟨_, .string _⟩ :: _, _, found =>
      simp [selection, fieldName, name] at found
  | ⟨position, .name text⟩ :: after, _, found =>
      simp only [selection] at found
      split at found
      · cases found
      next fieldName fieldNameFound =>
        split at found
        · cases found
        next arguments afterArguments argumentsFound =>
          split at found
          · cases found
          next directives rest directivesFound =>
            have shorter : rest.val.length < after.length + 1 :=
              Nat.lt_of_le_of_lt (Nat.le_trans rest.property afterArguments.property)
                fieldName.shorter
            have isNamed := fieldName_follows fieldNameFound
            have areGiven := optionalList_takes argument_follows argumentsFound
            have areApplied := directives_take _ directivesFound
            split at found
            · cases found
              exact field_takes isNamed areGiven areApplied (.nil .missing)
            · obtain ⟨selections, selectionsFound, equal⟩ := Option.map_eq_some_iff.mp found
              rw [← equal]
              exact field_takes isNamed areGiven areApplied
                ((selectionSet_takes rest.val selectionsFound).imp fun _ => .present)
termination_by (tokens.length, 0)

private theorem selectionSet_takes (tokens : List Located) {read : Read (List Selection) tokens}
    (found : selectionSet tokens = some read) :
    Takes DerivesSelections tokens read.value read.rest := by
  unfold selectionSet at found
  split at found
  · cases found
  next opened openedFound =>
    have := opened.shorter
    obtain ⟨items, itemsFound, equal⟩ := Option.map_eq_some_iff.mp found
    rw [← equal]
    rcases selections_take opened.rest itemsFound with ⟨takesEach, some⟩
    exact takesEach.between (mark_follows _ openedFound) some
termination_by (tokens.length, 0)

private theorem selections_take (tokens : List Located) {read : Read (List Selection) tokens}
    (found : selections tokens = some read) :
    TakesUntil '\x7d' DerivesSelection tokens read.value read.rest ∧ read.value ≠ [] := by
  unfold selections at found
  split at found
  · cases found
  next first firstFound =>
    have takesFirst := selection_takes tokens firstFound
    split at found
    next closed closedFound =>
      cases found
      exact ⟨.cons takesFirst (.nil (mark_follows _ closedFound)), List.cons_ne_nil _ _⟩
    · have := first.shorter
      obtain ⟨more, moreFound, equal⟩ := Option.map_eq_some_iff.mp found
      rw [← equal]
      exact ⟨.cons takesFirst (selections_take first.rest moreFound).1, List.cons_ne_nil _ _⟩
termination_by (tokens.length, 1)

end

/-! ### Definitions -/

private theorem defaultValue_takes {tokens : List Located} {value : Option Literal}
    {rest : Rest tokens} (found : defaultValue tokens = some (value, rest)) :
    Takes DerivesDefault tokens value rest.val := by
  unfold defaultValue at found
  split at found
  · cases found
    exact .nil .missing
  next sign signFound =>
    obtain ⟨value, valueFound, equal⟩ := Option.map_eq_some_iff.mp found
    cases equal
    apply ((mark_follows _ signFound).andThen (literal_takes true _ valueFound)).imp
    rintro _ ⟨⟨⟩, isValue⟩
    exact .present isValue

private theorem variableName_follows : Follows (andThen (mark '$') name Prod.mk) fun tokens value =>
    ∃ position, tokens = [⟨value.1, .mark '$'⟩, ⟨position, .name value.2⟩] := by
  apply (mark_follows '$').andThen name_follows
  rintro _ _ _ ⟨⟨⟩, ⟨⟩⟩
  exact ⟨_, rfl⟩

private theorem variableType_follows : Follows (andThen (mark ':') typeExpr fun _ type => type)
    fun tokens type => ∃ colon after, tokens = ⟨colon, .mark ':'⟩ :: after ∧
      DerivesType after type := by
  apply (mark_follows ':').andThen fun _ _ => typeExpr_takes _
  rintro _ _ _ ⟨⟨⟩, isType⟩
  exact ⟨_, _, rfl, isType⟩

private theorem variableDefinition_follows : Follows variableDefinition DerivesVariable := by
  intro tokens read found
  unfold variableDefinition at found
  split at found
  · cases found
  next nameRead nameFound =>
    split at found
    · cases found
    next type typeFound =>
      obtain ⟨⟨default, rest⟩, defaultFound, equal⟩ := Option.map_eq_some_iff.mp found
      rw [← equal]
      apply ((variableName_follows nameFound).andThen ((variableType_follows typeFound).andThen
        (defaultValue_takes defaultFound))).imp
      rintro _ ⟨⟨_, rfl⟩, ⟨⟨_, _, rfl, isType⟩, isDefault⟩⟩
      exact .declared isType isDefault

private theorem optionalName_takes (tokens : List Located) :
    Takes DerivesOptionalName tokens (optionalName tokens).1 (optionalName tokens).2.val := by
  unfold optionalName
  split
  next found foundAt =>
    apply (name_follows foundAt).imp
    rintro _ ⟨⟩
    exact .present
  · exact .nil .missing

private theorem operationKind?_eq {keyword : String} {kind : OperationKind}
    (isKind : operationKind? keyword = some kind) : keyword = kind.keyword := by
  unfold operationKind? at isKind
  split at isKind
  · cases isKind
    assumption
  split at isKind
  · cases isKind
    assumption
  split at isKind
  · cases isKind
    assumption
  · cases isKind

private theorem operation_takes {position : Position} {kind : OperationKind} {tokens : List Located}
    {read : Read Definition tokens} (found : operation position kind tokens = some read) :
    Takes DerivesDefinition (⟨position, .name kind.keyword⟩ :: tokens) read.value read.rest := by
  unfold operation at found
  simp only at found
  split at found
  · cases found
  next definitions afterVariables variablesFound =>
    split at found
    · cases found
    next directives rest directivesFound =>
      obtain ⟨selections, selectionsFound, equal⟩ := Option.map_eq_some_iff.mp found
      rw [← equal]
      apply ((optionalName_takes tokens).andThen
        ((optionalList_takes variableDefinition_follows variablesFound).andThen
          ((directives_take _ directivesFound).andThen
            (selectionSet_takes _ selectionsFound)))).after [_]
      rintro _ ⟨isNamed, ⟨areDefined, ⟨areApplied, selects⟩⟩⟩
      rw [List.singleton_append]
      exact .operation isNamed areDefined areApplied selects

private theorem fragment_takes {position : Position} {tokens : List Located}
    {read : Read Definition tokens} (found : fragment position tokens = some read) :
    Takes DerivesDefinition (⟨position, .name "fragment"⟩ :: tokens) read.value read.rest := by
  unfold fragment at found
  split at found
  · cases found
  next name nameFound =>
    split at found
    next type afterCondition conditionFound =>
      split at found
      · cases found
      next directives rest directivesFound =>
        obtain ⟨selections, selectionsFound, equal⟩ := Option.map_eq_some_iff.mp found
        rw [← equal]
        apply ((name_follows nameFound).andThen ((condition_takes conditionFound).andThen
          ((directives_take _ directivesFound).andThen
            (selectionSet_takes _ selectionsFound)))).after [_]
        rintro _ ⟨⟨⟩, ⟨isCondition, ⟨areApplied, selects⟩⟩⟩
        rw [List.singleton_append, List.singleton_append]
        exact .fragment isCondition areApplied selects
    · cases found

private theorem definition_follows : Follows definition DerivesDefinition := by
  intro tokens read found
  unfold definition at found
  split at found
  next position keyword rest =>
    split at found
    next isFragment =>
      subst isFragment
      obtain ⟨inner, fragmentFound, equal⟩ := Option.map_eq_some_iff.mp found
      rw [← equal]
      exact fragment_takes fragmentFound
    split at found
    next kind isKind =>
      cases operationKind?_eq isKind
      obtain ⟨inner, operationFound, equal⟩ := Option.map_eq_some_iff.mp found
      rw [← equal]
      exact operation_takes operationFound
    · cases found
  next position char rest =>
    obtain ⟨selections, selectionsFound, equal⟩ := Option.map_eq_some_iff.mp found
    rw [← equal]
    have takes := (selectionSet_takes _ selectionsFound).starts fun _ => DerivesBetween.ne_nil
    exact takes.imp fun _ selects => .query selects.1 selects.2
  · cases found

private theorem definitions_derive (tokens : List Located) {read : List Definition}
    (found : definitions tokens = some read) : DerivesEach DerivesDefinition tokens read := by
  unfold definitions at found
  split at found
  · cases found
  next first firstFound =>
    split at found
    next isLast =>
      cases found
      apply (definition_follows firstFound).each
      rw [List.isEmpty_iff.mp isLast]
      exact .nil
    · have := first.shorter
      obtain ⟨more, moreFound, equal⟩ := Option.map_eq_some_iff.mp found
      rw [← equal]
      exact (definition_follows firstFound).each (definitions_derive first.rest moreFound)
termination_by tokens.length

end Grammar

/-- The tokens of a document that was read derive its definitions. -/
theorem Document.derives_of_text {text : String} {document : Document}
    (read : Document.ofText? text = some document) :
    ∃ tokens, Token.ofText? text = some tokens ∧
      Grammar.DerivesEach Grammar.DerivesDefinition tokens document.definitions := by
  unfold Document.ofText? at read
  split at read
  · cases read
  next tokens scanned =>
    obtain ⟨definitions, found, equal⟩ := Option.map_eq_some_iff.mp read
    rw [← equal]
    exact ⟨tokens, scanned, Grammar.definitions_derive tokens found⟩

end GraphQL
