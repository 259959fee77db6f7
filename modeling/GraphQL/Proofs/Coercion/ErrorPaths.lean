import GraphQL.Proofs.Coercion.Agreement
import GraphQL.Proofs.Coercion.Conformance

/-!
Where errors of coercion point. The path of an error leads from the value to one inside it that
fails by itself and with the same message, and what is visited before that one passes.
-/

namespace GraphQL

/-- The type of the items of a list, within any number of non-null marks. -/
def TypeRef.element? : TypeRef → Option TypeRef
  | .nonNull inner => inner.element?
  | .list item => some item
  | _ => none

/-! ## Ways into a value -/

/-- A value, and the type that it is coerced to. -/
structure Spot where
  type : TypeRef
  value : Json

/-- The value is coerced to its type. -/
def Spot.Passes (registry : Registry) (spot : Spot) : Prop :=
  (registry.coerceValue spot.value).Reads spot.type

namespace Registry

/-- The fields of the input object that a type names. Lists around it do not matter, since a single
value is taken through all of them at once. -/
def fieldsAt? (registry : Registry) (type : TypeRef) : Option (List InputValueDefinition) :=
  (registry.resolve? type).bind NamedType.inputFields?

/-- To a field by its name, or to an item by its index. -/
def step? (registry : Registry) (spot : Spot) : PathSegment → Option Spot
  | .key name => do
      let definitions ← registry.fieldsAt? spot.type
      let definition ← Named.find? definitions name
      let value ← spot.value.get? name
      return ⟨definition.type, value⟩
  | .index position => do
      let item ← spot.type.element?
      let items ← spot.value.asArray?
      let value ← items[position]?
      return ⟨item, value⟩

def walk? (registry : Registry) : Path → Spot → Option Spot
  | [], spot => some spot
  | segment :: path, spot => (registry.step? spot segment).bind (walk? registry path)

/-- Fields are visited in the order of their definitions, and items in that of the list. -/
def Before (registry : Registry) (spot : Spot) : PathSegment → PathSegment → Prop
  | .key first, .key second =>
      ∃ definitions, registry.fieldsAt? spot.type = some definitions ∧
        (Named.names definitions).idxOf first < (Named.names definitions).idxOf second
  | .index first, .index second => first < second
  | _, _ => False

/-- Of two paths from a value the first leads to what is visited earlier: where they part, it takes
the earlier field or item. -/
inductive Precedes (registry : Registry) : Spot → Path → Path → Prop
  | here {spot : Spot} {first second : PathSegment} {path other : Path}
      (before : registry.Before spot first second) :
      Precedes registry spot (first :: path) (second :: other)
  | inside {spot next : Spot} {segment : PathSegment} {path other : Path}
      (stepped : registry.step? spot segment = some next)
      (within : Precedes registry next path other) :
      Precedes registry spot (segment :: path) (segment :: other)

/-- What is in the value is looked at: the items of a list, or the fields of an object if each is
known. -/
inductive Opens (registry : Registry) : Spot → Prop
  | list {type item : TypeRef} (items : List Json) (isList : type.element? = some item) :
      Opens registry ⟨type, .array items⟩
  | object {type : TypeRef} {named : NamedType} {definitions : List InputValueDefinition}
      {fields : List (String × Json)} (resolved : registry.resolve? type = some named)
      (isObject : named.shape = .inputObject definitions)
      (known : ∀ name ∈ Named.names fields, Named.contains definitions name = true) :
      Opens registry ⟨type, .object fields⟩

/-- The value fails, and nothing that is in it: it is not opened, or it lacks a required field and
the fields before that one pass. -/
inductive FailsAlone (registry : Registry) : Spot → String → Prop
  | closed {spot : Spot} {message : String} (notOpened : ¬registry.Opens spot) :
      FailsAlone registry spot message
  | lacks {type : TypeRef} {named : NamedType} {definitions : List InputValueDefinition}
      {fields : List (String × Json)} {definition : InputValueDefinition} {message : String}
      (resolved : registry.resolve? type = some named)
      (isObject : named.shape = .inputObject definitions) (listed : definition ∈ definitions)
      (notGiven : Named.value? fields definition.name = none)
      (required : definition.absentEntry named.name = .error ⟨message, []⟩)
      (earlier : ∀ segment other,
        registry.Before ⟨type, .object fields⟩ segment (.key definition.name) →
          registry.step? ⟨type, .object fields⟩ segment = some other → other.Passes registry) :
      FailsAlone registry ⟨type, .object fields⟩ message

/-- How coercion fails at a value: by the value alone, or by a field or an item of it, whose error
is placed under its segment and before which all others pass. -/
inductive Fails (registry : Registry) (spot : Spot) : CoercionError → Prop
  | alone {message : String} (fails : registry.FailsAlone spot message) :
      Fails registry spot ⟨message, []⟩
  | inside {segment : PathSegment} {next : Spot} {error : CoercionError}
      (stepped : registry.step? spot segment = some next)
      (failed : registry.coerceValue next.value next.type = .error error)
      (earlier : ∀ first other, registry.Before spot first segment →
        registry.step? spot first = some other → other.Passes registry) :
      Fails registry spot (error.under segment)

/-- The value at the end of a path fails alone, and what is visited before it passes. -/
structure FailsAt (registry : Registry) (spot : Spot) (path : Path) (message : String)
    (found : Spot) : Prop where
  walked : registry.walk? path spot = some found
  failed : registry.coerceValue found.value found.type = .error ⟨message, []⟩
  alone : registry.FailsAlone found message
  earlier : ∀ first other, registry.Precedes spot first path →
    registry.walk? first spot = some other → other.Passes registry

end Registry

/-! ## Through the wrappers of a type -/

namespace InputReader

variable {refusal : TypeRef → String} {items? : Option InputReader} {leaf : InputReader}
  {error : CoercionError}

private theorem path_throughWrappers_null {type : TypeRef}
    (failed : throughWrappers true refusal items? leaf type = .error error) : error.path = [] := by
  cases type with
  | nonNull inner =>
      cases failed
      rfl
  | list | named | direct | deferred => cases failed

private theorem throughWrappers_single {type : TypeRef} :
    throughWrappers false refusal none leaf type = .error error ↔
      leaf type.innermost = .error error := by
  rw [← failure?_eq_some, failure?_single, failure?_eq_some]

private theorem throughWrappers_list (items : InputReader) (type : TypeRef) :
    throughWrappers false refusal (some items) leaf type =
      match type.element? with
      | some item => items item
      | none => leaf type.innermost := by
  induction type with
  | nonNull inner induction => exact induction
  | list | named | direct | deferred => rfl

end InputReader

namespace Registry

variable {registry : Registry}

private theorem fieldsAt?_eq_some {type : TypeRef} {definitions : List InputValueDefinition} :
    registry.fieldsAt? type = some definitions ↔
      ∃ named, registry.resolve? type = some named ∧ named.shape = .inputObject definitions := by
  rw [fieldsAt?, Option.bind_eq_some_iff]
  refine exists_congr fun named => and_congr_right fun _ => ?_
  rw [NamedType.inputFields?]
  cases named.shape <;> simp

private theorem names_fieldReaders (fields : List (String × Json)) :
    Named.names (registry.fieldReaders fields) = Named.names fields := by
  simp [fieldReaders_eq, Named.names, nameOf]

/-! ## Steps -/

private theorem step?_index {spot next : Spot} {position : Nat} :
    registry.step? spot (.index position) = some next ↔
      ∃ item items value, spot.type.element? = some item ∧ spot.value = .array items ∧
        items[position]? = some value ∧ ⟨item, value⟩ = next := by
  rcases spot with ⟨type, json⟩
  simp only [step?, bind, Option.bind_eq_some_iff, pure, Option.some.injEq]
  cases json <;> simp [Json.asArray?]

private theorem step?_key {spot next : Spot} {name : String} :
    registry.step? spot (.key name) = some next ↔
      ∃ definitions definition fields value, registry.fieldsAt? spot.type = some definitions ∧
        Named.find? definitions name = some definition ∧ spot.value = .object fields ∧
        Named.value? fields name = some value ∧ ⟨definition.type, value⟩ = next := by
  rcases spot with ⟨type, json⟩
  simp only [step?, bind, Option.bind_eq_some_iff, pure, Option.some.injEq]
  cases json <;> simp [Json.get?]

private theorem before_total {spot next other : Spot} {first second : PathSegment}
    (toNext : registry.step? spot first = some next)
    (toOther : registry.step? spot second = some other) (apart : first ≠ second) :
    registry.Before spot first second ∨ registry.Before spot second first := by
  cases first with
  | index position =>
      rcases step?_index.mp toNext with ⟨_, _, _, _, isArray, _⟩
      cases second with
      | index another =>
          exact Nat.lt_or_gt_of_ne fun same => apart (congrArg PathSegment.index same)
      | key name =>
          rcases step?_key.mp toOther with ⟨_, _, _, _, _, _, isObject, _⟩
          rw [isArray] at isObject
          cases isObject
  | key name =>
      rcases step?_key.mp toNext with ⟨definitions, definition, _, _, defined, found, isObject, _⟩
      cases second with
      | index position =>
          rcases step?_index.mp toOther with ⟨_, _, _, _, isArray, _⟩
          rw [isObject] at isArray
          cases isArray
      | key another =>
          have listed : name ∈ Named.names definitions :=
            List.mem_map.mpr ⟨definition, Named.find?_mem found⟩
          have different : (Named.names definitions).idxOf name ≠
              (Named.names definitions).idxOf another := fun same =>
            apart (congrArg PathSegment.key ((List.idxOf_inj listed).mp same))
          exact (Nat.lt_or_gt_of_ne different).imp (⟨definitions, defined, ·⟩)
            (⟨definitions, defined, ·⟩)

/-- Of two values neither of which is in the other one is visited earlier. -/
private theorem precedes_total {path second : Path} {spot found other : Spot}
    (walked : registry.walk? path spot = some found)
    (toOther : registry.walk? second spot = some other) :
    registry.Precedes spot path second ∨ registry.Precedes spot second path ∨
      path <+: second ∨ second <+: path := by
  induction path generalizing spot second with
  | nil => exact .inr (.inr (.inl List.nil_prefix))
  | cons segment path induction =>
      cases second with
      | nil => exact .inr (.inr (.inr List.nil_prefix))
      | cons another second =>
          rcases Option.bind_eq_some_iff.mp walked with ⟨next, stepped, walked⟩
          rcases Option.bind_eq_some_iff.mp toOther with ⟨beside, toBeside, toOther⟩
          by_cases same : segment = another
          · subst same
            rw [stepped] at toBeside
            cases toBeside
            rw [List.cons_prefix_cons, List.cons_prefix_cons]
            rcases induction walked toOther with before | after | within | within
            · exact .inl (.inside stepped before)
            · exact .inr (.inl (.inside stepped after))
            · exact .inr (.inr (.inl ⟨rfl, within⟩))
            · exact .inr (.inr (.inr ⟨rfl, within⟩))
          · rcases before_total stepped toBeside same with before | after
            · exact .inl (.here before)
            · exact .inr (.inl (.here after))

/-! ## Values that are not opened -/

private theorem path_inputType {type : TypeRef} {error : CoercionError}
    (failed : registry.inputType type = .error error) : error.path = [] := by
  rw [inputType] at failed
  split at failed
  · split at failed
    · cases failed
    · cases failed
      rfl
  · cases failed
    rfl

private theorem path_absentEntry {owner : String} {definition : InputValueDefinition}
    {error : CoercionError} (failed : definition.absentEntry owner = .error error) :
    error.path = [] := by
  rw [InputValueDefinition.absentEntry] at failed
  split at failed
  · cases failed
  · split at failed
    · cases failed
      rfl
    · cases failed

/-- At a type without wrappers a value fails by itself, unless it is an object with known fields. -/
private theorem path_valueAtNamed {value : Json} {readers? : Option (List (String × InputReader))}
    {type : TypeRef} {error : CoercionError}
    (closed : ∀ readers, readers? = some readers → ∀ named definitions,
      registry.resolve? type = some named → named.shape = .inputObject definitions →
        ¬∀ name ∈ Named.names readers, Named.contains definitions name = true)
    (failed : registry.valueAtNamed value readers? type = .error error) : error.path = [] := by
  rw [valueAtNamed] at failed
  rcases bind_eq_error failed with failed | ⟨named, isInput, failed⟩
  · exact path_inputType failed
  · cases shape : named.shape with
    | scalar scalar =>
        simp only [shape] at failed
        rcases mapError_eq_error failed with ⟨reason, _, rfl⟩
        rfl
    | enum values =>
        simp only [shape] at failed
        split at failed
        · cases failed
        · cases failed
          rfl
    | inputObject definitions =>
        simp only [shape] at failed
        cases readers? with
        | none =>
            cases failed
            rfl
        | some readers =>
            have resolved := (inputType_eq_ok.mp isInput).1
            have unknown := closed readers rfl named definitions resolved shape
            rw [← InputObject.unknownField?_eq_none] at unknown
            rcases Option.ne_none_iff_exists'.mp unknown with ⟨name, isUnknown⟩
            simp only [InputObject.read, isUnknown] at failed
            cases failed
            rfl
    | object | interface | union =>
        simp only [shape] at failed
        cases failed
        rfl

private theorem path_of_closed {type : TypeRef} {json : Json} {error : CoercionError}
    (closed : ¬registry.Opens ⟨type, json⟩)
    (failed : registry.coerceValue json type = .error error) : error.path = [] := by
  cases json with
  | null =>
      rw [coerceValue] at failed
      exact InputReader.path_throughWrappers_null failed
  | array items =>
      rw [coerceValue, InputReader.throughWrappers_list] at failed
      cases isList : type.element? with
      | some item => exact absurd (.list items isList) closed
      | none =>
          rw [isList] at failed
          exact path_valueAtNamed (fun _ isGiven => by cases isGiven) failed
  | object fields =>
      rw [coerceValue, InputReader.throughWrappers_single] at failed
      refine path_valueAtNamed ?_ failed
      intro readers areReaders named definitions resolved isObject known
      cases areReaders
      rw [resolve?_innermost] at resolved
      rw [names_fieldReaders] at known
      exact closed (.object resolved isObject known)
  | bool | number | string =>
      rw [coerceValue, InputReader.throughWrappers_single] at failed
      exact path_valueAtNamed (fun _ isGiven => by cases isGiven) failed

/-! ## Lists -/

private theorem fails_in_list {type item : TypeRef} {items : List Json} {error : CoercionError}
    (isList : type.element? = some item)
    (failed : registry.coerceValue (.array items) type = .error error) :
    registry.Fails ⟨type, .array items⟩ error := by
  rw [coerceValue, InputReader.throughWrappers_list, isList] at failed
  simp only [coerceItems_eq] at failed
  rcases InputReader.readItems_eq_error (map_eq_error failed) with
    ⟨readers, reader, others, inner, split, atItem, rfl, passed⟩
  rcases List.map_eq_append_iff.mp split with ⟨earlier, rest, rfl, rfl, splitRest⟩
  rcases List.map_eq_cons_iff.mp splitRest with ⟨value, later, rfl, rfl, rfl⟩
  rw [Nat.zero_add, List.length_map]
  have stepped : registry.step? ⟨type, .array (earlier ++ value :: later)⟩
      (.index earlier.length) = some ⟨item, value⟩ :=
    step?_index.mpr ⟨item, _, value, isList, rfl, by simp, rfl⟩
  refine .inside stepped atItem fun first other before toOther => ?_
  cases first with
  | key name => cases before
  | index position =>
      rcases step?_index.mp toOther with ⟨otherItem, items, found, isItem, areItems, isFound, rfl⟩
      cases areItems
      rw [isList] at isItem
      cases isItem
      rw [List.getElem?_append_left before] at isFound
      exact passed _ (List.mem_map_of_mem (List.mem_of_getElem? isFound))

private theorem passes_item {type item : TypeRef} {items : List Json}
    (isList : type.element? = some item) (passes : Spot.Passes registry ⟨type, .array items⟩) :
    ∀ value ∈ items, Spot.Passes registry ⟨item, value⟩ := by
  rcases passes with ⟨result, passes⟩
  rw [coerceValue, InputReader.throughWrappers_list, isList] at passes
  have items := exists_ok_map.mp ⟨result, passes⟩
  rwa [coerceItems_eq, InputReader.readItems_reads, List.forall_mem_map] at items

end Registry

/-! ## Objects -/

namespace Registry

variable {registry : Registry}

private theorem passes_of_finds {fields : List (String × Json)} {definition : InputValueDefinition}
    {value : Json} (finds : InputObject.Finds (registry.fieldReaders fields) definition)
    (given : Named.value? fields definition.name = some value) :
    Spot.Passes registry ⟨definition.type, value⟩ := by
  rw [InputObject.Finds, fieldReaders_eq, Named.value?_map fun _ => registry.coerceValue,
    given] at finds
  exact finds

/-- Of definitions with different names those before one are the members of what stands before
it. -/
private theorem member_of_before {earlier later : List InputValueDefinition}
    {definition : InputValueDefinition} {name : String}
    (distinct : (Named.names (earlier ++ definition :: later)).Nodup)
    (before : (Named.names (earlier ++ definition :: later)).idxOf name <
      (Named.names (earlier ++ definition :: later)).idxOf definition.name) :
    name ∈ Named.names earlier := by
  have split : Named.names (earlier ++ definition :: later) =
      Named.names earlier ++ definition.name :: Named.names later := by
    simp [Named.names, nameOf]
  rw [split] at distinct before
  by_contra notEarlier
  have here : definition.name ∉ Named.names earlier := fun member =>
    (List.nodup_append.mp distinct).2.2 _ member _ List.mem_cons_self rfl
  rw [List.idxOf_append_of_notMem notEarlier, List.idxOf_append_of_notMem here,
    List.idxOf_cons_self] at before
  omega

section

variable {type : TypeRef} {named : NamedType} {fields : List (String × Json)}

private theorem earlier_pass (distinct : registry.DistinctMembers)
    {earlier later : List InputValueDefinition} {definition : InputValueDefinition}
    (resolved : registry.resolve? type = some named)
    (isObject : named.shape = .inputObject (earlier ++ definition :: later))
    (passed : ∀ other ∈ earlier, InputObject.Finds (registry.fieldReaders fields) other) :
    ∀ first other, registry.Before ⟨type, .object fields⟩ first (.key definition.name) →
      registry.step? ⟨type, .object fields⟩ first = some other → other.Passes registry := by
  intro first other before toOther
  have areDefined : registry.fieldsAt? type = some (earlier ++ definition :: later) :=
    fieldsAt?_eq_some.mpr ⟨named, resolved, isObject⟩
  have names := distinct.fields named (Named.find?_mem resolved).1 _ isObject
  cases first with
  | index position => cases before
  | key name =>
      rcases before with ⟨definitions, areDefinitions, before⟩
      rcases step?_key.mp toOther with
        ⟨_, found, given, value, areSame, isFound, areFields, isGiven, rfl⟩
      rw [areDefined] at areDefinitions areSame
      cases areDefinitions
      cases areSame
      cases areFields
      rcases List.mem_map.mp (member_of_before names before) with ⟨prior, member, rfl⟩
      have isPrior := Named.find?_of_mem names (List.mem_append_left (definition :: later) member)
      rw [isPrior] at isFound
      cases isFound
      exact passes_of_finds (passed found member) isGiven

private theorem fails_in_object (distinct : registry.DistinctMembers)
    {definitions : List InputValueDefinition} (resolved : registry.resolve? type = some named)
    (isObject : named.shape = .inputObject definitions)
    (known : ∀ name ∈ Named.names fields, Named.contains definitions name = true)
    {error : CoercionError} (failed : registry.coerceValue (.object fields) type = .error error) :
    registry.Fails ⟨type, .object fields⟩ error := by
  have atInnermost : registry.resolve? type.innermost = some named := by rwa [resolve?_innermost]
  rw [coerceValue, InputReader.throughWrappers_single, valueAtNamed_object atInnermost isObject,
    names_fieldReaders, InputObject.read_known known] at failed
  rcases InputObject.entries_eq_error (map_eq_error failed) with
    ⟨earlier, definition, later, rfl, atEntry, passed⟩
  have earlierPass := earlier_pass distinct resolved isObject passed
  have listed : definition ∈ earlier ++ definition :: later := by simp
  rw [InputObject.entry, fieldReaders_eq, Named.value?_map fun _ => registry.coerceValue] at atEntry
  cases given : Named.value? fields definition.name with
  | none =>
      rw [given] at atEntry
      rcases error with ⟨message, path⟩
      cases path_absentEntry atEntry
      exact .alone (.lacks resolved isObject listed given atEntry earlierPass)
  | some value =>
      rw [given] at atEntry
      rcases mapError_eq_error (map_eq_error atEntry) with ⟨inner, atField, rfl⟩
      have stepped : registry.step? ⟨type, .object fields⟩ (.key definition.name) =
          some ⟨definition.type, value⟩ :=
        step?_key.mpr ⟨_, definition, fields, value,
          fieldsAt?_eq_some.mpr ⟨named, resolved, isObject⟩,
          Named.find?_of_mem (distinct.fields named (Named.find?_mem resolved).1 _ isObject) listed,
          rfl, given, rfl⟩
      exact .inside stepped atField earlierPass

private theorem finds_of_passes {definitions : List InputValueDefinition}
    (resolved : registry.resolve? type = some named)
    (isObject : named.shape = .inputObject definitions)
    (passes : Spot.Passes registry ⟨type, .object fields⟩) :
    ∀ definition ∈ definitions, InputObject.Finds (registry.fieldReaders fields) definition := by
  have atInnermost : registry.resolve? type.innermost = some named := by rwa [resolve?_innermost]
  rw [Spot.Passes, coerceValue, InputReader.reads_single, InputReader.Reads,
    valueAtNamed_object atInnermost isObject, InputObject.read_reads] at passes
  exact passes.2

end

/-! ## Failures -/

/-- One step of an error: coercion fails by the value alone, or by the first part of it that
fails. -/
private theorem fails_of_error (distinct : registry.DistinctMembers) {spot : Spot}
    {error : CoercionError} (failed : registry.coerceValue spot.value spot.type = .error error) :
    registry.Fails spot error := by
  by_cases opens : registry.Opens spot
  · cases opens with
    | list items isList => exact fails_in_list isList failed
    | object resolved isObject known =>
        exact fails_in_object distinct resolved isObject known failed
  · rcases error with ⟨message, path⟩
    cases path_of_closed opens failed
    exact .alone (.closed opens)

private theorem passes_step {spot next : Spot} {segment : PathSegment}
    (passes : spot.Passes registry)
    (stepped : registry.step? spot segment = some next) : next.Passes registry := by
  rcases spot with ⟨type, json⟩
  cases segment with
  | index position =>
      rcases step?_index.mp stepped with ⟨item, items, value, isList, areItems, isItem, rfl⟩
      cases areItems
      exact passes_item isList passes value (List.mem_of_getElem? isItem)
  | key name =>
      rcases step?_key.mp stepped with
        ⟨definitions, definition, fields, value, areDefined, isFound, areFields, isGiven, rfl⟩
      cases areFields
      rcases fieldsAt?_eq_some.mp areDefined with ⟨named, resolved, isObject⟩
      rcases Named.find?_mem isFound with ⟨listed, rfl⟩
      exact passes_of_finds (finds_of_passes resolved isObject passes definition listed) isGiven

private theorem passes_walk {path : Path} {spot found : Spot} (passes : spot.Passes registry)
    (walked : registry.walk? path spot = some found) : found.Passes registry := by
  induction path generalizing spot with
  | nil =>
      cases walked
      exact passes
  | cons segment path induction =>
      rcases Option.bind_eq_some_iff.mp walked with ⟨next, stepped, walked⟩
      exact induction (passes_step passes stepped) walked

private theorem FailsAt.here {spot : Spot} {message : String}
    (alone : registry.FailsAlone spot message)
    (failed : registry.coerceValue spot.value spot.type = .error ⟨message, []⟩) :
    registry.FailsAt spot [] message spot where
  walked := rfl
  failed := failed
  alone := alone
  earlier _ _ precedes := by cases precedes

private theorem FailsAt.inside {spot next found : Spot} {segment : PathSegment} {path : Path}
    {message : String} (stepped : registry.step? spot segment = some next)
    (passed : ∀ first other, registry.Before spot first segment →
      registry.step? spot first = some other → other.Passes registry)
    (later : registry.FailsAt next path message found) :
    registry.FailsAt spot (segment :: path) message found where
  walked := by
    rw [walk?, stepped]
    exact later.walked
  failed := later.failed
  alone := later.alone
  earlier first other precedes walked := by
    cases precedes with
    | here before =>
        rcases Option.bind_eq_some_iff.mp walked with ⟨beside, toBeside, walked⟩
        exact passes_walk (passed _ beside before toBeside) walked
    | inside toNext within =>
        rw [stepped] at toNext
        cases toNext
        rw [walk?, stepped] at walked
        exact later.earlier _ other within walked

end Registry

/-- The path of an error leads to a value that fails by itself, and with the same message. What is
visited before that value passes: whatever else fails holds it, is in it, or is visited later. -/
theorem coercion_error_points_at_first_failure (registry : Registry)
    (distinct : registry.DistinctMembers) (type : TypeRef) (json : Json) (error : CoercionError)
    (failed : registry.coerceValue json type = .error error) :
    ∃ found, registry.FailsAt ⟨type, json⟩ error.path error.message found ∧
      ∀ path other, registry.walk? path ⟨type, json⟩ = some other → ¬other.Passes registry →
        path <+: error.path ∨ error.path <+: path ∨
          registry.Precedes ⟨type, json⟩ error.path path := by
  rcases error with ⟨message, path⟩
  have run : ∀ path message (spot : Spot),
      registry.coerceValue spot.value spot.type = .error ⟨message, path⟩ →
        ∃ found, registry.FailsAt spot path message found := by
    intro path
    induction path with
    | nil =>
        intro message spot failed
        cases Registry.fails_of_error distinct failed with
        | alone fails => exact ⟨spot, .here fails failed⟩
    | cons segment path induction =>
        intro message spot failed
        cases Registry.fails_of_error distinct failed with
        | inside stepped atNext earlier =>
            rcases induction _ _ atNext with ⟨found, later⟩
            exact ⟨found, .inside stepped earlier later⟩
  rcases run path message ⟨type, json⟩ failed with ⟨found, fails⟩
  refine ⟨found, fails, fun second other walked fail => ?_⟩
  rcases Registry.precedes_total walked fails.walked with before | after | within | within
  · exact absurd (fails.earlier second other before walked) fail
  · exact .inr (.inr after)
  · exact .inl within
  · exact .inr (.inl within)

namespace Voyage

/-! A trip has a ship, stops with rows of days, and a captain. -/

def stop : NamedType where
  key := .custom 0
  name := "Stop"
  shape := .inputObject
    [{ name := "port", type := .nonNull (.named "String") },
      { name := "days", type := .list (.list (.named "Int")) }]

def trip : NamedType where
  key := .custom 1
  name := "Trip"
  shape := .inputObject
    [{ name := "ship", type := .nonNull (.named "String") },
      { name := "stops", type := .nonNull (.list (.nonNull (.direct stop.toInstance))) },
      { name := "captain", type := .named "String" }]

def query : NamedType where
  key := .custom 2
  name := "Query"
  shape := .object
    { fields := [{ name := "sail", type := .named "Boolean",
                   arguments := [{ name := "trip", type := .direct trip.toInstance }] }] }

def registry : Registry where
  types := Scalar.all ++ Meta.all ++ [query, trip, stop]
  query := query
  mutation := none
  subscription := none
  directives := DirectiveDefinition.builtIn
  possibleTypes := []

private theorem distinctMembers : registry.DistinctMembers :=
  Registry.distinctMembers_of (by decide) (by decide)

def first : Json := .object [("port", .string "Bergen")]

def second : Json :=
  .object [("days", .array [.int 1, .string "x"]), ("port", .string "Cork")]

/-- The captain is no text, but the days of the second stop come first. -/
def given : Json :=
  .object [("captain", .int 5), ("ship", .string "Ann"),
    ("stops", .array [first, second])]

def fault : CoercionError where
  message := "Expected type \"Int\". Int cannot represent non-integer value: \"x\""
  path := [.key "stops", .index 1, .key "days", .index 1]

private theorem given_fails : registry.coerceValue given (.named "Trip") = .error fault := by rfl

end Voyage

theorem coercion_error_points_at_first_failure_of_voyage :
    Voyage.registry.coerceValue Voyage.given (.named "Trip") = .error Voyage.fault ∧
      Voyage.registry.walk? Voyage.fault.path ⟨.named "Trip", Voyage.given⟩ =
        some ⟨.list (.named "Int"), .string "x"⟩ ∧
      Voyage.registry.coerceValue (.string "x") (.list (.named "Int")) =
        .error ⟨Voyage.fault.message, []⟩ ∧
      Spot.Passes Voyage.registry ⟨.list (.named "Int"), .int 1⟩ := by
  rcases coercion_error_points_at_first_failure Voyage.registry Voyage.distinctMembers
      (.named "Trip") Voyage.given Voyage.fault Voyage.given_fails with ⟨found, fails, _⟩
  have isFound : Voyage.registry.walk? Voyage.fault.path ⟨.named "Trip", Voyage.given⟩ =
      some ⟨.list (.named "Int"), .string "x"⟩ := rfl
  have same := Option.some.inj (fails.walked.symm.trans isFound)
  subst same
  have before : Voyage.registry.Precedes ⟨.named "Trip", Voyage.given⟩
      [.key "stops", .index 1, .key "days", .index 0] Voyage.fault.path :=
    .inside rfl (.inside rfl (.inside rfl (.here Nat.zero_lt_one)))
  exact ⟨Voyage.given_fails, isFound, fails.failed, fails.earlier _ _ before rfl⟩

end GraphQL
