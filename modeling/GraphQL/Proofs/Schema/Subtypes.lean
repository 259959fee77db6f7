import GraphQL.Proofs.Coercion.Conformance
import GraphQL.Proofs.Schema.Possible

/-!
Types that stand for others. A type stands for another one if it has the same lists around it, is
non-null wherever the other one is, and is the same type inside, or a possible type of an abstract
one. In a registry that was built this is an order, and whatever conforms to the one type conforms
to the other.
-/

namespace GraphQL

/-- How many non-null marks a reference has. -/
private def TypeRef.marks : TypeRef → Nat
  | .nonNull inner => inner.marks + 1
  | .list item => item.marks
  | _ => 0

private theorem TypeRef.same_of_isBare {left right : TypeRef} (leftBare : left.isBare = true)
    (rightBare : right.isBare = true) (sameName : left.typeName = right.typeName) :
    left.same right = true := by
  cases left with
  | list | nonNull => cases leftBare
  | named | direct | deferred =>
      cases right with
      | list | nonNull => cases rightBare
      | named | direct | deferred => exact beq_iff_eq.mpr sameName

namespace Registry

/-! ## Standing for a type -/

/-- Inside all wrappers a type is another one, or an object type that is a possible type of it. -/
inductive Covers (registry : Registry) (sub super : TypeRef) : Prop
  | same (sameName : sub.typeName = super.typeName)
  | possible {superType object : NamedType} (isSuper : registry.resolve? super = some superType)
      (isAbstract : superType.isAbstract = true) (isSub : registry.resolve? sub = some object)
      (isObject : object.isObject = true)
      (isPossible : registry.isPossible superType object.name = true)

/-- A type stands for another one. Lists stand for lists only, and non-null marks may be added to
what stands for a type, but not left out. -/
inductive StandsFor (registry : Registry) : TypeRef → TypeRef → Prop
  | bare {sub super : TypeRef} (subBare : sub.isBare = true) (superBare : super.isBare = true)
      (covers : registry.Covers sub super) : StandsFor registry sub super
  | list {sub super : TypeRef} (items : StandsFor registry sub super) :
      StandsFor registry (.list sub) (.list super)
  | stronger {sub super : TypeRef} (inside : StandsFor registry sub super) :
      StandsFor registry (.nonNull sub) super
  | nonNull {sub super : TypeRef} (inside : StandsFor registry sub super) :
      StandsFor registry (.nonNull sub) (.nonNull super)

/-- The object types that values of a composite type can be of. -/
def Admits (registry : Registry) (type : TypeRef) (object : NamedType) : Prop :=
  ∃ named, registry.resolve? type = some named ∧
    ((named.isObject = true ∧ object = named) ∨
      (named.isAbstract = true ∧ registry.object? object.name = some object ∧
        registry.isPossible named object.name = true))

variable {schema : Schema} {registry : Registry} {sub super low middle high : TypeRef}

private theorem isSubType_of_nonNull (isSub : registry.isSubType sub (.nonNull super) = true) :
    registry.isSubType sub super = true := by
  induction sub generalizing super with
  | nonNull inner induction =>
      rw [isSubType] at isSub
      cases super with
      | nonNull deeper => exact induction isSub
      | list | named | direct | deferred => exact isSub
  | list | named | direct | deferred => cases isSub

private theorem isNamedSubType_iff (yields : schema.Yields registry) :
    registry.isNamedSubType sub super = true ↔ registry.Covers sub super := by
  rw [isNamedSubType]
  constructor
  · intro isNamed
    split at isNamed
    · rename_i sameName
      exact .same sameName
    · split at isNamed
      · rename_i superType object isSuper isSub
        rw [Bool.and_eq_true] at isNamed
        rcases yields.object_of_possible isNamed.2 with ⟨other, isOther⟩
        have registered := isObject_of_object? isOther
        have isName : object.name = sub.typeName := (Named.find?_mem isSub).2
        rw [isName, show registry.lookup? sub.typeName = some object from isSub,
          Option.some.injEq] at registered
        exact .possible isSuper isNamed.1 isSub (registered.1 ▸ registered.2) isNamed.2
      · cases isNamed
  · intro covers
    cases covers with
    | same sameName => rw [if_pos sameName]
    | possible isSuper isAbstract isSub isObject isPossible =>
        split
        · rfl
        · rw [isSuper, isSub]
          simp only [isAbstract, isPossible, Bool.and_self]

private theorem isSubType_iff (yields : schema.Yields registry) :
    registry.isSubType sub super = true ↔ registry.StandsFor sub super := by
  constructor
  · intro isSub
    fun_induction isSubType registry sub super with
    | case1 sub super induction => exact .nonNull (induction isSub)
    | case2 sub super _ induction => exact .stronger (induction isSub)
    | case3 => cases isSub
    | case4 sub super induction => exact .list (induction isSub)
    | case5 => cases isSub
    | case6 => cases isSub
    | case7 sub super _ subNotNonNull superNotNonNull _ subNotList superNotList =>
        refine .bare ?_ ?_ ((isNamedSubType_iff yields).mp isSub)
        · cases sub with
          | list item => exact (subNotList item rfl).elim
          | nonNull inner => exact (subNotNonNull inner rfl).elim
          | named | direct | deferred => rfl
        · cases super with
          | list item => exact (superNotList item rfl).elim
          | nonNull inner => exact (superNotNonNull inner rfl).elim
          | named | direct | deferred => rfl
  · intro stands
    induction stands with
    | @bare sub super subBare superBare covers =>
        have isNamed := (isNamedSubType_iff yields).mpr covers
        cases sub with
        | list | nonNull => cases subBare
        | named | direct | deferred =>
            cases super with
            | list | nonNull => cases superBare
            | named | direct | deferred => exact isNamed
    | list _ induction => exact induction
    | @stronger sub super _ induction =>
        cases super with
        | nonNull inner => exact isSubType_of_nonNull induction
        | list | named | direct | deferred => exact induction
    | nonNull _ induction => exact induction

/-! ## An order -/

private theorem Covers.trans (first : registry.Covers low middle)
    (second : registry.Covers middle high) :
    registry.Covers low high := by
  cases first with
  | same sameName =>
      cases second with
      | same alsoSame => exact .same (sameName.trans alsoSame)
      | possible isSuper isAbstract isSub isObject isPossible =>
          have isLow : registry.resolve? low = some _ := (congrArg _ sameName).trans isSub
          exact .possible isSuper isAbstract isLow isObject isPossible
  | possible isSuper isAbstract isSub isObject isPossible =>
      cases second with
      | same sameName =>
          have isHigh : registry.resolve? high = some _ := (congrArg _ sameName.symm).trans isSuper
          exact .possible isHigh isAbstract isSub isObject isPossible
      | possible _ _ isMiddle middleIsObject _ =>
          rw [isSuper, Option.some.injEq] at isMiddle
          exact absurd isAbstract (NamedType.not_isAbstract (isMiddle ▸ middleIsObject))

private theorem Covers.same_of_mutual (first : registry.Covers low high)
    (second : registry.Covers high low) : low.typeName = high.typeName := by
  cases first with
  | same sameName => exact sameName
  | possible isSuper isAbstract isSub isObject _ =>
      cases second with
      | same sameName => exact sameName.symm
      | possible _ _ isHigh highIsObject _ =>
          rw [isSuper, Option.some.injEq] at isHigh
          exact absurd isAbstract (NamedType.not_isAbstract (isHigh ▸ highIsObject))

namespace StandsFor

private theorem refl (type : TypeRef) : registry.StandsFor type type := by
  induction type with
  | list item induction => exact .list induction
  | nonNull inner induction => exact .nonNull induction
  | named | direct | deferred => exact .bare rfl rfl (.same rfl)

private theorem trans (first : registry.StandsFor low middle)
    (second : registry.StandsFor middle high) :
    registry.StandsFor low high := by
  induction first generalizing high with
  | bare lowBare middleBare covers =>
      cases second with
      | bare _ highBare further => exact .bare lowBare highBare (covers.trans further)
      | list | stronger | nonNull => cases middleBare
  | list _ induction =>
      cases second with
      | bare middleBare => cases middleBare
      | list items => exact .list (induction items)
  | stronger _ induction => exact .stronger (induction second)
  | nonNull _ induction =>
      cases second with
      | bare middleBare => cases middleBare
      | stronger inside => exact .stronger (induction inside)
      | nonNull inside => exact .nonNull (induction inside)

private theorem marks_le (stands : registry.StandsFor sub super) : super.marks ≤ sub.marks := by
  induction stands with
  | @bare sub super _ superBare _ =>
      cases super with
      | list | nonNull => cases superBare
      | named | direct | deferred => exact Nat.zero_le _
  | list _ induction => exact induction
  | stronger _ induction => exact Nat.le_succ_of_le induction
  | nonNull _ induction => exact Nat.succ_le_succ induction

private theorem same_of_mutual (first : registry.StandsFor low high)
    (second : registry.StandsFor high low) : low.same high = true := by
  induction first with
  | bare lowBare highBare covers =>
      cases second with
      | bare _ _ back => exact TypeRef.same_of_isBare lowBare highBare (covers.same_of_mutual back)
      | list | stronger | nonNull => cases highBare
  | list _ induction =>
      cases second with
      | bare subBare => cases subBare
      | list items => exact induction items
  | stronger inside _ =>
      exact absurd (Nat.lt_of_le_of_lt inside.marks_le second.marks_le) (Nat.lt_irrefl _)
  | nonNull inside induction =>
      cases second with
      | bare subBare => cases subBare
      | stronger back =>
          exact absurd (Nat.lt_of_le_of_lt inside.marks_le back.marks_le) (Nat.lt_irrefl _)
      | nonNull back => exact induction back

end StandsFor

/-! ## Values -/

private theorem Conforms.covered {value : Json} (conforms : registry.Conforms sub value)
    (covers : registry.Covers sub super) (subBare : sub.isBare = true)
    (superBare : super.isBare = true) : registry.Conforms super value := by
  have sameType : ∀ {named : NamedType}, registry.resolve? sub = some named →
      named.isObject = false → registry.resolve? super = some named := by
    intro named resolved notObject
    cases covers with
    | same sameName => exact (congrArg _ sameName.symm).trans resolved
    | possible _ _ isSub isObject _ =>
        rw [resolved, Option.some.injEq] at isSub
        rw [isSub, isObject] at notObject
        cases notObject
  have mayBeNull : super.isNonNull = false := by
    cases super with
    | nonNull inner => cases superBare
    | list | named | direct | deferred => rfl
  cases conforms with
  | null => exact .null mayBeNull
  | nonNull | list => cases subBare
  | scalar _ resolved isScalar free notNull parsed isInt =>
      have registered := sameType resolved (by rw [NamedType.isObject, isScalar])
      exact .scalar superBare registered isScalar free notNull parsed isInt
  | enum _ resolved isEnum declared =>
      have registered := sameType resolved (by rw [NamedType.isObject, isEnum])
      exact .enum superBare registered isEnum declared
  | object _ resolved isObject each =>
      have registered := sameType resolved (by rw [NamedType.isObject, isObject])
      exact .object superBare registered isObject each

private theorem StandsFor.conforms (stands : registry.StandsFor sub super) :
    ∀ {value : Json}, registry.Conforms sub value → registry.Conforms super value := by
  induction stands with
  | bare subBare superBare covers => exact fun conforms => conforms.covered covers subBare superBare
  | list _ induction =>
      intro value conforms
      cases conforms with
      | null => exact .null rfl
      | list each => exact .list fun item listed => induction (each item listed)
      | scalar isBare | enum isBare | object isBare => cases isBare
  | stronger _ induction =>
      intro value conforms
      cases conforms with
      | null mayBeNull => cases mayBeNull
      | nonNull _ inside => exact induction inside
      | scalar isBare | enum isBare | object isBare => cases isBare
  | nonNull _ induction =>
      intro value conforms
      cases conforms with
      | null mayBeNull => cases mayBeNull
      | nonNull notNull inside => exact .nonNull notNull (induction inside)
      | scalar isBare | enum isBare | object isBare => cases isBare

private theorem StandsFor.covers (stands : registry.StandsFor sub super) :
    registry.Covers sub super := by
  induction stands with
  | bare _ _ covers => exact covers
  | list _ induction | stronger _ induction | nonNull _ induction =>
      cases induction with
      | same sameName => exact .same sameName
      | possible isSuper isAbstract isSub isObject isPossible =>
          exact .possible isSuper isAbstract isSub isObject isPossible

private theorem Covers.admits {object : NamedType} (covers : registry.Covers sub super)
    (admits : registry.Admits sub object) : registry.Admits super object := by
  rcases admits with ⟨named, resolved, isOfType⟩
  cases covers with
  | same sameName => exact ⟨named, (congrArg _ sameName.symm).trans resolved, isOfType⟩
  | @possible superType only isSuper isAbstract isSub isObject isPossible =>
      have isOnly : only = named := Option.some.inj (isSub.symm.trans resolved)
      subst isOnly
      have isName : only.name = sub.typeName := (Named.find?_mem isSub).2
      have registered : registry.object? only.name = some only :=
        Option.filter_eq_some_iff.mpr ⟨isName ▸ isSub, isObject⟩
      rcases isOfType with ⟨_, rfl⟩ | ⟨onlyIsAbstract, _⟩
      · exact ⟨superType, isSuper, .inr ⟨isAbstract, registered, isPossible⟩⟩
      · exact absurd onlyIsAbstract (NamedType.not_isAbstract isObject)

end Registry

/-- In a registry that was built subtypes are ordered: every type is one of itself, those of a
subtype are ones of the type, and types that are ones of each other are the same. The order is that
of standing for a type, so non-null marks are only added, lists match, and an abstract type only
takes its possible objects. What conforms to a type conforms to those that it is a subtype of, and
they admit the objects that it admits. -/
theorem subtypes_ordered (schema : Schema) (registry : Registry)
    (built : schema.build = .ok registry) :
    (∀ type, registry.isSubType type type = true) ∧
    (∀ low middle high, registry.isSubType low middle = true →
      registry.isSubType middle high = true → registry.isSubType low high = true) ∧
    (∀ left right, registry.isSubType left right = true → registry.isSubType right left = true →
      left.same right = true) ∧
    (∀ sub super, registry.isSubType sub super = true ↔ registry.StandsFor sub super) ∧
    ∀ sub super, registry.isSubType sub super = true →
      (∀ value, registry.Conforms sub value → registry.Conforms super value) ∧
      ∀ object, registry.Admits sub object → registry.Admits super object := by
  have decides : ∀ sub super,
      registry.isSubType sub super = true ↔ registry.StandsFor sub super :=
    fun sub super => Registry.isSubType_iff (Schema.build_yields built)
  refine ⟨fun type => ?_, fun low middle high first second => ?_,
    fun left right first second => ?_, decides, fun sub super isSub => ?_⟩
  · exact (decides type type).mpr (.refl type)
  · have further := (decides middle high).mp second
    exact (decides low high).mpr (((decides low middle).mp first).trans further)
  · exact ((decides left right).mp first).same_of_mutual ((decides right left).mp second)
  · have stands := (decides sub super).mp isSub
    exact ⟨fun value => stands.conforms, fun object => stands.covers.admits⟩

namespace Aviary

/-! Parrots are birds, and birds are fed in portions. -/

def bird : NamedType where
  key := .custom 0
  name := "Bird"
  shape := .interface { fields := [{ name := "name", type := .named "String" }] }

def parrot : NamedType where
  key := .custom 1
  name := "Parrot"
  shape := .object
    { interfaces := [.named "Bird"], fields := [{ name := "name", type := .named "String" }] }

def query : NamedType where
  key := .custom 2
  name := "Query"
  shape := .object
    { fields :=
        [{ name := "birds", type := .list (.named "Bird"),
           arguments := [{ name := "portions", type := .list (.named "Int") }] }] }

def schema : Schema where
  pool := [bird, parrot, query]
  query := query.toInstance
  types := [bird.toInstance, parrot.toInstance]

def registry : Registry where
  types := Scalar.all ++ Meta.all ++ [query, bird, parrot]
  query := query
  mutation := none
  subscription := none
  directives := DirectiveDefinition.builtIn
  possibleTypes := [("Bird", ["Parrot"])]

def birds : TypeRef := .list (.named "Bird")

def parrots : TypeRef := .nonNull (.list (.nonNull (.direct parrot.toInstance)))

private theorem portions_conform :
    registry.Conforms (.nonNull (.list (.nonNull (.named "Int")))) (.array [.int 2]) := by
  have isInt : registry.resolve? (.named "Int") = some Scalar.all[1] := rfl
  have isScalar : Scalar.all[1].shape = .scalar Scalar.int := rfl
  have free : (RawInput.json (.int 2)).IsFree := trivial
  have parsed : (RawInput.json (.int 2)).parse Scalar.int = .ok (.int 2) := rfl
  have isInt32 : (Json.int 2).IsInt32 := ⟨2, rfl, by decide, by decide⟩
  refine .nonNull rfl (.list fun value listed => ?_)
  rw [List.mem_singleton.mp listed]
  exact .nonNull rfl (.scalar rfl isInt isScalar free rfl parsed fun _ => isInt32)

end Aviary

/-- Present parrots stand for birds, and not the other way round. -/
theorem subtypes_ordered_of_aviary :
    Aviary.schema.build = .ok Aviary.registry ∧
      Aviary.registry.isSubType Aviary.parrots Aviary.birds = true ∧
      Aviary.registry.isSubType Aviary.birds Aviary.parrots = false ∧
      Aviary.registry.StandsFor Aviary.parrots Aviary.birds ∧
      Aviary.registry.Admits Aviary.birds Aviary.parrot ∧
      Aviary.registry.Conforms (.list (.named "Int")) (.array [.int 2]) := by
  have built : Aviary.schema.build = .ok Aviary.registry := rfl
  have ordered := subtypes_ordered Aviary.schema Aviary.registry built
  have parrots : Aviary.registry.isSubType Aviary.parrots (.list (.named "Parrot")) = true := rfl
  have birds : Aviary.registry.isSubType (.list (.named "Parrot")) Aviary.birds = true := rfl
  have isSub := ordered.2.1 _ _ _ parrots birds
  have portions : Aviary.registry.isSubType (.nonNull (.list (.nonNull (.named "Int"))))
      (.list (.named "Int")) = true := rfl
  exact ⟨built, isSub, rfl, (ordered.2.2.2.1 _ _).mp isSub,
    (ordered.2.2.2.2 _ _ isSub).2 _ ⟨Aviary.parrot, rfl, .inl ⟨rfl, rfl⟩⟩,
    (ordered.2.2.2.2 _ _ portions).1 _ Aviary.portions_conform⟩

end GraphQL
