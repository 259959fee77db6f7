import GraphQL.Proofs.Validation.SelectionSets
import GraphQL.Validation.Rules.Overlap
import Mathlib.Data.List.Perm.Subperm

/-!
What a comparison finds is a real conflict: each comparison stands for pairs of fields, and those
that it leads to stand for the same pairs or for fields under them.
-/

namespace GraphQL

namespace Rules

/-! ## Checks of two fields -/

private theorem sameShape_list_iff {registry : Registry} {left right : TypeRef} :
    registry.SameShape (.list left) (.list right) ↔ registry.SameShape left right := by
  constructor
  · intro same
    cases same with
    | list items => exact items
    | named isLeft isRight leaves => exact isLeft.elim
  · exact .list

private theorem sameShape_nonNull_iff {registry : Registry} {left right : TypeRef} :
    registry.SameShape (.nonNull left) (.nonNull right) ↔ registry.SameShape left right := by
  constructor
  · intro same
    cases same with
    | nonNull inner => exact inner
    | named isLeft isRight leaves => exact isLeft.elim
  · exact .nonNull

private theorem sameShape_bare_iff {registry : Registry} {left right : TypeRef}
    (isLeft : left.IsBare) (isRight : right.IsBare) :
    registry.SameShape left right ↔
      (registry.isLeaf left = true ∨ registry.isLeaf right = true →
        left.typeName = right.typeName) := by
  constructor
  · intro same
    cases same with
    | list items => exact isLeft.elim
    | nonNull inner => exact isLeft.elim
    | named isLeft isRight leaves => exact leaves
  · exact .named isLeft isRight

private theorem typesConflict_bare {registry : Registry} {left right : TypeRef}
    (isLeft : left.IsBare) (isRight : right.IsBare) :
    typesConflict registry left right =
      ((registry.isLeaf left || registry.isLeaf right) && left.typeName != right.typeName) := by
  cases left <;> cases right <;> first | rfl | exact isLeft.elim | exact isRight.elim

private theorem typesConflict_iff {registry : Registry} {left right : TypeRef} :
    typesConflict registry left right = true ↔ ¬registry.SameShape left right := by
  have bare : ∀ left right : TypeRef, left.IsBare → right.IsBare →
      (typesConflict registry left right = true ↔ ¬registry.SameShape left right) := by
    intro left right isLeft isRight
    rw [typesConflict_bare isLeft isRight, sameShape_bare_iff isLeft isRight]
    simp
  induction left generalizing right with
  | list item induction =>
      cases right with
      | list other =>
          rw [sameShape_list_iff]
          exact induction
      | _ =>
          refine ⟨fun _ same => ?_, fun _ => rfl⟩
          cases same with
          | named isLeft _ _ => exact isLeft.elim
  | nonNull inner induction =>
      cases right with
      | nonNull other =>
          rw [sameShape_nonNull_iff]
          exact induction
      | _ =>
          refine ⟨fun _ same => ?_, fun _ => rfl⟩
          cases same with
          | named isLeft _ _ => exact isLeft.elim
  | _ =>
      cases right with
      | list other =>
          refine ⟨fun _ same => ?_, fun _ => rfl⟩
          cases same with
          | named _ isRight _ => exact isRight.elim
      | nonNull other =>
          refine ⟨fun _ same => ?_, fun _ => rfl⟩
          cases same with
          | named _ isRight _ => exact isRight.elim
      | _ => exact bare _ _ trivial trivial

theorem sameTexts_of_sameArguments {left right : ArgumentList}
    (distinct : (Named.names left).Nodup) (same : sameArguments left right = true) :
    left.SameTexts right := by
  rw [sameArguments, Bool.and_eq_true, beq_iff_eq, List.all_eq_true] at same
  have distinctTexts : (left.map fun argument => (argument.1, argument.2.text)).Nodup := by
    apply List.Nodup.of_map Prod.fst
    rw [List.map_map]
    exact distinct
  refine (List.subperm_of_subset distinctTexts ?_).perm_of_length_le ?_
  · intro entry member
    rcases List.mem_map.mp member with ⟨argument, isArgument, isEntry⟩
    have agrees := same.2 argument isArgument
    rcases (Option.any_eq_true _ _).mp agrees with ⟨value, found, sameText⟩
    refine List.mem_map.mpr ⟨(argument.1, value), Named.value?_mem found, ?_⟩
    rw [← isEntry, beq_iff_eq.mp sameText]
  · rw [List.length_map, List.length_map, same.1]

theorem sameArguments_of_sameTexts {left right : ArgumentList}
    (distinct : (Named.names right).Nodup) (same : left.SameTexts right) :
    sameArguments left right = true := by
  rw [sameArguments, Bool.and_eq_true, beq_iff_eq, List.all_eq_true]
  constructor
  · simpa using same.length_eq
  · intro argument isArgument
    have member := same.subset (List.mem_map.mpr ⟨argument, isArgument, rfl⟩)
    rcases List.mem_map.mp member with ⟨⟨name, value⟩, isOther, sameEntry⟩
    rw [Prod.mk.injEq] at sameEntry
    rw [← sameEntry.1, Named.value?_of_mem distinct isOther]
    simpa using sameEntry.2

theorem onDifferentObjects_iff {left right : SelectedField} :
    onDifferentObjects left right = true ↔ left.OnDistinctObjects right := by
  rw [onDifferentObjects, SelectedField.OnDistinctObjects]
  cases left.parent with
  | none => simp
  | some leftParent =>
      cases right.parent with
      | none => simp
      | some rightParent => simp [and_comm, and_assoc]

theorem ownConflict?_eq_none {registry : Registry} {exclusive : Bool} {left right : SelectedField} :
    ownConflict? registry exclusive left right = none ↔
      (exclusive = false → left.field.name = right.field.name ∧
        sameArguments left.field.arguments right.field.arguments = true) ∧
      ∀ leftType rightType, left.type? = some leftType → right.type? = some rightType →
        registry.SameShape leftType rightType := by
  rw [ownConflict?]
  split
  · rename_i differ
    have parts : exclusive = false ∧ left.field.name ≠ right.field.name := by simpa using differ
    exact ⟨fun isNone => (by cases isNone), fun same => absurd (same.1 parts.1).1 parts.2⟩
  · rename_i sameName
    split
    · rename_i differ
      have parts : exclusive = false ∧
          sameArguments left.field.arguments right.field.arguments = false := by simpa using differ
      refine ⟨fun isNone => (by cases isNone), fun same => ?_⟩
      rw [(same.1 parts.1).2] at parts
      cases parts.2
    · rename_i sameTexts
      have own : exclusive = false → left.field.name = right.field.name ∧
          sameArguments left.field.arguments right.field.arguments = true := by
        intro notExclusive
        simp only [notExclusive, Bool.not_false, Bool.true_and, bne_iff_ne, ne_eq,
          Decidable.not_not] at sameName
        simp only [notExclusive, Bool.not_false, Bool.true_and, Bool.not_eq_true',
          Bool.not_eq_false] at sameTexts
        exact ⟨sameName, sameTexts⟩
      split
      · rename_i leftType rightType isLeft isRight
        split
        · rename_i conflict
          exact ⟨fun isNone => (by cases isNone), fun same =>
            absurd (same.2 leftType rightType isLeft isRight) (typesConflict_iff.mp conflict)⟩
        · rename_i noConflict
          refine ⟨fun _ => ⟨own, fun firstType secondType isFirst isSecond => ?_⟩, fun _ => rfl⟩
          rw [isLeft] at isFirst
          rw [isRight] at isSecond
          cases isFirst
          cases isSecond
          exact Classical.not_not.mp fun differ => noConflict (typesConflict_iff.mpr differ)
      · rename_i unknown
        exact ⟨fun _ => ⟨own, fun leftType rightType isLeft isRight =>
          (unknown leftType rightType isLeft isRight).elim⟩, fun _ => rfl⟩

/-! ## Real conflicts -/

/-- What a comparison of two fields looks for. Exclusive fields only have to have one shape. -/
def Differs (subject : Subject) : (exclusive : Bool) → SelectedField → SelectedField → Prop
  | true => subject.ShapesDiffer
  | false => subject.CannotMerge

variable {subject : Subject} {exclusive : Bool} {left right : SelectedField}

theorem Differs.cannotMerge (differs : Differs subject exclusive left right) :
    subject.CannotMerge left right := by
  cases exclusive with
  | true => exact .shapes differs
  | false => exact differs

private theorem differs_of_shapes (differ : subject.ShapesDiffer left right) :
    Differs subject exclusive left right := by
  cases exclusive with
  | true => exact differ
  | false => exact .shapes differ

theorem differs_of_own (distinct : (Named.names right.field.arguments).Nodup)
    (own : ownConflict? subject.registry (exclusive || onDifferentObjects left right) left right ≠
      none) :
    Differs subject exclusive left right := by
  by_contra agree
  apply own
  rw [ownConflict?_eq_none]
  cases exclusive with
  | true =>
      have parts := Subject.not_shapesDiffer_iff.mp agree
      exact ⟨fun isFalse => by simp at isFalse, parts.1⟩
  | false =>
      have parts := Subject.not_cannotMerge_iff.mp agree
      refine ⟨fun notExclusive => ?_, (Subject.not_shapesDiffer_iff.mp parts.1).1⟩
      have together : ¬left.OnDistinctObjects right := by
        rw [← onDifferentObjects_iff]
        simpa using notExclusive
      have sameField := parts.2 together
      exact ⟨sameField.1, sameArguments_of_sameTexts distinct sameField.2.1⟩

theorem differs_of_under {first second : SelectedField}
    (isFirst : subject.SelectsUnder left right first)
    (isSecond : subject.SelectsUnder left right second) (apart : first ≠ second)
    (sameName : first.responseName = second.responseName)
    (differs : Differs subject (exclusive || onDifferentObjects left right) first second) :
    Differs subject exclusive left right := by
  cases apartTypes : exclusive || onDifferentObjects left right with
  | true =>
      rw [apartTypes] at differs
      exact differs_of_shapes (.inside isFirst isSecond apart sameName differs)
  | false =>
      rw [apartTypes] at differs
      have parts := Bool.or_eq_false_iff.mp apartTypes
      have together : ¬left.OnDistinctObjects right := by
        rw [← onDifferentObjects_iff, parts.2]
        exact Bool.false_ne_true
      rw [parts.1]
      exact .inside together isFirst isSecond apart sameName differs

private theorem sameShape_refl (registry : Registry) (type : TypeRef) :
    registry.SameShape type type := by
  induction type with
  | list item induction => exact .list induction
  | nonNull inner induction => exact .nonNull induction
  | _ => exact .named trivial trivial fun _ => rfl

theorem sameShape_symm {registry : Registry} {left right : TypeRef}
    (same : registry.SameShape left right) : registry.SameShape right left := by
  induction same with
  | list _ induction => exact .list induction
  | nonNull _ induction => exact .nonNull induction
  | named isLeft isRight leaves =>
      exact .named isRight isLeft fun isLeaf => (leaves isLeaf.symm).symm

theorem onDifferentObjects_comm (left right : SelectedField) :
    onDifferentObjects left right = onDifferentObjects right left := by
  rw [onDifferentObjects, onDifferentObjects]
  cases left.parent with
  | none => cases right.parent <;> rfl
  | some leftParent =>
      cases right.parent with
      | none => rfl
      | some rightParent => grind

/-- A field differs from itself only if the fields under it cannot be merged. -/
theorem not_fieldsCanMerge_of_self {selected : SelectedField}
    (differs : Differs subject exclusive selected selected) :
    ¬subject.FieldsCanMerge (selected.inner subject.registry) selected.field.selections := by
  have under : ∀ {first}, subject.SelectsUnder selected selected first →
      subject.Selects (selected.inner subject.registry) selected.field.selections first :=
    fun selects => selects.elim id id
  have ofShapes : subject.ShapesDiffer selected selected →
      ¬subject.FieldsCanMerge (selected.inner subject.registry) selected.field.selections := by
    intro differ canMerge
    cases differ with
    | types isLeft isRight differ =>
        rw [isLeft] at isRight
        cases isRight
        exact differ (sameShape_refl _ _)
    | inside isFirst isSecond apart sameName differ =>
        exact canMerge _ _ (under isFirst) (under isSecond) apart sameName (.shapes differ)
  cases differs.cannotMerge with
  | shapes differ => exact ofShapes differ
  | names together differ => exact absurd rfl differ
  | arguments together differ => exact absurd (List.Perm.refl _) differ
  | inside together isFirst isSecond apart sameName inside =>
      exact fun canMerge => canMerge _ _ (under isFirst) (under isSecond) apart sameName inside

end Rules

end GraphQL
