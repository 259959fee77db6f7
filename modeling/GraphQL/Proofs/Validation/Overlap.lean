import GraphQL.Proofs.Document.Reading
import GraphQL.Proofs.Validation.Descent
import GraphQL.Proofs.Validation.Walk

/-!
The rule about overlapping fields decides field merging: in a document that the other rules accept
it reports something exactly if the fields of some selection set cannot be merged.
-/

namespace GraphQL

namespace Rules

variable {subject : Subject} {seen : Compared} {exclusive : Bool} {first second : SelectedField}

/-! ## Pairs that were checked -/

/-- A finished run: all that is remembered is done, and so is every selection set. -/
structure Finished (subject : Subject) (seen : Compared) : Prop where
  distinct : subject.document.positions.Nodup
  sets : ∀ entry ∈ seen.sets, SetDone subject seen entry
  fragments : ∀ entry ∈ seen.fragments, FragmentsDone subject seen entry
  visited : ∀ set, subject.HasSet set → ∀ comparison ∈ Comparison.ofSet set,
    Settled subject seen comparison

/-- Two fields were compared in one order or the other, at least as strictly as asked for. -/
private def Checked (subject : Subject) (seen : Compared) (exclusive : Bool)
    (first second : SelectedField) : Prop :=
  ∃ stored : Bool, (stored = true → exclusive = true) ∧
    (Settled subject seen (.fields stored first second) ∨
      Settled subject seen (.fields stored second first))

private theorem Checked.symm (checked : Checked subject seen exclusive first second) :
    Checked subject seen exclusive second first := by
  rcases checked with ⟨stored, strict, settled⟩
  exact ⟨stored, strict, settled.symm⟩

private theorem Checked.weaken {weaker : Bool}
    (checked : Checked subject seen exclusive first second)
    (strict : exclusive = true → weaker = true) : Checked subject seen weaker first second := by
  rcases checked with ⟨stored, stricter, settled⟩
  exact ⟨stored, strict ∘ stricter, settled⟩

private theorem checked_of_settled
    (settled : Settled subject seen (.fields exclusive first second)) :
    Checked subject seen exclusive first second :=
  ⟨exclusive, id, .inl settled⟩

/-- Some field set leads to both fields through no more spreads than given. -/
private def Shared (subject : Subject) (steps : Nat) (first second : SelectedField) : Prop :=
  ∃ set firstSteps secondSteps, subject.HasSet set ∧
    FieldSet.LeadsTo subject set firstSteps first ∧
    FieldSet.LeadsTo subject set secondSteps second ∧ firstSteps + secondSteps ≤ steps

private theorem Shared.symm {steps : Nat} (shared : Shared subject steps first second) :
    Shared subject steps second first := by
  rcases shared with ⟨set, firstSteps, secondSteps, isSet, isFirst, isSecond, few⟩
  exact ⟨set, secondSteps, firstSteps, isSet, isSecond, isFirst, by omega⟩

private theorem Shared.mono {steps more : Nat} (shared : Shared subject steps first second)
    (fewer : steps ≤ more) : Shared subject more first second := by
  rcases shared with ⟨set, firstSteps, secondSteps, isSet, isFirst, isSecond, few⟩
  exact ⟨set, firstSteps, secondSteps, isSet, isFirst, isSecond, few.trans fewer⟩

/-! ## Following what is remembered -/

private theorem done_of_setAndFragment (finished : Finished subject seen) {set : FieldSet}
    (isSet : subject.HasSet set) {name : String}
    (settled : Settled subject seen (.setAndFragment exclusive set name)) :
    Done subject seen (.setAndFragment exclusive set name) := by
  cases settled with
  | covered covers =>
      rcases finished.sets _ (List.contains_iff_mem.mp covers) with
        ⟨other, isOther, sameOwner, done⟩
      rw [isOther.unique finished.distinct isSet sameOwner] at done
      exact done

private theorem shared_of_owner (finished : Finished subject seen) {set : FieldSet}
    (isSet : subject.HasSet set) {name : String} {fragment : Fragment}
    (found : subject.document.fragment? name = some fragment)
    (isOwner : set.owner = fragment.position)
    (isFirst : first ∈ set.named first.responseName) {steps : Nat}
    (isSecond : FieldSet.LeadsTo subject (.ofFragment subject.registry fragment) steps second) :
    Shared subject steps first second := by
  have same := isSet.unique finished.distinct (Subject.hasSet_ofFragment found)
    (isOwner.trans FieldSet.owner_ofSelections.symm)
  exact ⟨set, 0, steps, isSet, .here isFirst, same ▸ isSecond, by omega⟩

/-- The fields of a set were compared with all that a fragment leads to, unless the fragment leads
back to the set. -/
private theorem checked_setAndFragment (finished : Finished subject seen) {set : FieldSet}
    (isSet : subject.HasSet set) {name : String} {fragment : Fragment}
    (settled : Settled subject seen (.setAndFragment exclusive set name))
    (found : subject.document.fragment? name = some fragment)
    (isFirst : first ∈ set.named first.responseName) {steps : Nat}
    (isSecond : FieldSet.LeadsTo subject (.ofFragment subject.registry fragment) steps second)
    (sameName : first.responseName = second.responseName) :
    Checked subject seen exclusive first second ∨ Shared subject steps first second := by
  induction steps generalizing name fragment with
  | zero =>
      have done := done_of_setAndFragment finished isSet settled
      by_cases isOwner : set.owner = fragment.position
      · exact .inr (shared_of_owner finished isSet found isOwner isFirst isSecond)
      · cases isSecond with
        | here member =>
            exact .inl (checked_of_settled (done _ ((mem_setFollowUps found isSet.made).mpr
              ⟨isOwner, .inl ⟨first, second, isFirst, member, sameName, rfl⟩⟩)))
  | succ steps induction =>
      have done := done_of_setAndFragment finished isSet settled
      by_cases isOwner : set.owner = fragment.position
      · exact .inr (shared_of_owner finished isSet found isOwner isFirst isSecond)
      · cases isSecond with
        | @spread _ inner _ _ _ member foundInner inside =>
            have next := done _ ((mem_setFollowUps found isSet.made).mpr
              ⟨isOwner, .inr ⟨inner, member, rfl⟩⟩)
            exact (induction next foundInner inside).imp_right fun shared => shared.mono (by omega)

/-- What two fragments lead to was compared, unless both lead to one set. -/
private def FragmentsChecked (subject : Subject) (seen : Compared) (steps : Nat) : Prop :=
  ∀ {exclusive : Bool} {leftName rightName : String} {leftFragment rightFragment : Fragment}
    {first second : SelectedField} {firstSteps secondSteps : Nat},
    firstSteps + secondSteps ≤ steps →
    Settled subject seen (.fragments exclusive leftName rightName) →
    subject.document.fragment? leftName = some leftFragment →
    subject.document.fragment? rightName = some rightFragment →
    FieldSet.LeadsTo subject (.ofFragment subject.registry leftFragment) firstSteps first →
    FieldSet.LeadsTo subject (.ofFragment subject.registry rightFragment) secondSteps second →
    first.responseName = second.responseName →
    Checked subject seen exclusive first second ∨
      Shared subject (firstSteps + secondSteps) first second

/-- One step along the spreads of two fragments whose comparison is done. -/
private theorem checked_of_fragmentsDone {leftName rightName : String}
    {leftFragment rightFragment : Fragment} {firstSteps secondSteps : Nat}
    (smaller : ∀ steps < firstSteps + secondSteps, FragmentsChecked subject seen steps)
    (done : Done subject seen (.fragments exclusive leftName rightName))
    (apart : leftName ≠ rightName)
    (foundLeft : subject.document.fragment? leftName = some leftFragment)
    (foundRight : subject.document.fragment? rightName = some rightFragment)
    (isFirst : FieldSet.LeadsTo subject (.ofFragment subject.registry leftFragment) firstSteps
      first)
    (isSecond : FieldSet.LeadsTo subject (.ofFragment subject.registry rightFragment) secondSteps
      second)
    (sameName : first.responseName = second.responseName) :
    Checked subject seen exclusive first second ∨
      Shared subject (firstSteps + secondSteps) first second := by
  cases isSecond with
  | @spread _ inner _ steps _ member foundInner inside =>
      have next := done _ ((mem_fragmentFollowUps foundLeft foundRight).mpr
        ⟨apart, .inr (.inl ⟨inner, member, rfl⟩)⟩)
      exact (smaller (firstSteps + steps) (by omega) (Nat.le_refl _) next foundLeft foundInner
        isFirst inside sameName).imp_right fun shared => shared.mono (by omega)
  | here isSecond =>
      cases isFirst with
      | @spread _ inner _ steps _ member foundInner inside =>
          have next := done _ ((mem_fragmentFollowUps foundLeft foundRight).mpr
            ⟨apart, .inr (.inr ⟨inner, member, rfl⟩)⟩)
          exact (smaller (steps + 0) (by omega) (Nat.le_refl _) next foundInner foundRight inside
            (.here isSecond) sameName).imp_right fun shared => shared.mono (by omega)
      | here isFirst =>
          exact .inl (checked_of_settled (done _ ((mem_fragmentFollowUps foundLeft foundRight).mpr
            ⟨apart, .inl ⟨first, second, isFirst, isSecond, sameName, rfl⟩⟩)))

private theorem pairKey_cases {left right otherLeft otherRight : String}
    (same : Compared.pairKey left right = Compared.pairKey otherLeft otherRight) :
    (left = otherLeft ∧ right = otherRight) ∨ (left = otherRight ∧ right = otherLeft) := by
  rw [Compared.pairKey, Compared.pairKey] at same
  split at same <;> split at same <;> cases same <;> simp

private theorem fragmentsChecked (finished : Finished subject seen) (steps : Nat) :
    FragmentsChecked subject seen steps := by
  induction steps using Nat.strongRecOn with
  | ind steps induction =>
      intro exclusive leftName rightName leftFragment rightFragment first second firstSteps
        secondSteps few settled foundLeft foundRight isFirst isSecond sameName
      cases settled with
      | covered covers =>
          by_cases same : leftName = rightName
          · subst same
            rw [foundLeft] at foundRight
            cases foundRight
            exact .inr ⟨_, firstSteps, secondSteps, Subject.hasSet_ofFragment foundLeft, isFirst,
              isSecond, Nat.le_refl _⟩
          · rcases coversFragments_iff.mp (covers.resolve_left same) with ⟨stored, found, strict⟩
            have member : (Compared.pairKey leftName rightName, stored) ∈ seen.fragments := by
              rcases List.lookup_eq_some_iff.mp found with ⟨newer, older, split, _⟩
              rw [split]
              exact List.mem_append_right _ List.mem_cons_self
            have weaken : stored = true → exclusive = true := by
              rintro rfl
              simpa using strict
            rcases finished.fragments _ member with ⟨left, right, sameKey, done⟩
            rcases pairKey_cases sameKey with ⟨rfl, rfl⟩ | ⟨rfl, rfl⟩
            · exact (checked_of_fragmentsDone
                (fun fewer less => induction fewer (less.trans_le few)) done same foundLeft
                foundRight isFirst isSecond sameName).imp_left fun checked => checked.weaken weaken
            · exact (checked_of_fragmentsDone
                (fun fewer less => induction fewer (by omega)) done
                (Ne.symm same) foundRight foundLeft isSecond isFirst sameName.symm).imp
                (fun checked => (checked.weaken weaken).symm)
                (fun shared => shared.symm.mono (by omega))

/-- Any two fields of one response name that a selection set leads to were compared. -/
private theorem checked_of_leadsTo (finished : Finished subject seen) {set : FieldSet}
    (isSet : subject.HasSet set) {firstSteps secondSteps : Nat}
    (isFirst : FieldSet.LeadsTo subject set firstSteps first)
    (isSecond : FieldSet.LeadsTo subject set secondSteps second) (apart : first ≠ second)
    (sameName : first.responseName = second.responseName) :
    Checked subject seen false first second := by
  generalize isSteps : firstSteps + secondSteps = steps
  induction steps using Nat.strongRecOn generalizing set firstSteps secondSteps first second with
  | ind steps induction =>
      have ofShared : ∀ {fewer}, Shared subject fewer first second → fewer < steps →
          Checked subject seen false first second := by
        rintro fewer ⟨inner, firstInner, secondInner, isInner, leadsFirst, leadsSecond, few⟩ less
        exact induction _ (by omega) isInner leadsFirst leadsSecond apart sameName rfl
      have visited := finished.visited set isSet
      have pairOf : ∀ comparison, comparison ∈ Comparison.ofSet.fragmentPairs set set.spreads →
          Settled subject seen comparison := fun comparison member =>
        visited comparison (List.mem_append_right _ member)
      cases isFirst with
      | here isFirst =>
          cases isSecond with
          | here isSecond =>
              rcases within_complete isFirst isSecond apart sameName with member | member
              · exact checked_of_settled (visited _ (List.mem_append_left _ member))
              · exact (checked_of_settled (visited _ (List.mem_append_left _ member))).symm
          | spread member found inside =>
              rcases checked_setAndFragment finished isSet (pairOf _ (fragmentPairs_set member))
                found isFirst inside sameName with checked | shared
              · exact checked
              · exact ofShared shared (by omega)
      | @spread _ leftName leftFragment leftSteps _ leftMember leftFound leftInside =>
          cases isSecond with
          | here isSecond =>
              rcases checked_setAndFragment finished isSet (pairOf _ (fragmentPairs_set leftMember))
                leftFound isSecond leftInside sameName.symm with checked | shared
              · exact checked.symm
              · exact ofShared shared.symm (by omega)
          | @spread _ rightName rightFragment rightSteps _ rightMember rightFound rightInside =>
              by_cases same : leftName = rightName
              · subst same
                rw [leftFound] at rightFound
                cases rightFound
                exact induction (leftSteps + rightSteps) (by omega)
                  (Subject.hasSet_ofFragment leftFound) leftInside rightInside apart sameName rfl
              · rcases fragmentPairs_complete leftMember rightMember same with member | member
                · rcases fragmentsChecked finished _ (Nat.le_refl _) (pairOf _ member) leftFound
                    rightFound leftInside rightInside sameName with checked | shared
                  · exact checked
                  · exact ofShared shared (by omega)
                · rcases fragmentsChecked finished _ (Nat.le_refl _) (pairOf _ member) rightFound
                    leftFound rightInside leftInside sameName.symm with checked | shared
                  · exact checked.symm
                  · exact ofShared shared.symm (by omega)

private theorem checked_of_selects (finished : Finished subject seen) {outer : SelectedField}
    (isField : subject.HasField outer)
    (isFirst : subject.Selects (outer.inner subject.registry) outer.field.selections first)
    (isSecond : subject.Selects (outer.inner subject.registry) outer.field.selections second)
    (apart : first ≠ second) (sameName : first.responseName = second.responseName) :
    Checked subject seen false first second := by
  rcases FieldSet.leadsTo_of_selects isFirst outer.field.position with ⟨firstSteps, leadsFirst⟩
  rcases FieldSet.leadsTo_of_selects isSecond outer.field.position with ⟨secondSteps, leadsSecond⟩
  exact checked_of_leadsTo finished isField.fieldSet leadsFirst leadsSecond apart sameName

/-! ## Fields under checked fields -/

private theorem ne_nil_of_leadsTo {outer selected : SelectedField} {steps : Nat}
    (leads : FieldSet.LeadsTo subject (outer.fieldSet subject.registry) steps selected) :
    outer.field.selections ≠ [] := by
  intro none
  have selects : subject.Selects (outer.inner subject.registry) outer.field.selections selected :=
    FieldSet.selects_of_leadsTo leads
  rw [none] at selects
  cases selects with
  | field member => cases member
  | inline member _ => cases member
  | spread member _ _ => cases member

/-- Of two fields whose comparison is settled, what one leads to was compared with what the other
leads to. -/
private theorem checked_of_settled_fields (finished : Finished subject seen)
    {left right : SelectedField} (isLeft : subject.HasField left) (isRight : subject.HasField right)
    (settled : Settled subject seen (.fields exclusive left right)) {firstSteps secondSteps : Nat}
    (isFirst : FieldSet.LeadsTo subject (left.fieldSet subject.registry) firstSteps first)
    (isSecond : FieldSet.LeadsTo subject (right.fieldSet subject.registry) secondSteps second)
    (apart : first ≠ second) (sameName : first.responseName = second.responseName) :
    Checked subject seen (exclusive || onDifferentObjects left right) first second := by
  have ofShared : ∀ {steps}, Shared subject steps first second →
      Checked subject seen (exclusive || onDifferentObjects left right) first second := by
    rintro steps ⟨set, _, _, isSet, leadsFirst, leadsSecond, _⟩
    exact (checked_of_leadsTo finished isSet leadsFirst leadsSecond apart sameName).weaken
      fun isTrue => by cases isTrue
  have notLeaf : ¬(left.field.selections.isEmpty || right.field.selections.isEmpty) = true := by
    simp [ne_nil_of_leadsTo isFirst, ne_nil_of_leadsTo isSecond]
  cases settled with
  | covered covers => exact covers.elim
  | fields agree inside =>
      rw [followUps, if_neg notLeaf] at inside
      have member := fun {comparison : Comparison} =>
        @mem_ofSets subject _ _ comparison (exclusive || onDifferentObjects left right)
          isLeft.fieldSet.made isRight.fieldSet.made
      cases isFirst with
      | here isFirst =>
          cases isSecond with
          | here isSecond =>
              exact checked_of_settled (inside _ (member.mpr
                (.inl ⟨first, second, isFirst, isSecond, sameName, rfl⟩)))
          | @spread _ name _ _ _ isName found leads =>
              have next := inside _ (member.mpr (.inr (.inl ⟨name, isName, rfl⟩)))
              exact (checked_setAndFragment finished isLeft.fieldSet next found isFirst leads
                sameName).elim id ofShared
      | @spread _ leftName _ _ _ isLeftName leftFound leftLeads =>
          cases isSecond with
          | here isSecond =>
              have next := inside _ (member.mpr (.inr (.inr (.inl ⟨leftName, isLeftName, rfl⟩))))
              exact (checked_setAndFragment finished isRight.fieldSet next leftFound isSecond
                leftLeads sameName.symm).elim Checked.symm fun shared => ofShared shared.symm
          | @spread _ rightName _ _ _ isRightName rightFound rightLeads =>
              have next := inside _ (member.mpr
                (.inr (.inr (.inr ⟨leftName, isLeftName, rightName, isRightName, rfl⟩))))
              exact (fragmentsChecked finished _ (Nat.le_refl _) next leftFound rightFound leftLeads
                rightLeads sameName).elim id ofShared

private theorem checked_under (finished : Finished subject seen) {left right : SelectedField}
    (isLeft : subject.HasField left) (isRight : subject.HasField right)
    (checked : Checked subject seen exclusive left right)
    (isFirst : subject.SelectsUnder left right first)
    (isSecond : subject.SelectsUnder left right second) (apart : first ≠ second)
    (sameName : first.responseName = second.responseName) :
    Checked subject seen (exclusive || onDifferentObjects left right) first second := by
  have across : ∀ {first second : SelectedField},
      subject.Selects (left.inner subject.registry) left.field.selections first →
      subject.Selects (right.inner subject.registry) right.field.selections second →
      first ≠ second → first.responseName = second.responseName →
      Checked subject seen (exclusive || onDifferentObjects left right) first second := by
    intro first second isFirst isSecond apart sameName
    rcases FieldSet.leadsTo_of_selects isFirst left.field.position with ⟨_, leadsFirst⟩
    rcases FieldSet.leadsTo_of_selects isSecond right.field.position with ⟨_, leadsSecond⟩
    rcases checked with ⟨stored, strict, settled | settled⟩
    · refine (checked_of_settled_fields finished isLeft isRight settled leadsFirst leadsSecond apart
        sameName).weaken fun isTrue => ?_
      exact (Bool.or_eq_true _ _).mpr (((Bool.or_eq_true _ _).mp isTrue).imp_left strict)
    · refine ((checked_of_settled_fields finished isRight isLeft settled leadsSecond leadsFirst
        (Ne.symm apart) sameName.symm).symm).weaken fun isTrue => ?_
      rw [onDifferentObjects_comm right left] at isTrue
      exact (Bool.or_eq_true _ _).mpr (((Bool.or_eq_true _ _).mp isTrue).imp_left strict)
  have within : ∀ {outer : SelectedField}, subject.HasField outer →
      subject.Selects (outer.inner subject.registry) outer.field.selections first →
      subject.Selects (outer.inner subject.registry) outer.field.selections second →
      Checked subject seen (exclusive || onDifferentObjects left right) first second :=
    fun isOuter isFirst isSecond =>
      (checked_of_selects finished isOuter isFirst isSecond apart sameName).weaken
        fun isTrue => by cases isTrue
  rcases isFirst with isFirst | isFirst
  · rcases isSecond with isSecond | isSecond
    · exact within isLeft isFirst isSecond
    · exact across isFirst isSecond apart sameName
  · rcases isSecond with isSecond | isSecond
    · exact (across isSecond isFirst (Ne.symm apart) sameName.symm).symm
    · exact within isRight isFirst isSecond

private theorem own_of_settled (settled : Settled subject seen (.fields exclusive first second)) :
    ownConflict? subject.registry (exclusive || onDifferentObjects first second) first second =
      none := by
  cases settled with
  | covered covers => exact covers.elim
  | fields agree _ => exact Decidable.not_not.mp agree

private theorem sameShape_of_checked (checked : Checked subject seen exclusive first second)
    {firstType secondType : TypeRef} (isFirst : first.type? = some firstType)
    (isSecond : second.type? = some secondType) :
    subject.registry.SameShape firstType secondType := by
  rcases checked with ⟨stored, _, settled | settled⟩
  · exact (ownConflict?_eq_none.mp (own_of_settled settled)).2 _ _ isFirst isSecond
  · exact sameShape_symm ((ownConflict?_eq_none.mp (own_of_settled settled)).2 _ _ isSecond isFirst)

private theorem sameField_of_checked (distinct : subject.DistinctArguments)
    (isFirst : subject.HasField first) (isSecond : subject.HasField second)
    (checked : Checked subject seen false first second)
    (together : ¬first.OnDistinctObjects second) :
    first.field.name = second.field.name ∧
      first.field.arguments.SameTexts second.field.arguments := by
  rw [← onDifferentObjects_iff, Bool.not_eq_true] at together
  rcases checked with ⟨stored, strict, settled | settled⟩
  · have isStrict : (stored || onDifferentObjects first second) = false := by
      cases stored <;> simp_all
    have same := (ownConflict?_eq_none.mp (own_of_settled settled)).1 isStrict
    exact ⟨same.1, sameTexts_of_sameArguments (distinct _ isFirst) same.2⟩
  · rw [onDifferentObjects_comm] at together
    have isStrict : (stored || onDifferentObjects second first) = false := by
      cases stored <;> simp_all
    have same := (ownConflict?_eq_none.mp (own_of_settled settled)).1 isStrict
    exact ⟨same.1.symm, (sameTexts_of_sameArguments (distinct _ isSecond) same.2).symm⟩

/-! ## Completeness -/

private theorem hasField_of_under {left right : SelectedField} (isLeft : subject.HasField left)
    (isRight : subject.HasField right) (isUnder : subject.SelectsUnder left right first) :
    subject.HasField first :=
  isUnder.elim isLeft.hasSelections.hasField isRight.hasSelections.hasField

private theorem not_shapesDiffer_of_checked (finished : Finished subject seen)
    (differ : subject.ShapesDiffer first second) (isFirst : subject.HasField first)
    (isSecond : subject.HasField second) : ¬Checked subject seen exclusive first second := by
  induction differ generalizing exclusive with
  | types isLeft isRight differ =>
      exact fun checked => differ (sameShape_of_checked checked isLeft isRight)
  | inside isLeft isRight apart sameName _ induction =>
      exact fun checked => induction (hasField_of_under isFirst isSecond isLeft)
        (hasField_of_under isFirst isSecond isRight)
        (checked_under finished isFirst isSecond checked isLeft isRight apart sameName)

private theorem not_cannotMerge_of_checked (finished : Finished subject seen)
    (distinct : subject.DistinctArguments) (cannot : subject.CannotMerge first second)
    (isFirst : subject.HasField first) (isSecond : subject.HasField second) :
    ¬Checked subject seen false first second := by
  induction cannot with
  | shapes differ => exact not_shapesDiffer_of_checked finished differ isFirst isSecond
  | names together differ =>
      exact fun checked =>
        differ (sameField_of_checked distinct isFirst isSecond checked together).1
  | arguments together differ =>
      exact fun checked =>
        differ (sameField_of_checked distinct isFirst isSecond checked together).2
  | @inside left right _ _ together isLeft isRight apart sameName _ induction =>
      intro checked
      have under := checked_under finished isFirst isSecond checked isLeft isRight apart sameName
      have strict : (false || onDifferentObjects left right) = false := by
        rw [← onDifferentObjects_iff, Bool.not_eq_true] at together
        exact together
      rw [strict] at under
      exact induction (hasField_of_under isFirst isSecond isLeft)
        (hasField_of_under isFirst isSecond isRight) under

/-- After a run without findings the fields of every selection set can be merged. -/
theorem fieldsCanMerge_of_finished (finished : Finished subject seen)
    (distinct : subject.DistinctArguments) {owner : Position} {parent : Option NamedType}
    {selections : List Selection} (has : subject.HasSelections owner parent selections) :
    subject.FieldsCanMerge parent selections := by
  intro left right isLeft isRight apart sameName cannot
  rcases FieldSet.leadsTo_of_selects isLeft owner with ⟨_, leadsLeft⟩
  rcases FieldSet.leadsTo_of_selects isRight owner with ⟨_, leadsRight⟩
  exact not_cannotMerge_of_checked finished distinct cannot (has.hasField isLeft)
    (has.hasField isRight)
    (checked_of_leadsTo finished ⟨_, _, _, has, rfl⟩ leadsLeft leadsRight apart sameName)

/-! ## The rule -/

variable {schema : Schema} {document : Document} {registry : Registry}

/-- At a selection set the rule finds what its comparisons find. -/
private theorem visit_enterSelections {scope : Scope} {owner : Position}
    {selections : List Selection}
    (has : subject.HasSelections owner scope.parent selections) (seen : Compared) :
    ∃ found after, compareAll (compare subject (comparisonDepth subject.document))
        (Comparison.ofSet (.ofSelections subject.registry scope.parent owner selections)) seen =
          some (found, after) ∧
      overlappingFieldsCanBeMerged.visit subject seen ⟨scope, .enterSelections owner selections⟩ =
        (after, found.map Conflict.finding) := by
  have total : ∃ result, compareAll (compare subject (comparisonDepth subject.document))
      (Comparison.ofSet (.ofSelections subject.registry scope.parent owner selections)) seen =
        some result :=
    compareAll_total (fun _ _ _ _ => compare_extends) fun comparison member after _ =>
      compare_comparisonDepth (valid_ofSet ⟨_, _, _, has, rfl⟩ member).written after
  rcases total with ⟨⟨found, after⟩, made⟩
  refine ⟨found, after, made, ?_⟩
  simp only [overlappingFieldsCanBeMerged, made, Option.getD_some]

/-- What a visit has compared. -/
private def Visited (subject : Subject) (visit : ScopedVisit) (seen : Compared) : Prop :=
  ∀ owner selections, visit.visit = .enterSelections owner selections →
    ∀ comparison ∈ Comparison.ofSet
      (.ofSelections subject.registry visit.scope.parent owner selections),
      Settled subject seen comparison

private theorem quiet_visit (yields : schema.Yields subject.registry) (passed : subject.Passed)
    {visit : ScopedVisit} (member : visit ∈ subject.document.walk subject.registry)
    (sees : overlappingFieldsCanBeMerged.Sees visit) (seen : Compared)
    (quiet : (overlappingFieldsCanBeMerged.visit subject seen visit).2 = []) :
    Grows subject seen (overlappingFieldsCanBeMerged.visit subject seen visit).1 ∧
      Visited subject visit (overlappingFieldsCanBeMerged.visit subject seen visit).1 := by
  rcases visit with ⟨scope, node⟩
  cases node with
  | enterSelections owner selections =>
      have has := Subject.hasSelections_of_entered yields passed member
      rcases visit_enterSelections has seen with ⟨found, after, made, result⟩
      rw [result] at quiet ⊢
      rw [List.map_eq_nil_iff.mp quiet] at made
      have run := quiet_compareAll (fun comparison member before after made =>
        quiet_compare (valid_ofSet ⟨_, _, _, has, rfl⟩ member) made) made
      refine ⟨run.1, fun enteredOwner entered equal => ?_⟩
      cases equal
      exact run.2
  | leaveSelections owner selections => exact ⟨.refl _, fun _ _ equal => by cases equal⟩
  | _ => exact absurd sees Bool.false_ne_true

/-- A run of the rule without reports has finished. -/
theorem finished_of_silent (yields : schema.Yields registry)
    (passed : Subject.Passed ⟨registry, document⟩) (distinct : document.positions.Nodup)
    (silent : document.validate registry [overlappingFieldsCanBeMerged] = []) :
    ∃ seen, Finished ⟨registry, document⟩ seen := by
  rw [validate_one] at silent
  rcases Rule.quiet_run overlappingFieldsCanBeMerged (Grows ⟨registry, document⟩)
    (Visited ⟨registry, document⟩) .refl .trans
    (fun visited grows owner selections entered comparison member =>
      (visited owner selections entered comparison member).mono grows.covers)
    (fun visit member sees before quiet => quiet_visit yields passed member sees before quiet)
    silent with ⟨seen, grows, visited⟩
  refine ⟨seen, distinct, fun entry member => ?_, fun entry member => ?_, ?_⟩
  · exact (grows.sets entry member).resolve_left fun none => by cases none
  · exact (grows.fragments entry member).resolve_left fun none => by cases none
  · rintro _ ⟨owner, parent, selections, has, rfl⟩ comparison member
    by_cases none : selections = []
    · subst none
      cases member
    · rcases has.walked yields passed none with ⟨scope, walked⟩
      have settled := visited _ walked.enters rfl owner selections rfl
      rw [walked.inside.here] at settled
      exact settled comparison member

private theorem violated_of_reported (yields : schema.Yields registry)
    (passed : Subject.Passed ⟨registry, document⟩)
    (arguments : Subject.DistinctArguments ⟨registry, document⟩) {error : ValidationError}
    (reported : error ∈ document.validate registry [overlappingFieldsCanBeMerged]) :
    Violated ⟨registry, document⟩ := by
  rw [validate_one] at reported
  rcases (Rule.mem_run reported).2 with ⟨⟨scope, node⟩, member, sees, before, some⟩
  cases node with
  | enterSelections owner selections =>
      have has := Subject.hasSelections_of_entered yields passed member
      rcases visit_enterSelections has before with ⟨found, after, made, result⟩
      rw [result] at some
      exact violated_of_found arguments has made (mt (List.map_eq_nil_iff.mpr ·) some)
  | leaveSelections owner selections => exact absurd rfl some
  | _ => exact absurd sees Bool.false_ne_true

end Rules

/-- The default plan without the rule about overlapping fields. -/
def otherRules : List Rule :=
  defaultPlan.filter fun rule => rule.code != Rules.overlappingFieldsCanBeMerged.code

private theorem otherRules_eq : otherRules = defaultPlan.dropLast := by
  rfl

theorem mem_defaultPlan {rule : Rule} :
    rule ∈ defaultPlan ↔ rule ∈ otherRules ∨ rule = Rules.overlappingFieldsCanBeMerged := by
  rw [otherRules_eq, ← List.mem_singleton, ← List.mem_append]
  exact Iff.rfl

theorem passed_of_otherRules {document : Document} {registry : Registry}
    (others : document.validate registry otherRules = []) :
    Subject.Passed ⟨registry, document⟩ := by
  have silent := validate_eq_nil.mp others
  rw [otherRules_eq] at silent
  exact Rules.passed_of_silent (silent _ (by simp [defaultPlan])) (silent _ (by simp [defaultPlan]))
    (silent _ (by simp [defaultPlan]))

/-- If no other rule of the default plan has something to report, the rule about overlapping fields
reports something exactly if the fields of some selection set cannot be merged. -/
theorem Document.overlapping_reported_iff {schema : Schema} {registry : Registry}
    {document : Document} (built : schema.build = .ok registry)
    (addressed : document.Addressed) (others : document.validate registry otherRules = []) :
    (∃ error ∈ document.validate registry defaultPlan,
      error.code = Rules.overlappingFieldsCanBeMerged.code) ↔
      ∃ owner parent selections,
        Subject.HasSelections ⟨registry, document⟩ owner parent selections ∧
        ¬Subject.FieldsCanMerge ⟨registry, document⟩ parent selections := by
  have yields := Schema.build_yields built
  have passed := passed_of_otherRules others
  have arguments : Subject.DistinctArguments ⟨registry, document⟩ := by
    rintro _ ⟨owner, parent, selections, node, has, member, rfl⟩
    exact has.distinct_arguments yields passed member
  constructor
  · rintro ⟨error, reported, _⟩
    rcases mem_validate.mp reported with ⟨rule, member, reported⟩
    rcases mem_defaultPlan.mp member with isOther | rfl
    · rw [validate_eq_nil.mp others rule isOther] at reported
      cases reported
    · exact Rules.violated_of_reported yields passed arguments reported
  · rintro ⟨owner, parent, selections, has, cannotMerge⟩
    by_contra silent
    have quiet : document.validate registry [Rules.overlappingFieldsCanBeMerged] = [] := by
      rw [List.eq_nil_iff_forall_not_mem]
      intro error reported
      exact silent ⟨error, mem_validate.mpr ⟨_, mem_defaultPlan.mpr (.inr rfl), reported⟩,
        (Rule.mem_run reported).1⟩
    rcases Rules.finished_of_silent yields passed addressed.distinct quiet with ⟨seen, finished⟩
    exact cannotMerge (Rules.fieldsCanMerge_of_finished finished arguments has)

namespace Pets

/-! A fragment that selects another field under the response name of a field beside its spread. -/

def pet : NamedType where
  key := .custom 0
  name := "Pet"
  shape := .object
    { fields :=
        [{ name := "name", type := .named "String" },
          { name := "nickname", type := .named "String" }] }

def query : NamedType where
  key := .custom 1
  name := "Query"
  shape := .object { fields := [{ name := "pet", type := .direct pet.toInstance }] }

def schema : Schema where
  pool := [pet, query]
  query := query.toInstance

def registry : Registry where
  types := Scalar.all ++ Meta.all ++ [query, pet]
  query := query
  mutation := none
  subscription := none
  directives := DirectiveDefinition.builtIn
  possibleTypes := []

def document : Document where
  definitions :=
    [.operation ⟨⟨1, 1⟩, .query, none, [], [],
        [.field ⟨⟨1, 3⟩, none, "pet", [], [],
          [.field ⟨⟨1, 9⟩, none, "name", [], [], []⟩, .spread ⟨⟨1, 17⟩, "Short", []⟩]⟩]⟩,
      .fragment ⟨⟨2, 1⟩, "Short", "Pet", [],
        [.field ⟨⟨2, 25⟩, some "name", "nickname", [], [], []⟩]⟩]

private theorem reported :
    (document.validate registry defaultPlan).map ValidationError.code =
      [Rules.overlappingFieldsCanBeMerged.code] := by
  rfl

end Pets

/-- The name and the nickname of a pet cannot be merged. -/
theorem Document.overlapping_reported_of_pets :
    Pets.schema.build = .ok Pets.registry ∧ Pets.document.Addressed ∧
      Pets.document.validate Pets.registry otherRules = [] ∧
      ∃ owner parent selections,
        Subject.HasSelections ⟨Pets.registry, Pets.document⟩ owner parent selections ∧
        ¬Subject.FieldsCanMerge ⟨Pets.registry, Pets.document⟩ parent selections := by
  have built : Pets.schema.build = .ok Pets.registry := by cbv
  have addressed : Pets.document.Addressed := .inr (by decide)
  have others : Pets.document.validate Pets.registry otherRules = [] := by rfl
  refine ⟨built, addressed, others,
    (Document.overlapping_reported_iff built addressed others).mp ?_⟩
  have member : Rules.overlappingFieldsCanBeMerged.code ∈
      (Pets.document.validate Pets.registry defaultPlan).map ValidationError.code := by
    rw [Pets.reported]
    exact List.mem_singleton.mpr rfl
  rcases List.mem_map.mp member with ⟨error, reported, isCode⟩
  exact ⟨error, reported, isCode⟩

end GraphQL
