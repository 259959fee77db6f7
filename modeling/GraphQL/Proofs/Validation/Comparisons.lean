import GraphQL.Proofs.Validation.Conflicts

/-!
What one comparison does and what it leads to, and that whatever is found in the end is a real
conflict.
-/

namespace GraphQL

namespace Rules

/-! ## Pairs within and between field sets -/

private theorem mem_pairs {fields : List SelectedField} {comparison : Comparison}
    (member : comparison ∈ Comparison.within.pairs fields) :
    ∃ left ∈ fields, ∃ right ∈ fields, comparison = .fields false left right := by
  induction fields with
  | nil => cases member
  | cons first others induction =>
      rw [Comparison.within.pairs] at member
      rcases List.mem_append.mp member with here | later
      · rcases List.mem_map.mp here with ⟨right, isRight, rfl⟩
        exact ⟨first, List.mem_cons_self, right, List.mem_cons_of_mem _ isRight, rfl⟩
      · rcases induction later with ⟨left, isLeft, right, isRight, equal⟩
        exact ⟨left, List.mem_cons_of_mem _ isLeft, right, List.mem_cons_of_mem _ isRight, equal⟩

private theorem pairs_complete {fields : List SelectedField} {left right : SelectedField}
    (isLeft : left ∈ fields) (isRight : right ∈ fields) (apart : left ≠ right) :
    .fields false left right ∈ Comparison.within.pairs fields ∨
      .fields false right left ∈ Comparison.within.pairs fields := by
  induction fields with
  | nil => cases isLeft
  | cons first others induction =>
      rw [Comparison.within.pairs]
      rcases List.mem_cons.mp isLeft with leftFirst | leftLater
      · rcases List.mem_cons.mp isRight with rightFirst | rightLater
        · exact absurd (leftFirst.trans rightFirst.symm) apart
        · rw [leftFirst]
          exact .inl (List.mem_append_left _ (List.mem_map_of_mem rightLater))
      · rcases List.mem_cons.mp isRight with rightFirst | rightLater
        · rw [rightFirst]
          exact .inr (List.mem_append_left _ (List.mem_map_of_mem leftLater))
        · exact (induction leftLater rightLater).imp (List.mem_append_right _)
            (List.mem_append_right _)

private theorem mem_fragmentPairs {set : FieldSet} {names : List String} {comparison : Comparison}
    (member : comparison ∈ Comparison.ofSet.fragmentPairs set names) :
    (∃ name ∈ names, comparison = .setAndFragment false set name) ∨
      ∃ left ∈ names, ∃ right ∈ names, comparison = .fragments false left right := by
  induction names with
  | nil => cases member
  | cons first others induction =>
      rw [Comparison.ofSet.fragmentPairs] at member
      rcases List.mem_cons.mp member with here | member
      · exact .inl ⟨first, List.mem_cons_self, here⟩
      · rcases List.mem_append.mp member with here | later
        · rcases List.mem_map.mp here with ⟨right, isRight, rfl⟩
          exact .inr ⟨first, List.mem_cons_self, right, List.mem_cons_of_mem _ isRight, rfl⟩
        · rcases induction later with ⟨name, isName, equal⟩ | ⟨left, isLeft, right, isRight, equal⟩
          · exact .inl ⟨name, List.mem_cons_of_mem _ isName, equal⟩
          · exact .inr ⟨left, List.mem_cons_of_mem _ isLeft, right, List.mem_cons_of_mem _ isRight,
              equal⟩

theorem fragmentPairs_set {set : FieldSet} {names : List String} {name : String}
    (member : name ∈ names) :
    .setAndFragment false set name ∈ Comparison.ofSet.fragmentPairs set names := by
  induction names with
  | nil => cases member
  | cons first others induction =>
      rw [Comparison.ofSet.fragmentPairs]
      rcases List.mem_cons.mp member with here | later
      · rw [here]
        exact List.mem_cons_self
      · exact List.mem_cons_of_mem _ (List.mem_append_right _ (induction later))

theorem fragmentPairs_complete {set : FieldSet} {names : List String} {left right : String}
    (isLeft : left ∈ names) (isRight : right ∈ names) (apart : left ≠ right) :
    .fragments false left right ∈ Comparison.ofSet.fragmentPairs set names ∨
      .fragments false right left ∈ Comparison.ofSet.fragmentPairs set names := by
  induction names with
  | nil => cases isLeft
  | cons first others induction =>
      rw [Comparison.ofSet.fragmentPairs]
      rcases List.mem_cons.mp isLeft with leftFirst | leftLater
      · rcases List.mem_cons.mp isRight with rightFirst | rightLater
        · exact absurd (leftFirst.trans rightFirst.symm) apart
        · rw [leftFirst]
          exact .inl (List.mem_cons_of_mem _
            (List.mem_append_left _ (List.mem_map_of_mem rightLater)))
      · rcases List.mem_cons.mp isRight with rightFirst | rightLater
        · rw [rightFirst]
          exact .inr (List.mem_cons_of_mem _
            (List.mem_append_left _ (List.mem_map_of_mem leftLater)))
        · exact (induction leftLater rightLater).imp
            (fun later => List.mem_cons_of_mem _ (List.mem_append_right _ later))
            (fun later => List.mem_cons_of_mem _ (List.mem_append_right _ later))

variable {subject : Subject} {set left right : FieldSet} {comparison : Comparison}
  {exclusive : Bool}

/-- The comparisons between two sets are those of their fields with one response name. -/
private theorem mem_between (isLeft : left.Made subject.registry)
    (isRight : right.Made subject.registry) :
    comparison ∈ Comparison.between exclusive left right ↔
      ∃ first second, first ∈ left.named first.responseName ∧
        second ∈ right.named second.responseName ∧ first.responseName = second.responseName ∧
        comparison = .fields exclusive first second := by
  rw [Comparison.between, List.mem_flatMap]
  constructor
  · rintro ⟨entry, isEntry, member⟩
    rcases List.mem_flatMap.mp member with ⟨first, isFirst, member⟩
    rcases List.mem_map.mp member with ⟨second, isSecond, rfl⟩
    have firstIn := isLeft.entry isEntry isFirst
    have secondName := isRight.responseName isSecond
    exact ⟨first, second, firstIn.2, secondName ▸ isSecond, firstIn.1.trans secondName.symm, rfl⟩
  · rintro ⟨first, second, isFirst, isSecond, sameName, rfl⟩
    refine ⟨_, FieldSet.entry_of_mem_named isFirst, List.mem_flatMap.mpr ⟨first, isFirst, ?_⟩⟩
    rw [sameName]
    exact List.mem_map_of_mem isSecond

private theorem mem_within (isSet : set.Made subject.registry)
    (member : comparison ∈ Comparison.within set) :
    ∃ first second, first ∈ set.named first.responseName ∧
      second ∈ set.named second.responseName ∧ first.responseName = second.responseName ∧
      comparison = .fields false first second := by
  rcases List.mem_flatMap.mp member with ⟨entry, isEntry, member⟩
  rcases mem_pairs member with ⟨first, isFirst, second, isSecond, rfl⟩
  have firstIn := isSet.entry isEntry isFirst
  have secondIn := isSet.entry isEntry isSecond
  exact ⟨first, second, firstIn.2, secondIn.2, firstIn.1.trans secondIn.1.symm, rfl⟩

theorem within_complete {first second : SelectedField}
    (isFirst : first ∈ set.named first.responseName)
    (isSecond : second ∈ set.named second.responseName) (apart : first ≠ second)
    (sameName : first.responseName = second.responseName) :
    .fields false first second ∈ Comparison.within set ∨
      .fields false second first ∈ Comparison.within set := by
  have isEntry := FieldSet.entry_of_mem_named isFirst
  exact (pairs_complete isFirst (sameName ▸ isSecond) apart).imp
    (fun inside => List.mem_flatMap.mpr ⟨_, isEntry, inside⟩)
    (fun inside => List.mem_flatMap.mpr ⟨_, isEntry, inside⟩)

/-! ## One comparison -/

/-- The comparisons that one leads to if it has to be made. -/
def followUps (subject : Subject) : Comparison → List Comparison
  | .fields exclusive left right =>
      if left.field.selections.isEmpty || right.field.selections.isEmpty then []
      else
        Comparison.ofSets (exclusive || onDifferentObjects left right)
          (left.fieldSet subject.registry) (right.fieldSet subject.registry)
  | .setAndFragment exclusive set name => (setComparisons subject {} exclusive set name).1
  | .fragments exclusive left right => (fragmentComparisons subject {} exclusive left right).1

/-- Two fields are in conflict by themselves. -/
def Clash (subject : Subject) : Comparison → Prop
  | .fields exclusive left right =>
      ownConflict? subject.registry (exclusive || onDifferentObjects left right) left right ≠ none
  | _ => False

/-- A comparison that need not be made. -/
def Compared.Covers (seen : Compared) : Comparison → Prop
  | .fields _ _ _ => False
  | .setAndFragment exclusive set name => seen.coversSet exclusive set name = true
  | .fragments exclusive left right =>
      left = right ∨ seen.coversFragments exclusive left right = true

/-- What has been compared once a comparison is begun. -/
def Compared.add (seen : Compared) : Comparison → Compared
  | .fields _ _ _ => seen
  | .setAndFragment exclusive set name => seen.addSet exclusive set name
  | .fragments exclusive left right => seen.addFragments exclusive left right

theorem setComparisons_eq (seen : Compared) (exclusive : Bool) (set : FieldSet) (name : String) :
    setComparisons subject seen exclusive set name =
      if seen.coversSet exclusive set name then ([], seen)
      else (followUps subject (.setAndFragment exclusive set name),
        seen.addSet exclusive set name) := by
  rw [followUps, setComparisons, setComparisons]
  split
  · rfl
  · rw [if_neg (by simp [Compared.coversSet])]
    cases subject.document.fragment? name with
    | none => rfl
    | some fragment =>
        by_cases same : set.owner = fragment.position
        · simp only [if_pos same]
        · simp only [if_neg same]

theorem fragmentComparisons_eq (seen : Compared) (exclusive : Bool) (left right : String) :
    fragmentComparisons subject seen exclusive left right =
      if left = right ∨ seen.coversFragments exclusive left right = true then ([], seen)
      else (followUps subject (.fragments exclusive left right),
        seen.addFragments exclusive left right) := by
  rw [followUps, fragmentComparisons, fragmentComparisons]
  split
  · rfl
  · rename_i fresh
    rw [if_neg (by simpa [Compared.coversFragments] using fun same => fresh (.inl same))]
    cases subject.document.fragment? left with
    | none => rfl
    | some leftFragment =>
        cases subject.document.fragment? right with
        | none => rfl
        | some rightFragment => rfl

theorem compareAll_cons {step : Comparison → Compared → Option (List Conflict × Compared)}
    {comparisons : List Comparison} {seen after : Compared} {found : List Conflict}
    (made : compareAll step (comparison :: comparisons) seen = some (found, after)) :
    ∃ here between later, step comparison seen = some (here, between) ∧
      compareAll step comparisons between = some (later, after) ∧ found = here ++ later := by
  rw [compareAll] at made
  rcases Option.bind_eq_some_iff.mp made with ⟨⟨here, between⟩, isHere, made⟩
  rcases Option.bind_eq_some_iff.mp made with ⟨⟨later, last⟩, isLater, made⟩
  cases made
  exact ⟨here, between, later, isHere, isLater, rfl⟩

/-- A comparison finds a clash, or is covered, or finds what the comparisons find that it leads
to. -/
theorem compare_cases {fuel : Nat} {seen after : Compared} {found : List Conflict}
    (made : compare subject (fuel + 1) comparison seen = some (found, after)) :
    (Clash subject comparison ∧ found ≠ [] ∧ after = seen) ∨
      (seen.Covers comparison ∧ found = [] ∧ after = seen) ∨
      (¬Clash subject comparison ∧ ¬seen.Covers comparison ∧ ∃ inner,
        compareAll (compare subject fuel) (followUps subject comparison) (seen.add comparison) =
          some (inner, after) ∧ (found = [] ↔ inner = [])) := by
  cases comparison with
  | fields exclusive left right =>
      rw [compare] at made
      simp only at made
      split at made
      · rename_i reason isReason
        cases made
        refine .inl ⟨?_, List.cons_ne_nil _ _, rfl⟩
        rw [Clash, isReason]
        exact Option.some_ne_none reason
      · rename_i noReason
        refine .inr (.inr ⟨fun clash => clash noReason, id, ?_⟩)
        rw [followUps]
        split at made
        · rename_i isLeaf
          cases made
          exact ⟨[], by rw [if_pos isLeaf]; rfl, Iff.rfl⟩
        · rename_i notLeaf
          rcases Option.bind_eq_some_iff.mp made with ⟨⟨inner, last⟩, isInner, made⟩
          cases made
          refine ⟨inner, by rw [if_neg notLeaf]; exact isInner, ?_⟩
          rw [Conflict.under?]
          cases inner <;> simp
  | setAndFragment | fragments =>
      rw [compare] at made
      simp only [setComparisons_eq, fragmentComparisons_eq] at made
      split at made
      · rename_i covered
        cases made
        exact .inr (.inl ⟨covered, rfl, rfl⟩)
      · rename_i fresh
        exact .inr (.inr ⟨id, fresh, found, made, Iff.rfl⟩)

/-- A comparison has a result if it is covered, or those that it leads to have one. -/
theorem compare_isSome {fuel : Nat} {seen : Compared}
    (inside : ¬seen.Covers comparison → ∃ result,
      compareAll (compare subject fuel) (followUps subject comparison) (seen.add comparison) =
        some result) :
    ∃ result, compare subject (fuel + 1) comparison seen = some result := by
  cases comparison with
  | fields exclusive left right =>
      rcases inside id with ⟨result, isResult⟩
      rw [compare]
      simp only
      split
      · exact ⟨_, rfl⟩
      · split
        · exact ⟨_, rfl⟩
        · rename_i notLeaf
          rw [followUps, if_neg notLeaf, Compared.add] at isResult
          rw [isResult]
          exact ⟨_, rfl⟩
  | setAndFragment | fragments =>
      rw [compare]
      simp only [setComparisons_eq, fragmentComparisons_eq]
      split
      · exact ⟨_, rfl⟩
      · rename_i fresh
        exact inside fresh

/-! ## What comparisons stand for -/

private def Comparison.isExclusive : Comparison → Bool
  | .fields exclusive _ _ => exclusive
  | .setAndFragment exclusive _ _ => exclusive
  | .fragments exclusive _ _ => exclusive

/-- A comparison of some fields, or of some field sets. -/
def Comparison.Over (fields : SelectedField → Prop) (sets : FieldSet → Prop) : Comparison → Prop
  | .fields _ left right => fields left ∧ fields right ∧ left.responseName = right.responseName
  | .setAndFragment _ set _ => sets set
  | .fragments _ _ _ => True

/-- Comparisons of what the document selects. -/
def Comparison.Valid (subject : Subject) : Comparison → Prop :=
  Comparison.Over subject.HasField subject.HasSet

/-- The pairs of fields that a comparison is about, whatever was compared before. -/
inductive Comparison.About (subject : Subject) :
    Comparison → SelectedField → SelectedField → Prop
  | fields {exclusive : Bool} {left right : SelectedField} :
      About subject (.fields exclusive left right) left right
  | setAndFragment {exclusive : Bool} {set : FieldSet} {name : String} {fragment : Fragment}
      {steps : Nat} {left right : SelectedField} (isLeft : left ∈ set.named left.responseName)
      (found : subject.document.fragment? name = some fragment)
      (isRight : FieldSet.LeadsTo subject (.ofFragment subject.registry fragment) steps right) :
      About subject (.setAndFragment exclusive set name) left right
  | fragments {exclusive : Bool} {leftName rightName : String}
      {leftFragment rightFragment : Fragment} {leftSteps rightSteps : Nat}
      {left right : SelectedField}
      (foundLeft : subject.document.fragment? leftName = some leftFragment)
      (foundRight : subject.document.fragment? rightName = some rightFragment)
      (isLeft : FieldSet.LeadsTo subject (.ofFragment subject.registry leftFragment) leftSteps left)
      (isRight : FieldSet.LeadsTo subject (.ofFragment subject.registry rightFragment) rightSteps
        right) :
      About subject (.fragments exclusive leftName rightName) left right

theorem mem_ofSets (isLeft : left.Made subject.registry) (isRight : right.Made subject.registry) :
    comparison ∈ Comparison.ofSets exclusive left right ↔
      (∃ first second, first ∈ left.named first.responseName ∧
        second ∈ right.named second.responseName ∧ first.responseName = second.responseName ∧
        comparison = .fields exclusive first second) ∨
      (∃ name ∈ right.spreads, comparison = .setAndFragment exclusive left name) ∨
      (∃ name ∈ left.spreads, comparison = .setAndFragment exclusive right name) ∨
      ∃ first ∈ left.spreads, ∃ second ∈ right.spreads,
        comparison = .fragments exclusive first second := by
  rw [Comparison.ofSets]
  simp only [List.mem_append, mem_between isLeft isRight, List.mem_map, List.mem_flatMap, or_assoc,
    eq_comm]

theorem mem_setFollowUps {name : String} {fragment : Fragment}
    (found : subject.document.fragment? name = some fragment) (isSet : set.Made subject.registry) :
    comparison ∈ followUps subject (.setAndFragment exclusive set name) ↔
      set.owner ≠ fragment.position ∧
      ((∃ first second, first ∈ set.named first.responseName ∧
        second ∈ (FieldSet.ofFragment subject.registry fragment).named second.responseName ∧
        first.responseName = second.responseName ∧ comparison = .fields exclusive first second) ∨
      ∃ inner ∈ (FieldSet.ofFragment subject.registry fragment).spreads,
        comparison = .setAndFragment exclusive set inner) := by
  rw [followUps, setComparisons, if_neg (by simp [Compared.coversSet])]
  simp only [found]
  by_cases same : set.owner = fragment.position
  · simp [same]
  · rw [if_neg same, and_iff_right same]
    simp only [List.mem_append, mem_between isSet (FieldSet.made_ofFragment _ _), List.mem_map,
      eq_comm]

theorem mem_fragmentFollowUps {leftName rightName : String} {leftFragment rightFragment : Fragment}
    (foundLeft : subject.document.fragment? leftName = some leftFragment)
    (foundRight : subject.document.fragment? rightName = some rightFragment) :
    comparison ∈ followUps subject (.fragments exclusive leftName rightName) ↔
      leftName ≠ rightName ∧
      ((∃ first second,
        first ∈ (FieldSet.ofFragment subject.registry leftFragment).named first.responseName ∧
        second ∈ (FieldSet.ofFragment subject.registry rightFragment).named second.responseName ∧
        first.responseName = second.responseName ∧ comparison = .fields exclusive first second) ∨
      (∃ inner ∈ (FieldSet.ofFragment subject.registry rightFragment).spreads,
        comparison = .fragments exclusive leftName inner) ∨
      ∃ inner ∈ (FieldSet.ofFragment subject.registry leftFragment).spreads,
        comparison = .fragments exclusive inner rightName) := by
  rw [followUps, fragmentComparisons]
  by_cases same : leftName = rightName
  · simp [same]
  · rw [if_neg (by simpa [Compared.coversFragments] using same), and_iff_right same]
    simp only [foundLeft, foundRight, List.mem_append,
      mem_between (FieldSet.made_ofFragment _ _) (FieldSet.made_ofFragment _ _), List.mem_map,
      eq_comm, or_assoc]

theorem found_of_setFollowUp {name : String}
    (member : comparison ∈ followUps subject (.setAndFragment exclusive set name)) :
    ∃ fragment, subject.document.fragment? name = some fragment := by
  cases found : subject.document.fragment? name with
  | none => simp [followUps, setComparisons, found, Compared.coversSet] at member
  | some fragment => exact ⟨fragment, rfl⟩

theorem found_of_fragmentFollowUp {leftName rightName : String}
    (member : comparison ∈ followUps subject (.fragments exclusive leftName rightName)) :
    ∃ leftFragment rightFragment, subject.document.fragment? leftName = some leftFragment ∧
      subject.document.fragment? rightName = some rightFragment := by
  rw [followUps, fragmentComparisons] at member
  split at member
  · cases member
  · cases foundLeft : subject.document.fragment? leftName with
    | none => simp [foundLeft] at member
    | some leftFragment =>
        cases foundRight : subject.document.fragment? rightName with
        | none => simp [foundLeft, foundRight] at member
        | some rightFragment => exact ⟨leftFragment, rightFragment, rfl, rfl⟩

/-! ## Soundness -/

/-- A pair of fields that a comparison is about has a conflict. -/
private def Real (subject : Subject) (comparison : Comparison) : Prop :=
  ∃ left right, comparison.About subject left right ∧ left.responseName = right.responseName ∧
    Differs subject comparison.isExclusive left right

/-- Some selection set of the document has fields that cannot be merged. -/
def Violated (subject : Subject) : Prop :=
  ∃ owner parent selections, subject.HasSelections owner parent selections ∧
    ¬subject.FieldsCanMerge parent selections

private theorem selects_of_named {selected outer : SelectedField} {name : String}
    (member : selected ∈ (outer.fieldSet subject.registry).named name) :
    subject.Selects (outer.inner subject.registry) outer.field.selections selected :=
  FieldSet.selects_of_holds (FieldSet.mem_named_ofSelections.mp member).1

private theorem selects_of_spread {selected outer : SelectedField} {name : String}
    {fragment : Fragment} {steps : Nat} (member : name ∈ (outer.fieldSet subject.registry).spreads)
    (found : subject.document.fragment? name = some fragment)
    (leads : FieldSet.LeadsTo subject (.ofFragment subject.registry fragment) steps selected) :
    subject.Selects (outer.inner subject.registry) outer.field.selections selected :=
  FieldSet.selects_of_leadsTo (.spread member found leads)

/-- What two fields lead to is about fields under them. -/
private theorem about_under {outerLeft outerRight first second : SelectedField}
    (isLeft : subject.HasField outerLeft) (isRight : subject.HasField outerRight)
    (member : comparison ∈ Comparison.ofSets exclusive (outerLeft.fieldSet subject.registry)
      (outerRight.fieldSet subject.registry))
    (about : comparison.About subject first second) :
    comparison.isExclusive = exclusive ∧ subject.SelectsUnder outerLeft outerRight first ∧
      subject.SelectsUnder outerLeft outerRight second := by
  rcases (mem_ofSets isLeft.fieldSet.made isRight.fieldSet.made).mp member with
    ⟨_, _, isFirst, isSecond, _, rfl⟩ | ⟨name, isName, rfl⟩ | ⟨name, isName, rfl⟩ |
      ⟨leftName, isLeftName, rightName, isRightName, rfl⟩
  · cases about with
    | fields => exact ⟨rfl, .inl (selects_of_named isFirst), .inr (selects_of_named isSecond)⟩
  · cases about with
    | setAndFragment isFirst found isSecond =>
        exact ⟨rfl, .inl (selects_of_named isFirst), .inr (selects_of_spread isName found isSecond)⟩
  · cases about with
    | setAndFragment isFirst found isSecond =>
        exact ⟨rfl, .inr (selects_of_named isFirst), .inl (selects_of_spread isName found isSecond)⟩
  · cases about with
    | fragments foundLeft foundRight isFirst isSecond =>
        exact ⟨rfl, .inl (selects_of_spread isLeftName foundLeft isFirst),
          .inr (selects_of_spread isRightName foundRight isSecond)⟩

/-- Fields and field sets that belong together: a set has only fields of the one kind, and what is
selected under a field, or in a fragment, is a set of the other. -/
structure Populates (subject : Subject) (fields : SelectedField → Prop) (sets : FieldSet → Prop) :
    Prop where
  made : ∀ {set}, sets set → set.Made subject.registry
  inside : ∀ {set name selected}, sets set → selected ∈ set.named name → fields selected
  under : ∀ {selected}, fields selected → sets (selected.fieldSet subject.registry)
  fragment : ∀ {name fragment}, subject.document.fragment? name = some fragment →
    sets (.ofFragment subject.registry fragment)

private theorem populates (subject : Subject) :
    Populates subject subject.HasField subject.HasSet where
  made := Subject.HasSet.made
  inside isSet member := (isSet.hasField member).1
  under := Subject.HasField.fieldSet
  fragment := Subject.hasSet_ofFragment

/-- The comparisons that one leads to compare what it compares, or what stands inside. -/
theorem over_followUps {fields : SelectedField → Prop} {sets : FieldSet → Prop}
    (populates : Populates subject fields sets) {made : Comparison} (drawn : made.Over fields sets)
    (member : comparison ∈ followUps subject made) : comparison.Over fields sets := by
  cases made with
  | fields exclusive first second =>
      have isFirstSet := populates.under drawn.1
      have isSecondSet := populates.under drawn.2.1
      rw [followUps] at member
      split at member
      · cases member
      · rcases (mem_ofSets (populates.made isFirstSet) (populates.made isSecondSet)).mp member with
          ⟨_, _, isFirst, isSecond, sameName, rfl⟩ | ⟨_, _, rfl⟩ | ⟨_, _, rfl⟩ | ⟨_, _, _, _, rfl⟩
        · exact ⟨populates.inside isFirstSet isFirst, populates.inside isSecondSet isSecond,
            sameName⟩
        · exact isFirstSet
        · exact isSecondSet
        · trivial
  | setAndFragment exclusive set name =>
      rcases found_of_setFollowUp member with ⟨fragment, found⟩
      rcases (mem_setFollowUps found (populates.made drawn)).mp member with
        ⟨_, ⟨_, _, isFirst, isSecond, sameName, rfl⟩ | ⟨_, _, rfl⟩⟩
      · exact ⟨populates.inside drawn isFirst, populates.inside (populates.fragment found) isSecond,
          sameName⟩
      · exact drawn
  | fragments exclusive leftName rightName =>
      rcases found_of_fragmentFollowUp member with
        ⟨leftFragment, rightFragment, foundLeft, foundRight⟩
      rcases (mem_fragmentFollowUps foundLeft foundRight).mp member with
        ⟨_, ⟨_, _, isFirst, isSecond, sameName, rfl⟩ | ⟨_, _, rfl⟩ | ⟨_, _, rfl⟩⟩
      · exact ⟨populates.inside (populates.fragment foundLeft) isFirst,
          populates.inside (populates.fragment foundRight) isSecond, sameName⟩
      · trivial
      · trivial

theorem valid_followUps {made : Comparison} (valid : made.Valid subject)
    (member : comparison ∈ followUps subject made) : comparison.Valid subject :=
  over_followUps (populates subject) valid member

/-- What a comparison with a fragment leads to is about the same pairs, just as strictly. -/
private theorem about_of_setFollowUp {name : String} (isSet : subject.HasSet set)
    (member : comparison ∈ followUps subject (.setAndFragment exclusive set name))
    {first second : SelectedField} (about : comparison.About subject first second) :
    comparison.isExclusive = exclusive ∧
      Comparison.About subject (.setAndFragment exclusive set name) first second := by
  rcases found_of_setFollowUp member with ⟨fragment, found⟩
  rcases (mem_setFollowUps found isSet.made).mp member with
    ⟨_, ⟨_, _, isFirst, isSecond, _, rfl⟩ | ⟨inner, isInner, rfl⟩⟩
  · cases about with
    | fields => exact ⟨rfl, .setAndFragment isFirst found (.here isSecond)⟩
  · cases about with
    | setAndFragment isFirst foundInner isSecond =>
        exact ⟨rfl, .setAndFragment isFirst found (.spread isInner foundInner isSecond)⟩

private theorem about_of_fragmentFollowUp {leftName rightName : String}
    (member : comparison ∈ followUps subject (.fragments exclusive leftName rightName))
    {first second : SelectedField} (about : comparison.About subject first second) :
    comparison.isExclusive = exclusive ∧
      Comparison.About subject (.fragments exclusive leftName rightName) first second := by
  rcases found_of_fragmentFollowUp member with ⟨leftFragment, rightFragment, foundLeft, foundRight⟩
  rcases (mem_fragmentFollowUps foundLeft foundRight).mp member with
    ⟨_, ⟨_, _, isFirst, isSecond, _, rfl⟩ | ⟨inner, isInner, rfl⟩ | ⟨inner, isInner, rfl⟩⟩
  · cases about with
    | fields => exact ⟨rfl, .fragments foundLeft foundRight (.here isFirst) (.here isSecond)⟩
  · cases about with
    | fragments foundFirst foundInner isFirst isSecond =>
        rw [foundLeft] at foundFirst
        cases foundFirst
        exact ⟨rfl, .fragments foundLeft foundRight isFirst (.spread isInner foundInner isSecond)⟩
  · cases about with
    | fragments foundInner foundSecond isFirst isSecond =>
        rw [foundRight] at foundSecond
        cases foundSecond
        exact ⟨rfl, .fragments foundLeft foundRight (.spread isInner foundInner isFirst) isSecond⟩

/-- A conflict of fields under two fields is one of the two fields, or the two are one field and the
selections under it cannot be merged. -/
private theorem real_of_followUp {made : Comparison} (valid : made.Valid subject)
    (member : comparison ∈ followUps subject made) (real : Real subject comparison) :
    Real subject made ∨ Violated subject := by
  rcases real with ⟨first, second, about, sameName, differs⟩
  cases made with
  | fields exclusive left right =>
      rw [followUps] at member
      split at member
      · cases member
      · rcases about_under valid.1 valid.2.1 member about with ⟨isExclusive, isFirst, isSecond⟩
        rw [isExclusive] at differs
        by_cases same : first = second
        · subst same
          have hasFirst : subject.HasField first := by
            rcases isFirst with isFirst | isFirst
            · exact valid.1.hasSelections.hasField isFirst
            · exact valid.2.1.hasSelections.hasField isFirst
          exact .inr ⟨_, _, _, hasFirst.hasSelections, not_fieldsCanMerge_of_self differs⟩
        · exact .inl ⟨left, right, .fields, valid.2.2,
            differs_of_under isFirst isSecond same sameName differs⟩
  | setAndFragment exclusive set name =>
      rcases about_of_setFollowUp valid member about with ⟨isExclusive, about⟩
      exact .inl ⟨first, second, about, sameName, isExclusive ▸ differs⟩
  | fragments exclusive leftName rightName =>
      rcases about_of_fragmentFollowUp member about with ⟨isExclusive, about⟩
      exact .inl ⟨first, second, about, sameName, isExclusive ▸ differs⟩

private theorem real_of_clash (distinct : subject.DistinctArguments)
    (valid : comparison.Valid subject)
    (clash : Clash subject comparison) : Real subject comparison := by
  cases comparison with
  | fields exclusive left right =>
      exact ⟨left, right, .fields, valid.2.2, differs_of_own (distinct right valid.2.1) clash⟩
  | setAndFragment exclusive set name => exact clash.elim
  | fragments exclusive left right => exact clash.elim

private theorem exists_of_compareAll
    {step : Comparison → Compared → Option (List Conflict × Compared)}
    {comparisons : List Comparison} {seen after : Compared} {found : List Conflict}
    (made : compareAll step comparisons seen = some (found, after)) (some : found ≠ []) :
    ∃ comparison ∈ comparisons, ∃ before here between,
      step comparison before = .some (here, between) ∧ here ≠ [] := by
  induction comparisons generalizing seen found with
  | nil =>
      cases made
      exact absurd rfl some
  | cons head tail induction =>
      rcases compareAll_cons made with ⟨here, between, later, isHere, isLater, rfl⟩
      by_cases none : here = []
      · rw [none, List.nil_append] at some
        rcases induction isLater some with ⟨comparison, member, rest⟩
        exact ⟨comparison, List.mem_cons_of_mem _ member, rest⟩
      · exact ⟨head, List.mem_cons_self, seen, here, between, isHere, none⟩

private theorem real_of_found (distinct : subject.DistinctArguments) {fuel : Nat}
    {seen after : Compared} {found : List Conflict} (valid : comparison.Valid subject)
    (made : compare subject fuel comparison seen = some (found, after)) (some : found ≠ []) :
    Real subject comparison ∨ Violated subject := by
  induction fuel generalizing comparison seen after found with
  | zero => cases made
  | succ fuel induction =>
      rcases compare_cases made with ⟨clash, _, _⟩ | ⟨_, none, _⟩ |
          ⟨_, _, inner, isInner, sameFound⟩
      · exact .inl (real_of_clash distinct valid clash)
      · exact absurd none some
      · rcases exists_of_compareAll isInner (mt sameFound.mpr some) with
          ⟨next, member, before, here, between, isHere, someHere⟩
        rcases induction (valid_followUps valid member) isHere someHere with real | violated
        · exact real_of_followUp valid member real
        · exact .inr violated

/-! ## Comparisons of one selection set -/

theorem over_ofSet {fields : SelectedField → Prop} {sets : FieldSet → Prop}
    (populates : Populates subject fields sets) (isSet : sets set)
    (member : comparison ∈ Comparison.ofSet set) : comparison.Over fields sets := by
  rcases List.mem_append.mp member with within | pairs
  · rcases mem_within (populates.made isSet) within with
      ⟨first, second, isFirst, isSecond, sameName, rfl⟩
    exact ⟨populates.inside isSet isFirst, populates.inside isSet isSecond, sameName⟩
  · rcases mem_fragmentPairs pairs with ⟨_, _, rfl⟩ | ⟨_, _, _, _, rfl⟩
    · exact isSet
    · trivial

theorem valid_ofSet (isSet : subject.HasSet set) (member : comparison ∈ Comparison.ofSet set) :
    comparison.Valid subject :=
  over_ofSet (populates subject) isSet member

private theorem about_ofSet (isSet : subject.HasSet set)
    (member : comparison ∈ Comparison.ofSet set)
    {first second : SelectedField} (about : comparison.About subject first second) :
    comparison.isExclusive = false ∧ (∃ steps, FieldSet.LeadsTo subject set steps first) ∧
      ∃ steps, FieldSet.LeadsTo subject set steps second := by
  rcases List.mem_append.mp member with within | pairs
  · rcases mem_within isSet.made within with ⟨_, _, isFirst, isSecond, _, rfl⟩
    cases about with
    | fields => exact ⟨rfl, ⟨0, .here isFirst⟩, 0, .here isSecond⟩
  · rcases mem_fragmentPairs pairs with ⟨_, isName, rfl⟩ | ⟨_, isLeft, _, isRight, rfl⟩
    · cases about with
      | setAndFragment isFirst found isSecond =>
          exact ⟨rfl, ⟨0, .here isFirst⟩, _, .spread isName found isSecond⟩
    · cases about with
      | fragments foundLeft foundRight isFirst isSecond =>
          exact ⟨rfl, ⟨_, .spread isLeft foundLeft isFirst⟩, _, .spread isRight foundRight isSecond⟩

/-- What is found in a selection set cannot be merged, there or elsewhere in the document. -/
theorem violated_of_found (distinct : subject.DistinctArguments) {owner : Position}
    {parent : Option NamedType} {selections : List Selection}
    (has : subject.HasSelections owner parent selections) {fuel : Nat} {seen after : Compared}
    {found : List Conflict}
    (made : compareAll (compare subject fuel)
      (Comparison.ofSet (.ofSelections subject.registry parent owner selections)) seen =
        some (found, after))
    (some : found ≠ []) : Violated subject := by
  have isSet : subject.HasSet (.ofSelections subject.registry parent owner selections) :=
    ⟨_, _, _, has, rfl⟩
  rcases exists_of_compareAll made some with ⟨comparison, member, _, _, _, isHere, someHere⟩
  rcases real_of_found distinct (valid_ofSet isSet member) isHere someHere with real | violated
  · rcases real with ⟨first, second, about, sameName, differs⟩
    rcases about_ofSet isSet member about with ⟨_, ⟨_, leadsFirst⟩, _, leadsSecond⟩
    by_cases same : first = second
    · subst same
      exact ⟨_, _, _, (isSet.hasField_of_leadsTo leadsFirst).hasSelections,
        not_fieldsCanMerge_of_self differs⟩
    · exact ⟨_, _, _, has, fun canMerge => canMerge first second
        (FieldSet.selects_of_leadsTo leadsFirst) (FieldSet.selects_of_leadsTo leadsSecond) same
        sameName differs.cannotMerge⟩
  · exact violated

end Rules

end GraphQL
