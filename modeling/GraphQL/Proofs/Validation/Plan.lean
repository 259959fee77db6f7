import GraphQL.Validation.Rule
import GraphQL.Proofs.Validation.Tour
import Mathlib.Logic.Basic

/-!
The rules of a plan do not influence each other: a plan reports what its rules report one by one. A
rule without state reports nothing if it finds nothing at any visit, and of a rule with a state each
visit starts from what the visits before have left.
-/

namespace GraphQL

variable {subject : Subject}

/-! ## One rule at a time -/

theorem runVisits_one (visit : ScopedVisit) (visits : List ScopedVisit) (one : Rule.Running) :
    runVisits subject (visit :: visits) [one] =
      (one.step subject visit).2 ++ runVisits subject visits [(one.step subject visit).1] := by
  rw [runVisits, stepAll]
  simp

private theorem mem_runVisits {visits : List ScopedVisit} {running : List Rule.Running}
    {error : ValidationError} :
    error ∈ runVisits subject visits running ↔
      ∃ one ∈ running, error ∈ runVisits subject visits [one] := by
  induction visits generalizing running with
  | nil => simp [runVisits]
  | cons visit visits induction =>
      rw [runVisits, stepAll]
      dsimp only
      rw [List.mem_append, induction]
      simp only [List.mem_append, List.mem_flatMap, List.mem_map, runVisits_one]
      constructor
      · rintro (⟨_, ⟨one, member, rfl⟩, found⟩ | ⟨_, ⟨_, ⟨one, member, rfl⟩, rfl⟩, found⟩)
        · exact ⟨one, member, .inl found⟩
        · exact ⟨one, member, .inr found⟩
      · rintro ⟨one, member, found | found⟩
        · exact .inl ⟨_, ⟨one, member, rfl⟩, found⟩
        · exact .inr ⟨_, ⟨_, ⟨one, member, rfl⟩, rfl⟩, found⟩

/-- The tour that the rules are taken on goes through the visits of the walk. -/
theorem validate_eq_walk (document : Document) (registry : Registry) (plan : List Rule) :
    document.validate registry plan =
      if plan.isEmpty then []
      else runVisits ⟨registry, document⟩ (document.walk registry) (plan.map Rule.start) := by
  rw [Document.validate, Document.tour_eq_walk]

theorem validate_one (document : Document) (registry : Registry) (rule : Rule) :
    document.validate registry [rule] =
      runVisits ⟨registry, document⟩ (document.walk registry) [rule.start] :=
  validate_eq_walk document registry [rule]

/-- A plan reports what its rules report. -/
theorem mem_validate {document : Document} {registry : Registry} {plan : List Rule}
    {error : ValidationError} :
    error ∈ document.validate registry plan ↔
      ∃ rule ∈ plan, error ∈ document.validate registry [rule] := by
  simp only [validate_one]
  rw [validate_eq_walk]
  cases plan with
  | nil => simp
  | cons rule rules =>
      rw [if_neg (by simp), mem_runVisits]
      simp only [List.mem_map]
      constructor
      · rintro ⟨_, ⟨rule, member, rfl⟩, found⟩
        exact ⟨rule, member, found⟩
      · rintro ⟨rule, member, found⟩
        exact ⟨_, ⟨rule, member, rfl⟩, found⟩

theorem validate_eq_nil {document : Document} {registry : Registry} {plan : List Rule} :
    document.validate registry plan = [] ↔
      ∀ rule ∈ plan, document.validate registry [rule] = [] := by
  simp only [List.eq_nil_iff_forall_not_mem]
  constructor
  · intro silent rule member error found
    exact silent error (mem_validate.mpr ⟨rule, member, found⟩)
  · intro silent error found
    rcases mem_validate.mp found with ⟨rule, member, found⟩
    exact silent rule member error found

namespace Rule

variable {rule : Rule} {visit : ScopedVisit} {visits : List ScopedVisit}

/-- Whether a rule is shown a visit. -/
def Sees (rule : Rule) (visit : ScopedVisit) : Prop :=
  rule.interests.contains visit.visit.kind = true

theorem step_of_sees (sees : rule.Sees visit) (state : rule.State) :
    Running.step subject visit ⟨rule, state⟩ =
      (⟨rule, (rule.visit subject state visit).1⟩,
        (rule.visit subject state visit).2.map rule.report) := by
  exact if_pos sees

theorem step_of_not_sees (sees : ¬rule.Sees visit) (state : rule.State) :
    Running.step subject visit ⟨rule, state⟩ = (⟨rule, state⟩, []) := by
  exact if_neg sees

theorem run_of_sees (sees : rule.Sees visit) (state : rule.State) :
    runVisits subject (visit :: visits) [⟨rule, state⟩] =
      (rule.visit subject state visit).2.map rule.report ++
        runVisits subject visits [⟨rule, (rule.visit subject state visit).1⟩] := by
  rw [runVisits_one, step_of_sees sees]

/-- Visits at which a rule finds nothing only move its state on. -/
theorem run_advance {advance : rule.State → ScopedVisit → rule.State}
    (steps : ∀ visit ∈ visits, ∀ state,
      Running.step subject visit ⟨rule, state⟩ = (⟨rule, advance state visit⟩, []))
    (later : List ScopedVisit) (state : rule.State) :
    runVisits subject (visits ++ later) [⟨rule, state⟩] =
      runVisits subject later [⟨rule, visits.foldl advance state⟩] := by
  induction visits generalizing state with
  | nil => rfl
  | cons visit visits induction =>
      have parts := List.forall_mem_cons.mp steps
      rw [List.cons_append, runVisits_one, parts.1]
      exact induction parts.2 (advance state visit)

/-- A rule that reports nothing has found nothing at the first visit and goes on from there. -/
theorem quiet_step (sees : rule.Sees visit) {state : rule.State}
    (silent : runVisits subject (visit :: visits) [⟨rule, state⟩] = []) :
    (rule.visit subject state visit).2 = [] ∧
      runVisits subject visits [⟨rule, (rule.visit subject state visit).1⟩] = [] := by
  rw [run_of_sees sees] at silent
  exact (List.append_eq_nil_iff.mp silent).imp_left List.map_eq_nil_iff.mp

/-- What a rule is not shown does not matter to it. -/
theorem run_unseen (unseen : ∀ visit ∈ visits, ¬rule.Sees visit) (later : List ScopedVisit)
    (state : rule.State) :
    runVisits subject (visits ++ later) [⟨rule, state⟩] =
      runVisits subject later [⟨rule, state⟩] := by
  induction visits with
  | nil => rfl
  | cons visit visits induction =>
      have parts := List.forall_mem_cons.mp unseen
      rw [List.cons_append, runVisits_one, step_of_not_sees parts.1]
      exact induction parts.2

/-- A rule that reports nothing also reports nothing from some visit on. -/
theorem quiet_later {later : List ScopedVisit} {state : rule.State}
    (silent : runVisits subject (visits ++ later) [⟨rule, state⟩] = []) :
    ∃ reached, runVisits subject later [⟨rule, reached⟩] = [] := by
  induction visits generalizing state with
  | nil => exact ⟨state, silent⟩
  | cons visit visits induction =>
      by_cases sees : rule.Sees visit
      · exact induction (quiet_step sees silent).2
      · rw [List.cons_append, runVisits_one, step_of_not_sees sees] at silent
        exact induction silent

/-- Every report carries the code of its rule and comes from a visit that the rule was shown. -/
theorem mem_run {state : rule.State} {error : ValidationError}
    (found : error ∈ runVisits subject visits [⟨rule, state⟩]) :
    error.code = rule.code ∧ ∃ visit ∈ visits, rule.Sees visit ∧
      ∃ before, (rule.visit subject before visit).2 ≠ [] := by
  induction visits generalizing state with
  | nil => simp [runVisits] at found
  | cons visit visits induction =>
      rw [runVisits_one] at found
      by_cases sees : rule.Sees visit
      · rw [step_of_sees sees] at found
        rcases List.mem_append.mp found with here | later
        · rcases List.mem_map.mp here with ⟨finding, member, isError⟩
          subst isError
          exact ⟨rfl, visit, List.mem_cons_self, sees, state, List.ne_nil_of_mem member⟩
        · rcases induction later with ⟨sameCode, visit, member, rest⟩
          exact ⟨sameCode, visit, List.mem_cons_of_mem _ member, rest⟩
      · rw [step_of_not_sees sees] at found
        rcases induction found with ⟨sameCode, visit, member, rest⟩
        exact ⟨sameCode, visit, List.mem_cons_of_mem _ member, rest⟩

/-- A rule that reports nothing has found nothing at any visit. What each of its steps keeps holds
from its start to its end, and what a visit has achieved still holds at the end. -/
theorem quiet_run (rule : Rule) (related : rule.State → rule.State → Prop)
    (achieved : ScopedVisit → rule.State → Prop) (refl : ∀ state, related state state)
    (trans : ∀ {first second third}, related first second → related second third →
      related first third)
    (stays : ∀ {visit before after}, achieved visit before → related before after →
      achieved visit after)
    (each : ∀ visit ∈ visits, rule.Sees visit → ∀ before,
      (rule.visit subject before visit).2 = [] →
        related before (rule.visit subject before visit).1 ∧
          achieved visit (rule.visit subject before visit).1)
    {state : rule.State} (silent : runVisits subject visits [⟨rule, state⟩] = []) :
    ∃ final, related state final ∧ ∀ visit ∈ visits, rule.Sees visit → achieved visit final := by
  induction visits generalizing state with
  | nil => exact ⟨state, refl state, fun visit member => by cases member⟩
  | cons visit visits induction =>
      have eachLater := fun later member => each later (List.mem_cons_of_mem visit member)
      rw [runVisits_one] at silent
      have parts := List.append_eq_nil_iff.mp silent
      by_cases sees : rule.Sees visit
      · rw [step_of_sees sees] at parts
        have here := each visit List.mem_cons_self sees state (List.map_eq_nil_iff.mp parts.1)
        rcases induction eachLater parts.2 with ⟨final, reached, later⟩
        refine ⟨final, trans here.1 reached, fun shown member seen => ?_⟩
        rcases List.mem_cons.mp member with equal | member
        · rw [equal]
          exact stays here.2 reached
        · exact later shown member seen
      · rw [step_of_not_sees sees] at parts
        rcases induction eachLater parts.2 with ⟨final, reached, later⟩
        refine ⟨final, reached, fun shown member seen => ?_⟩
        rcases List.mem_cons.mp member with equal | member
        · exact absurd (equal ▸ seen) sees
        · exact later shown member seen

/-- A rule without state that reports nothing has nothing against any visit. -/
theorem quiet_stateless {document : Document} {registry : Registry} {code : String}
    {interests : List NodeKind} {find : Subject → ScopedVisit → List Finding}
    (silent : document.validate registry [stateless code interests find] = [])
    (member : visit ∈ document.walk registry)
    (sees : interests.contains visit.visit.kind = true) : find ⟨registry, document⟩ visit = [] := by
  rw [validate_one] at silent
  rcases quiet_run (stateless code interests find) (fun _ _ => True)
    (fun visit _ => find ⟨registry, document⟩ visit = []) (fun _ => trivial) (fun _ _ => trivial)
    (fun found _ => found) (fun visit _ _ _ found => ⟨trivial, found⟩) silent with ⟨_, _, found⟩
  exact found visit member sees

/-- A rule without state reports what it finds at the visits that it is shown. -/
theorem mem_stateless {document : Document} {registry : Registry} {code : String}
    {interests : List NodeKind} {find : Subject → ScopedVisit → List Finding}
    {error : ValidationError} :
    error ∈ document.validate registry [stateless code interests find] ↔
      ∃ visit ∈ document.walk registry, interests.contains visit.visit.kind = true ∧
        ∃ finding ∈ find ⟨registry, document⟩ visit,
          (stateless code interests find).report finding = error := by
  rw [validate_one, start]
  induction document.walk registry with
  | nil => simp [runVisits]
  | cons visit visits induction =>
      simp only [runVisits_one, List.mem_append, List.mem_cons, or_and_right, exists_or,
        exists_eq_left]
      by_cases sees : (stateless code interests find).Sees visit
      · rw [step_of_sees sees, List.mem_map]
        exact or_congr (Iff.symm (and_iff_right sees)) induction
      · rw [step_of_not_sees sees]
        exact or_congr ⟨fun none => absurd none List.not_mem_nil, fun seen => absurd seen.1 sees⟩
          induction

theorem stateless_silent_iff {document : Document} {registry : Registry} {code : String}
    {interests : List NodeKind} {find : Subject → ScopedVisit → List Finding} :
    document.validate registry [stateless code interests find] = [] ↔
      ∀ visit ∈ document.walk registry, interests.contains visit.visit.kind = true →
        find ⟨registry, document⟩ visit = [] := by
  constructor
  · exact fun silent visit member sees => quiet_stateless silent member sees
  · intro clean
    apply List.eq_nil_iff_forall_not_mem.mpr
    intro error found
    rcases mem_stateless.mp found with ⟨visit, member, sees, finding, finds, _⟩
    rw [clean visit member sees] at finds
    cases finds

end Rule

end GraphQL
