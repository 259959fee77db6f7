import GraphQL.Proofs.Validation.Plan
import GraphQL.Schema.Scalars
import GraphQL.Validation.Plan

/-!
How a walk calls its rules. The rules of a plan keep their states side by side, and a table says by
kind of node which of them are called. No rule of the default plan does anything at a node of a kind
that it did not ask for, so it does not matter whether the table is made from what rules ask for or
lists every rule everywhere; and a rule reports the same in whatever company.
-/

namespace GraphQL

/-! ## Tables -/

namespace NodeKind

def all : List NodeKind :=
  [.document, .operation, .fragment, .variableDefinition, .selections, .field, .spread, .inline,
    .directive, .argument, .value]

private theorem mem_all (kind : NodeKind) : kind ∈ all := by cases kind <;> decide

private theorem nodup_all : all.Nodup := by decide

end NodeKind

/-- The numbers of the rules that are called at nodes of a kind. -/
abbrev DispatchTable := NodeKind → List Nat

namespace DispatchTable

/-- Have a rule called at nodes of one more kind. -/
def enter (number : Nat) (table : DispatchTable) (kind : NodeKind) : DispatchTable :=
  fun other => if other = kind then table other ++ [number] else table other

/-- Each rule is called at the kinds that it asks for. -/
def ofPlan (plan : List Rule) : DispatchTable :=
  plan.zipIdx.foldl
    (fun table entry =>
      (NodeKind.all.filter fun kind => entry.1.interests.contains kind).foldl (enter entry.2) table)
    fun _ => []

/-- Every rule is called at every node. -/
def full (plan : List Rule) : DispatchTable := fun _ => List.range plan.length

private theorem foldl_enter (number : Nat) {kinds : List NodeKind} (distinct : kinds.Nodup)
    (table : DispatchTable) (kind : NodeKind) :
    kinds.foldl (enter number) table kind =
      table kind ++ (if kind ∈ kinds then [number] else []) := by
  induction kinds generalizing table with
  | nil => simp
  | cons head tail induction =>
      have parts := List.nodup_cons.mp distinct
      rw [List.foldl_cons, induction parts.2, enter]
      by_cases same : kind = head
      · subst same
        simp [parts.1]
      · simp [same]

private theorem ofPlan_eq (plan : List Rule) (kind : NodeKind) :
    ofPlan plan kind =
      (plan.zipIdx.filter fun entry => entry.1.interests.contains kind).map Prod.snd := by
  have step : ∀ (entries : List (Rule × Nat)) (table : DispatchTable),
      entries.foldl
          (fun table entry =>
            (NodeKind.all.filter fun kind => entry.1.interests.contains kind).foldl
              (enter entry.2) table)
          table kind =
        table kind ++
          (entries.filter fun entry => entry.1.interests.contains kind).map Prod.snd := by
    intro entries
    induction entries with
    | nil => simp
    | cons entry entries induction =>
        intro table
        rw [List.foldl_cons, induction, foldl_enter _ (NodeKind.nodup_all.filter _),
          List.filter_cons]
        by_cases asks : kind ∈ entry.1.interests
        · simp [asks, NodeKind.mem_all]
        · simp [asks]
  rw [ofPlan, step, List.nil_append]

private theorem full_eq (plan : List Rule) (kind : NodeKind) :
    full plan kind = (plan.zipIdx.filter fun _ => true).map Prod.snd := by
  rw [full, List.filter_eq_self.mpr fun _ _ => rfl]
  simp [List.range_eq_range']

end DispatchTable

/-! ## Traversals -/

/-- The rules of a plan with the states they have reached, and what they have reported so far. -/
structure Traversal where
  visitors : List Rule.Running
  errors : List ValidationError := []

namespace Traversal

/-- Call the rule of a number, whatever it asked for. -/
def call (subject : Subject) (visit : ScopedVisit) (traversal : Traversal) (number : Nat) :
    Traversal :=
  match traversal.visitors[number]? with
  | none => traversal
  | some running =>
      let (state, findings) := running.rule.visit subject running.state visit
      { visitors := traversal.visitors.set number ⟨running.rule, state⟩
        errors := traversal.errors ++ findings.map running.rule.report }

/-- Call the rules that a table lists for a visit. -/
def dispatch (subject : Subject) (table : DispatchTable) (traversal : Traversal)
    (visit : ScopedVisit) : Traversal :=
  (table visit.visit.kind).foldl (call subject visit) traversal

end Traversal

/-- What the rules of a plan report in one walk, called as a table says. -/
def Document.traverse (document : Document) (registry : Registry) (plan : List Rule)
    (table : DispatchTable) : List ValidationError :=
  ((document.walk registry).foldl (Traversal.dispatch ⟨registry, document⟩ table)
    { visitors := plan.map Rule.start }).errors

namespace Rule

/-- The rule has nothing to do at nodes of kinds that it did not ask for. -/
private def Covered (rule : Rule) : Prop :=
  ∀ subject state visit, ¬rule.Sees visit → rule.visit subject state visit = (state, [])

/-- Calling a covered rule is the same as showing it the visit. -/
private theorem Covered.step {rule : Rule} (covered : rule.Covered) (subject : Subject)
    (visit : ScopedVisit) (state : rule.State) :
    Running.step subject visit ⟨rule, state⟩ =
      (⟨rule, (rule.visit subject state visit).1⟩,
        (rule.visit subject state visit).2.map rule.report) := by
  by_cases sees : rule.Sees visit
  · exact step_of_sees sees state
  · rw [step_of_not_sees sees, covered subject state visit sees]
    rfl

private theorem Running.step_rule (subject : Subject) (visit : ScopedVisit) (running : Running) :
    (running.step subject visit).1.rule = running.rule := by
  rw [step]
  split <;> rfl

end Rule

private theorem stepAll_rules (subject : Subject) (visit : ScopedVisit)
    (running : List Rule.Running) :
    (stepAll subject visit running).1.map Rule.Running.rule = running.map Rule.Running.rule := by
  simp [stepAll, Rule.Running.step_rule]

namespace Traversal

variable {subject : Subject} {visit : ScopedVisit}

/-- Calling a rule is showing it the visit if it asked for it, or if it is covered. -/
private theorem call_next {before after : List Rule.Running} {running : Rule.Running}
    {errors : List ValidationError}
    (shown : running.rule.Sees visit ∨ running.rule.Covered) :
    call subject visit ⟨before ++ running :: after, errors⟩ before.length =
      ⟨before ++ (running.step subject visit).1 :: after,
        errors ++ (running.step subject visit).2⟩ := by
  have stepped : running.step subject visit =
      (⟨running.rule, (running.rule.visit subject running.state visit).1⟩,
        (running.rule.visit subject running.state visit).2.map running.rule.report) :=
    shown.elim (Rule.step_of_sees · running.state) (·.step subject visit running.state)
  rw [call]
  simp [stepped]

/-- Calling some of the rules in their order is showing the visit to all of them, provided that
those left out did not ask for it, and those called did or are covered. -/
private theorem foldl_call (subject : Subject) (wanted : Rule → Bool) {after : List Rule.Running}
    (called : ∀ running ∈ after, wanted running.rule = true →
      running.rule.Sees visit ∨ running.rule.Covered)
    (spared : ∀ running ∈ after, wanted running.rule = false → ¬running.rule.Sees visit)
    (before : List Rule.Running) (errors : List ValidationError) :
    ((((after.map Rule.Running.rule).zipIdx before.length).filter
        fun entry => wanted entry.1).map Prod.snd).foldl (call subject visit)
          ⟨before ++ after, errors⟩ =
      ⟨before ++ (stepAll subject visit after).1,
        errors ++ (stepAll subject visit after).2⟩ := by
  induction after generalizing before errors with
  | nil => simp [stepAll]
  | cons running after induction =>
      have calledFirst := List.forall_mem_cons.mp called
      have sparedFirst := List.forall_mem_cons.mp spared
      have rest := induction calledFirst.2 sparedFirst.2
        (before ++ [(running.step subject visit).1]) (errors ++ (running.step subject visit).2)
      rw [List.length_append, List.length_singleton, List.append_assoc, List.append_assoc,
        List.append_assoc] at rest
      rw [List.map_cons, List.zipIdx_cons, List.filter_cons]
      cases isWanted : wanted running.rule with
      | true =>
          simp only [if_true, List.map_cons, List.foldl_cons]
          rw [call_next (calledFirst.1 isWanted)]
          exact rest
      | false =>
          have unchanged : running.step subject visit = (running, []) :=
            Rule.step_of_not_sees (sparedFirst.1 isWanted) running.state
          rw [unchanged] at rest
          simp only [Bool.false_eq_true, if_false]
          rw [List.append_nil] at rest
          simpa [stepAll, unchanged] using rest

/-- A traversal with a table that selects rules in this way reports what the plan reports. -/
private theorem foldl_dispatch {plan : List Rule} {table : DispatchTable}
    (wanted : NodeKind → Rule → Bool)
    (lists : ∀ kind,
      table kind = (plan.zipIdx.filter fun entry => wanted kind entry.1).map Prod.snd)
    (called : ∀ visit : ScopedVisit, ∀ rule ∈ plan, wanted visit.visit.kind rule = true →
      rule.Sees visit ∨ rule.Covered)
    (spared : ∀ visit : ScopedVisit, ∀ rule ∈ plan, wanted visit.visit.kind rule = false →
      ¬rule.Sees visit)
    (visits : List ScopedVisit) {running : List Rule.Running}
    (runs : running.map Rule.Running.rule = plan) (errors : List ValidationError) :
    (visits.foldl (dispatch subject table) ⟨running, errors⟩).errors =
      errors ++ runVisits subject visits running := by
  induction visits generalizing running errors with
  | nil => simp [runVisits]
  | cons visit visits induction =>
      have isRule : ∀ one ∈ running, one.rule ∈ plan :=
        fun one member => runs ▸ List.mem_map_of_mem member
      have step := foldl_call subject (wanted visit.visit.kind)
        (fun one member => called visit one.rule (isRule one member))
        (fun one member => spared visit one.rule (isRule one member)) [] errors
      rw [List.nil_append, List.nil_append, List.length_nil, runs, ← lists] at step
      rw [List.foldl_cons, dispatch, step,
        induction ((stepAll_rules subject visit running).trans runs), runVisits, List.append_assoc]

end Traversal

/-! ## The rules of the default plan -/

namespace Rules

private theorem covered_usageRule {α : Type} (code : String) (record? : Scope → Literal → Option α)
    (judge : Subject → Operation → List α → List Finding) :
    (usageRule code record? judge).Covered := by
  rintro subject usages ⟨scope, visit⟩ unseen
  cases visit <;> first | rfl | exact absurd rfl unseen

end Rules

private theorem covered_of_defaultPlan : ∀ rule ∈ defaultPlan, rule.Covered := by
  simp only [defaultPlan, List.forall_mem_cons]
  refine ⟨?_, ?_, ?_, ?_, ?_, ?_, ?_, ?_, ?_, ?_, ?_, ?_, ?_, ?_, Rules.covered_usageRule _ _ _,
    Rules.covered_usageRule _ _ _, ?_, ?_, ?_, ?_, ?_, ?_, Rules.covered_usageRule _ _ _, ?_, ?_⟩
  case refine_22 => exact fun rule member => by cases member
  all_goals
    rintro subject state ⟨scope, visit⟩ unseen
    cases visit <;> first | rfl | exact absurd rfl unseen

/-! ## Some of the rules -/

private theorem runVisits_nil (subject : Subject) (visits : List ScopedVisit) :
    runVisits subject visits [] = [] := by
  induction visits with
  | nil => rfl
  | cons visit visits induction => exact induction

private theorem validate_eq (document : Document) (registry : Registry) (plan : List Rule) :
    document.validate registry plan =
      runVisits ⟨registry, document⟩ (document.walk registry) (plan.map Rule.start) := by
  rw [validate_eq_walk]
  cases plan with
  | nil => exact (runVisits_nil _ _).symm
  | cons rule rules => rfl

private theorem Rule.Running.code_step {subject : Subject} {visit : ScopedVisit} {running : Running}
    {error : ValidationError} (reported : error ∈ (running.step subject visit).2) :
    error.code = running.rule.code := by
  rw [step] at reported
  split at reported
  · rcases List.mem_map.mp reported with ⟨finding, _, isError⟩
    rw [← isError]
    rfl
  · cases reported

private theorem stepAll_filter (subject : Subject) (visit : ScopedVisit) (keep : String → Bool)
    (running : List Rule.Running) :
    ((stepAll subject visit running).1.filter fun one => keep one.rule.code) =
        (stepAll subject visit (running.filter fun one => keep one.rule.code)).1 ∧
      ((stepAll subject visit running).2.filter fun error => keep error.code) =
        (stepAll subject visit (running.filter fun one => keep one.rule.code)).2 := by
  induction running with
  | nil => exact ⟨rfl, rfl⟩
  | cons one others induction =>
      have reported : ((one.step subject visit).2.filter fun error => keep error.code) =
          if keep one.rule.code then (one.step subject visit).2 else [] := by
        split
        · rename_i kept
          exact List.filter_eq_self.mpr fun error member =>
            Rule.Running.code_step member ▸ kept
        · rename_i dropped
          exact List.filter_eq_nil_iff.mpr fun error member =>
            Rule.Running.code_step member ▸ dropped
      simp only [stepAll, List.map_cons, List.flatMap_cons, List.filter_append,
        List.filter_cons, Rule.Running.step_rule] at induction reported ⊢
      rw [induction.1, induction.2, reported]
      split <;> simp

private theorem runVisits_filter (subject : Subject) (visits : List ScopedVisit)
    (keep : String → Bool) (running : List Rule.Running) :
    ((runVisits subject visits running).filter fun error => keep error.code) =
      runVisits subject visits (running.filter fun one => keep one.rule.code) := by
  induction visits generalizing running with
  | nil => rfl
  | cons visit visits induction =>
      have step := stepAll_filter subject visit keep running
      rw [runVisits, runVisits, List.filter_append, induction, step.1, step.2]

private theorem validate_filter (document : Document) (registry : Registry) (plan : List Rule)
    (keep : String → Bool) :
    ((document.validate registry plan).filter fun error => keep error.code) =
      document.validate registry (plan.filter fun rule => keep rule.code) := by
  rw [validate_eq, validate_eq, runVisits_filter, List.filter_map]
  rfl

private theorem filter_code_eq {plan : List Rule} (distinct : (plan.map Rule.code).Nodup)
    {rule : Rule}
    (member : rule ∈ plan) : (plan.filter fun other => other.code == rule.code) = [rule] := by
  induction plan with
  | nil => cases member
  | cons head tail induction =>
      have parts := List.nodup_cons.mp distinct
      rw [List.filter_cons]
      rcases List.mem_cons.mp member with equal | later
      · subst equal
        rw [if_pos (beq_self_eq_true _), List.filter_eq_nil_iff.mpr]
        intro other listed same
        exact parts.1 (List.mem_map.mpr ⟨other, listed, beq_iff_eq.mp same⟩)
      · have different : head.code ≠ rule.code :=
          fun same => parts.1 (same ▸ List.mem_map_of_mem later)
        rw [if_neg (by simpa using different)]
        exact induction parts.2 later

/-- The rules of a plan are independent of each other and of how they are called. Each reports what
it would report alone. Calling rules at the nodes that they ask for, by a table, reports the same as
calling all of them everywhere. And switching rules off by their codes takes away what they report,
and nothing else. -/
theorem Document.rules_independent (document : Document) (registry : Registry) (plan : List Rule)
    (known : ∀ rule ∈ plan, rule ∈ defaultPlan) (distinct : (plan.map Rule.code).Nodup) :
    (∀ rule ∈ plan,
      ((document.validate registry plan).filter fun error => error.code == rule.code) =
        document.validate registry [rule]) ∧
    (document.traverse registry plan (.ofPlan plan) = document.validate registry plan ∧
      document.traverse registry plan (.full plan) = document.validate registry plan) ∧
    ∀ settings : ValidationSettings, settings.enabled = true →
      document.validate registry (settings.configure plan) =
        (document.validate registry plan).filter fun error => settings.allows error.code := by
  have runs : (plan.map Rule.start).map Rule.Running.rule = plan := by
    rw [List.map_map]
    exact List.map_id plan
  refine ⟨fun rule member => ?_, ⟨?_, ?_⟩, fun settings enabled => ?_⟩
  · rw [validate_filter document registry plan fun code => code == rule.code,
      filter_code_eq distinct member]
  · rw [traverse, validate_eq]
    exact Traversal.foldl_dispatch (fun kind rule => rule.interests.contains kind)
      (DispatchTable.ofPlan_eq plan) (fun _ _ _ asked => .inl asked)
      (fun _ _ _ notAsked => Bool.not_eq_true _ ▸ notAsked) _ runs []
  · rw [traverse, validate_eq]
    exact Traversal.foldl_dispatch (fun _ _ => true) (DispatchTable.full_eq plan)
      (fun _ rule member _ => .inr (covered_of_defaultPlan rule (known rule member)))
      (fun _ _ _ impossible => by cases impossible) _ runs []
  · rw [validate_filter, ValidationSettings.configure, if_pos enabled]

namespace Stray

/-! A query with a variable of an unknown type, which it does not use, and an unknown fragment. -/

def query : NamedType where
  key := .custom 0
  name := "Query"
  shape := .object { fields := [{ name := "name", type := .named "String" }] }

def registry : Registry := ⟨Scalar.all ++ [query], query, none, none, [], []⟩

def document : Document where
  definitions :=
    [.operation ⟨⟨1, 1⟩, .query, none, [⟨⟨1, 7⟩, "size", .named "Size", none⟩], [],
      [.field ⟨⟨1, 22⟩, none, "name", [], [], []⟩, .spread ⟨⟨1, 30⟩, "Rest", []⟩]⟩]

def plan : List Rule := [Rules.noUnusedVariables, Rules.knownFragmentNames, Rules.knownTypeNames]

private theorem plan_known : ∀ rule ∈ plan, rule ∈ defaultPlan := by
  simp [plan, defaultPlan]

end Stray

/-- Reports come in the order of the walk, and two of three are left when one rule is off. -/
theorem Document.rules_independent_of_stray :
    (∀ rule ∈ Stray.plan, rule ∈ defaultPlan) ∧ (Stray.plan.map Rule.code).Nodup ∧
      (Stray.document.validate Stray.registry Stray.plan).map ValidationError.code =
        ["KNOWN_TYPE_NAMES", "KNOWN_FRAGMENT_NAMES", "NO_UNUSED_VARIABLES"] ∧
      (Stray.document.traverse Stray.registry Stray.plan (.ofPlan Stray.plan)).map
          ValidationError.code = ["KNOWN_TYPE_NAMES", "KNOWN_FRAGMENT_NAMES", "NO_UNUSED_VARIABLES"] ∧
      (Stray.document.validate Stray.registry
          (ValidationSettings.configure { disabledRules := ["known_Fragment_Names"] }
            Stray.plan)).map ValidationError.code = ["KNOWN_TYPE_NAMES", "NO_UNUSED_VARIABLES"] := by
  have distinct : (Stray.plan.map Rule.code).Nodup := by decide
  have reported : (Stray.document.validate Stray.registry Stray.plan).map ValidationError.code =
      ["KNOWN_TYPE_NAMES", "KNOWN_FRAGMENT_NAMES", "NO_UNUSED_VARIABLES"] := rfl
  rcases Document.rules_independent Stray.document Stray.registry Stray.plan Stray.plan_known
    distinct with ⟨_, ⟨byTable, _⟩, configured⟩
  refine ⟨Stray.plan_known, distinct, reported, byTable ▸ reported, ?_⟩
  rw [configured _ rfl]
  rfl

end GraphQL
