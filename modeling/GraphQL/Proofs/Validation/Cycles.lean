import GraphQL.Proofs.Document.Nesting
import GraphQL.Proofs.Validation.Inputs
import Mathlib.Data.Finset.Card

/-!
The search for cycles of fragments. A fragment is settled when it was looked at and is no longer
open; settled fragments lead to settled ones only, and never back to themselves. Where the rule
about cycles reports nothing all fragments get settled, so the document has no cycle.
-/

namespace GraphQL

/-! ## Rules that are shown fragments only -/

/-- What the walk shows of a fragment to a rule that asks for fragments only. -/
def Walk.fragmentBounds (registry : Registry) (fragment : Fragment) : List ScopedVisit :=
  let inside : Scope :=
    { type := outputType? registry (.named fragment.condition), position := fragment.position }
  [⟨inside, .enterFragment fragment⟩, ⟨inside, .leaveFragment fragment⟩]

namespace Rule

variable {subject : Subject} {rule : Rule} {visits : List ScopedVisit}

private theorem run_filter (asked : ScopedVisit → Bool)
    (unseen : ∀ visit ∈ visits, asked visit = false → ¬rule.Sees visit) (state : rule.State) :
    runVisits subject visits [⟨rule, state⟩] =
      runVisits subject (visits.filter asked) [⟨rule, state⟩] := by
  induction visits generalizing state with
  | nil => rfl
  | cons visit visits induction =>
      have parts := List.forall_mem_cons.mp unseen
      rw [List.filter_cons]
      split
      · rw [runVisits_one, runVisits_one]
        by_cases sees : rule.Sees visit
        · rw [step_of_sees sees, induction parts.2]
        · rw [step_of_not_sees sees, induction parts.2]
      · rename_i isDropped
        rw [runVisits_one, step_of_not_sees (parts.1 (by simpa using isDropped))]
        exact induction parts.2 state

private theorem filter_inner {visits : List ScopedVisit} (inner : Walk.Each Visit.IsInner visits) :
    visits.filter (fun visit => visit.visit.kind == .fragment) = [] := by
  apply List.filter_eq_nil_iff.mpr
  intro visit member isFragment
  have notBound := inner visit member
  rw [Visit.IsInner, beq_iff_eq.mp isFragment] at notBound
  cases notBound

private theorem filter_definition (registry : Registry) (definition : Definition) :
    (Walk.definition registry definition).filter (fun visit => visit.visit.kind == .fragment) =
      match definition with
      | .operation _ => []
      | .fragment fragment => Walk.fragmentBounds registry fragment := by
  cases definition with
  | operation operation =>
      rw [Walk.definition, Walk.operation]
      simp only [List.filter_cons, List.filter_append,
        filter_inner (Rules.inner_variableDefinitions _ _),
        filter_inner (Rules.inner_directives _ _ _), filter_inner (Rules.inner_selectionSet _ _ _)]
      rfl
  | fragment fragment =>
      rw [Walk.definition, Walk.fragment]
      simp only [List.filter_cons, List.filter_append, filter_inner (Rules.inner_directives _ _ _),
        filter_inner (Rules.inner_selectionSet _ _ _)]
      rfl

private theorem filter_walk (document : Document) (registry : Registry) :
    (document.walk registry).filter (fun visit => visit.visit.kind == .fragment) =
      document.fragments.flatMap (Walk.fragmentBounds registry) := by
  rw [Document.walk, List.filter_cons_of_neg Bool.false_ne_true, List.filter_append,
    List.filter_cons_of_neg Bool.false_ne_true, List.filter_nil, List.append_nil,
    Document.fragments]
  induction document.definitions with
  | nil => rfl
  | cons definition definitions induction =>
      rw [List.flatMap_cons, List.filter_append, filter_definition, induction]
      cases definition with
      | operation operation => rfl
      | fragment fragment => rfl

/-- A rule that asks for fragments only is shown each of them in order. -/
theorem run_fragments (asks : rule.interests = [.fragment]) {document : Document}
    {registry : Registry} (state : rule.State) :
    runVisits subject (document.walk registry) [⟨rule, state⟩] =
      runVisits subject (document.fragments.flatMap (Walk.fragmentBounds registry))
        [⟨rule, state⟩] := by
  rw [← filter_walk]
  apply run_filter
  intro visit _ isOther sees
  rw [Sees, asks, List.contains_cons, List.contains_nil, Bool.or_false, isOther] at sees
  cases sees

end Rule

namespace Rules

variable {document : Document} {registry : Registry}

private theorem noted_of_fragments {subject : Subject} {fragments : List Fragment}
    {known : FirstPositions}
    (silent : runVisits subject (fragments.flatMap (Walk.fragmentBounds registry))
      [⟨uniqueFragmentNames, known⟩] = []) :
    (Named.names fragments).Nodup ∧
      ∀ name ∈ Named.names fragments, name ∉ Named.names known := by
  induction fragments generalizing known with
  | nil => exact ⟨List.nodup_nil, nofun⟩
  | cons head tail induction =>
      have seesIn (scope : Scope) : uniqueFragmentNames.Sees ⟨scope, .enterFragment head⟩ := rfl
      have seesOut (scope : Scope) : uniqueFragmentNames.Sees ⟨scope, .leaveFragment head⟩ := rfl
      have entered := Rule.quiet_step (seesIn _) silent
      rcases noteName_silent entered.1 with ⟨new, noted⟩
      have rest := induction (Rule.quiet_step (seesOut _) entered.2).2
      exact distinct_cons new rest.1 (noted ▸ rest.2)

private theorem fragments_distinct
    (silent : document.validate registry [uniqueFragmentNames] = []) :
    (Named.names document.fragments).Nodup := by
  rw [validate_one, Rule.start, Rule.run_fragments rfl] at silent
  exact (noted_of_fragments silent).1

end Rules

/-! ## The search -/

namespace CycleSearch

open Rules

variable {document : Document} {opened visited : List String} {fragment : Fragment}
  {path : List FragmentSpread} {entered : List (String × Nat)} {depth : Nat}

/-- The search at a spread of the innermost open fragment. -/
def follow (document : Document) (depth : Nat) (path : List FragmentSpread)
    (entered : List (String × Nat)) (state : List String × List Finding)
    (spread : FragmentSpread) : List String × List Finding :=
  match Named.value? entered spread.name with
  | some index => (state.1, state.2 ++ [cycleFinding (path.drop index) spread])
  | none =>
      match document.fragment? spread.name with
      | none => state
      | some target =>
          let (visited, found) :=
            detectCycles document depth (path ++ [spread]) entered state.1 target
          (visited, state.2 ++ found)

theorem detectCycles_seen (seen : fragment.name ∈ visited) :
    detectCycles document (depth + 1) path entered visited fragment = (visited, []) := by
  rw [detectCycles, if_pos (List.contains_iff_mem.mpr seen)]

theorem detectCycles_new (new : fragment.name ∉ visited) :
    detectCycles document (depth + 1) path entered visited fragment =
      (spreadsOf fragment.selections).foldl
        (follow document depth path ((fragment.name, path.length) :: entered))
        (visited ++ [fragment.name], []) := by
  rw [detectCycles, if_neg (mt List.contains_iff_mem.mp new)]
  rfl

/-- A fragment was looked at and is not open. -/
private def Settled (opened visited : List String) (name : String) : Prop :=
  name ∈ visited ∧ name ∉ opened

/-- What was settled, or need not be: there is nothing to look at under the name. -/
private def Dealt (document : Document) (opened visited : List String) (name : String) : Prop :=
  document.fragment? name = none ∨ Settled opened visited name

private theorem Dealt.settled {name target : String} (dealt : Dealt document opened visited name)
    (spreads : document.SpreadsTo name target) : Settled opened visited name := by
  rcases dealt with undefined | settled
  · rcases spreads with ⟨fragment, found, _⟩
    rw [undefined] at found
    cases found
  · exact settled

/-- What is settled leads to what was dealt with, and never back to itself. -/
structure Orderly (document : Document) (opened visited : List String) : Prop where
  closed : ∀ {name target}, Settled opened visited name → document.SpreadsTo name target →
    Dealt document opened visited target
  acyclic : ∀ {name}, Settled opened visited name →
    ¬Relation.TransGen document.SpreadsTo name name

private theorem orderly_start (document : Document) : Orderly document [] [] :=
  ⟨fun settled => (List.not_mem_nil settled.1).elim,
    fun settled => (List.not_mem_nil settled.1).elim⟩

namespace Orderly

private theorem dealt_of_reaches (orderly : Orderly document opened visited) {name target : String}
    (dealt : Dealt document opened visited name)
    (reaches : Relation.ReflTransGen document.SpreadsTo name target) :
    Dealt document opened visited target := by
  induction reaches with
  | refl => exact dealt
  | tail _ spreads induction => exact orderly.closed (induction.settled spreads) spreads

private theorem enter (orderly : Orderly document opened visited) {name : String}
    (new : name ∉ visited) :
    Orderly document (name :: opened) (visited ++ [name]) := by
  have settled : ∀ {other}, Settled opened visited other →
      Settled (name :: opened) (visited ++ [name]) other := by
    intro other isSettled
    have different : other ≠ name := fun same => new (same ▸ isSettled.1)
    exact ⟨List.mem_append_left _ isSettled.1,
      List.not_mem_cons_of_ne_of_not_mem different isSettled.2⟩
  have before : ∀ {other}, Settled (name :: opened) (visited ++ [name]) other →
      Settled opened visited other := by
    intro other isSettled
    have different := List.ne_of_not_mem_cons isSettled.2
    rcases List.mem_append.mp isSettled.1 with listed | added
    · exact ⟨listed, List.not_mem_of_not_mem_cons isSettled.2⟩
    · exact absurd (List.mem_singleton.mp added) different
  exact ⟨fun isSettled spreads => (orderly.closed (before isSettled) spreads).imp_right settled,
    fun isSettled => orderly.acyclic (before isSettled)⟩

/-- The innermost open fragment is settled once its spreads were dealt with. It does not lead back
to itself, since what it leads to was settled while it was open. -/
private theorem leave {name : String} (orderly : Orderly document (name :: opened) visited)
    (listed : name ∈ visited) (fresh : name ∉ opened)
    (dealt : ∀ {target}, document.SpreadsTo name target →
      Dealt document (name :: opened) visited target) :
    Orderly document opened visited ∧ Settled opened visited name := by
  have settled : ∀ {other}, Settled (name :: opened) visited other →
      Settled opened visited other :=
    fun isSettled => ⟨isSettled.1, List.not_mem_of_not_mem_cons isSettled.2⟩
  have cases : ∀ {other}, Settled opened visited other →
      other = name ∨ Settled (name :: opened) visited other := by
    intro other isSettled
    by_cases same : other = name
    · exact .inl same
    · exact .inr ⟨isSettled.1, List.not_mem_cons_of_ne_of_not_mem same isSettled.2⟩
  refine ⟨⟨?_, ?_⟩, listed, fresh⟩
  · intro other target isSettled spreads
    rcases cases isSettled with equal | before
    · exact (dealt (equal ▸ spreads)).imp_right settled
    · exact (orderly.closed before spreads).imp_right settled
  · intro other isSettled cycle
    rcases cases isSettled with equal | before
    · subst equal
      rcases Relation.TransGen.head'_iff.mp cycle with ⟨next, spreads, back⟩
      have again := (orderly.dealt_of_reaches (dealt spreads) back).settled spreads
      exact again.2 List.mem_cons_self
    · exact orderly.acyclic before cycle

end Orderly

/-! ## A search that finds nothing -/

/-- The fragments that were not looked at. -/
def unseen (document : Document) (visited : List String) : Finset String :=
  (Named.names document.fragments).toFinset.filter (· ∉ visited)

theorem unseen_mono {before after : List String} (grows : before ⊆ after) :
    unseen document after ⊆ unseen document before := by
  intro name member
  rw [unseen, Finset.mem_filter] at member ⊢
  exact ⟨member.1, fun seen => member.2 (grows seen)⟩

/-- Entering a fragment needs one level of depth. -/
theorem unseen_enter {name : String} (isFragment : name ∈ Named.names document.fragments)
    (new : name ∉ visited) {depth : Nat} (enough : (unseen document visited).card < depth + 1) :
    (unseen document (visited ++ [name])).card < depth := by
  refine (Finset.card_lt_card ?_).trans_le (Nat.le_of_lt_succ enough)
  refine ⟨unseen_mono (List.subset_append_left _ _), fun same => ?_⟩
  have before : name ∈ unseen document visited :=
    Finset.mem_filter.mpr ⟨List.mem_toFinset.mpr isFragment, new⟩
  exact (Finset.mem_filter.mp (same before)).2 (List.mem_append_right _ List.mem_cons_self)

theorem unseen_card (document : Document) (visited : List String) :
    (unseen document visited).card < document.fragments.length + 1 := by
  have some : (unseen document visited).card ≤ (Named.names document.fragments).toFinset.card :=
    Finset.card_filter_le _ _
  have all := List.toFinset_card_le (Named.names document.fragments)
  rw [Named.names, List.length_map] at all
  exact Nat.lt_succ_of_le (some.trans all)

/-- What a search for some fragments comes to that finds nothing. -/
structure Quiet (document : Document) (opened before after names : List String) : Prop where
  orderly : Orderly document opened after
  grows : before ⊆ after
  dealt : ∀ name ∈ names, Dealt document opened after name

private theorem Quiet.cons {before between after names : List String} {name : String}
    (here : Quiet document opened before between [name])
    (later : Quiet document opened between after names) :
    Quiet document opened before after (name :: names) := by
  refine ⟨later.orderly, List.Subset.trans here.grows later.grows, ?_⟩
  apply List.forall_mem_cons.mpr ⟨?_, later.dealt⟩
  exact (here.dealt name List.mem_cons_self).imp_right fun settled =>
    ⟨later.grows settled.1, settled.2⟩

private theorem findings_follow (state : List String × List Finding) (spread : FragmentSpread) :
    state.2 ⊆ (follow document depth path entered state spread).2 := by
  rw [follow]
  split
  · exact List.subset_append_left _ _
  · split
    · exact List.Subset.refl _
    · exact List.subset_append_left _ _

private theorem findings_foldl (spreads : List FragmentSpread)
    (state : List String × List Finding) :
    state.2 ⊆ (spreads.foldl (follow document depth path entered) state).2 := by
  induction spreads generalizing state with
  | nil => exact List.Subset.refl _
  | cons spread spreads induction =>
      exact List.Subset.trans (findings_follow state spread) (induction _)

/-- A search from a fragment that is not open, with depth enough for all that were not looked at. -/
private def Sound (document : Document) (depth : Nat) : Prop :=
  ∀ path entered visited fragment, Orderly document (Named.names entered) visited →
    fragment.name ∉ Named.names entered → document.fragment? fragment.name = some fragment →
    (unseen document visited).card < depth →
    (detectCycles document depth path entered visited fragment).2 = [] →
    Quiet document (Named.names entered) visited
      (detectCycles document depth path entered visited fragment).1 [fragment.name]

private theorem follow_quiet (sound : Sound document depth) {findings : List Finding}
    (orderly : Orderly document (Named.names entered) visited)
    (enough : (unseen document visited).card < depth) {spread : FragmentSpread}
    (silent : (follow document depth path entered (visited, findings) spread).2 = []) :
    Quiet document (Named.names entered) visited
      (follow document depth path entered (visited, findings) spread).1 [spread.name] := by
  rw [follow] at silent ⊢
  cases isOpen : Named.value? entered spread.name with
  | some index =>
      rw [isOpen] at silent
      exact absurd silent (List.append_ne_nil_of_right_ne_nil _ (List.cons_ne_nil _ _))
  | none =>
      rw [isOpen] at silent
      cases found : document.fragment? spread.name with
      | none => exact ⟨orderly, List.Subset.refl _, by simpa using .inl found⟩
      | some target =>
          rw [found] at silent
          have sameName : target.name = spread.name := (Document.fragment?_mem found).2
          rw [← sameName] at isOpen found ⊢
          exact sound _ _ _ _ orderly (Named.value?_eq_none.mp isOpen) found enough
            (List.append_eq_nil_iff.mp silent).2

private theorem foldl_quiet (sound : Sound document depth) {spreads : List FragmentSpread}
    {findings : List Finding} (orderly : Orderly document (Named.names entered) visited)
    (enough : (unseen document visited).card < depth)
    (silent : (spreads.foldl (follow document depth path entered) (visited, findings)).2 = []) :
    Quiet document (Named.names entered) visited
      (spreads.foldl (follow document depth path entered) (visited, findings)).1
      (spreads.map FragmentSpread.name) := by
  induction spreads generalizing visited findings with
  | nil => exact ⟨orderly, List.Subset.refl _, nofun⟩
  | cons spread spreads induction =>
      have noneHere : (follow document depth path entered (visited, findings) spread).2 = [] :=
        List.eq_nil_of_subset_nil (silent ▸ findings_foldl spreads _)
      have here := follow_quiet sound orderly enough noneHere
      have stillEnough := (Finset.card_le_card (unseen_mono here.grows)).trans_lt enough
      exact here.cons (induction here.orderly stillEnough silent)

private theorem sound (document : Document) : ∀ depth, Sound document depth
  | 0 => fun _ _ _ _ _ _ _ enough => absurd enough (Nat.not_lt_zero _)
  | depth + 1 => by
      intro path entered visited fragment orderly notOpen found enough silent
      by_cases seen : fragment.name ∈ visited
      · rw [detectCycles_seen seen]
        exact ⟨orderly, List.Subset.refl _, by simpa using .inr ⟨seen, notOpen⟩⟩
      · rw [detectCycles_new seen] at silent ⊢
        have isFragment : fragment.name ∈ Named.names document.fragments :=
          List.mem_map_of_mem (Document.fragment?_mem found).1
        have fewer : (unseen document (visited ++ [fragment.name])).card < depth :=
          unseen_enter isFragment seen enough
        have start : Orderly document (Named.names ((fragment.name, path.length) :: entered))
            (visited ++ [fragment.name]) := orderly.enter seen
        have quiet : Quiet document (fragment.name :: Named.names entered) _ _ _ :=
          foldl_quiet (sound document depth) start fewer silent
        have listed := quiet.grows (List.mem_append_right visited List.mem_cons_self)
        have left := quiet.orderly.leave listed notOpen (by
          rintro target ⟨other, foundOther, spread, spreads, isTarget⟩
          rw [found] at foundOther
          cases foundOther
          exact quiet.dealt target (isTarget ▸ List.mem_map_of_mem spreads))
        exact ⟨left.1, List.Subset.trans (List.subset_append_left _ _) quiet.grows,
          by simpa using .inr left.2⟩

/-- The search goes from fragment to fragment and keeps what it has visited. -/
private theorem visits_quiet {subject : Subject} {registry : Registry} {fragments : List Fragment}
    (found : ∀ fragment ∈ fragments, subject.document.fragment? fragment.name = some fragment)
    {visited : List String} (orderly : Orderly subject.document [] visited)
    (silent : runVisits subject (fragments.flatMap (Walk.fragmentBounds registry))
      [⟨noFragmentCycles, visited⟩] = []) :
    ∃ final, Quiet subject.document [] visited final (Named.names fragments) := by
  induction fragments generalizing visited with
  | nil => exact ⟨visited, orderly, List.Subset.refl _, nofun⟩
  | cons head tail induction =>
      have parts := List.forall_mem_cons.mp found
      have seesIn (scope : Scope) : noFragmentCycles.Sees ⟨scope, .enterFragment head⟩ := rfl
      have seesOut (scope : Scope) : noFragmentCycles.Sees ⟨scope, .leaveFragment head⟩ := rfl
      have entered := Rule.quiet_step (seesIn _) silent
      have here : Quiet subject.document [] visited _ [head.name] :=
        sound subject.document _ [] [] visited head orderly List.not_mem_nil parts.1
          (unseen_card subject.document visited) entered.1
      rcases induction parts.2 here.orderly (Rule.quiet_step (seesOut _) entered.2).2 with
        ⟨final, later⟩
      exact ⟨final, here.cons later⟩

end CycleSearch

/-- A document whose fragments have different names has no cycle of fragments if the rule about
cycles reports nothing. -/
theorem Document.acyclic_of_quiet {document : Document} {registry : Registry}
    (distinct : (Named.names document.fragments).Nodup)
    (silent : document.validate registry [Rules.noFragmentCycles] = []) : document.Acyclic := by
  rw [validate_one, Rule.start, Rule.run_fragments rfl] at silent
  rcases CycleSearch.visits_quiet (fun _ => fragment?_of_mem distinct)
    (CycleSearch.orderly_start document) silent with ⟨final, quiet⟩
  intro name cycle
  rcases Relation.TransGen.head'_iff.mp cycle with ⟨_, spreads, _⟩
  have isName : name ∈ Named.names document.fragments := by
    rcases spreads with ⟨fragment, isFragment, _⟩
    have listed := fragment?_mem isFragment
    exact List.mem_map.mpr ⟨fragment, listed.1, listed.2⟩
  exact quiet.orderly.acyclic ((quiet.dealt name isName).settled spreads) cycle

/-- A document about whose fragments two rules report nothing has no cycle of fragments. -/
theorem Document.acyclic_of_silent {document : Document} {registry : Registry}
    (distinct : document.validate registry [Rules.uniqueFragmentNames] = [])
    (silent : document.validate registry [Rules.noFragmentCycles] = []) : document.Acyclic :=
  acyclic_of_quiet (Rules.fragments_distinct distinct) silent

end GraphQL
