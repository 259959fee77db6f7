import GraphQL.Proofs.Validation.Cycles

/-!
What the search for cycles of fragments comes to. On its path it knows where each open fragment was
entered, so a spread of an open fragment closes a walk that starts and ends there. It looks at each
fragment once and comes to an end.
-/

namespace GraphQL

namespace Document

/-- Spreads that lead from one fragment to another. Each stands in the fragment reached so far. -/
inductive Walks (document : Document) : String → List FragmentSpread → String → Prop
  | here (name : String) : Walks document name [] name
  | step {name target : String} {fragment : Fragment} {spread : FragmentSpread}
      {spreads : List FragmentSpread} (found : document.fragment? name = some fragment)
      (member : spread ∈ spreadsOf fragment.selections)
      (onward : Walks document spread.name spreads target) :
      Walks document name (spread :: spreads) target

variable {document : Document} {start name : String} {fragment : Fragment}
  {spread : FragmentSpread} {spreads : List FragmentSpread}

private theorem Walks.further (walks : document.Walks start spreads name)
    (found : document.fragment? name = some fragment)
    (member : spread ∈ spreadsOf fragment.selections) :
    document.Walks start (spreads ++ [spread]) spread.name := by
  induction walks with
  | here name => exact .step found member (.here spread.name)
  | step foundHere memberHere _ induction => exact .step foundHere memberHere (induction found)

private theorem Walks.reaches (walks : document.Walks start spreads name) :
    Relation.ReflTransGen document.SpreadsTo start name := by
  induction walks with
  | here name => exact .refl
  | step found member _ induction => exact .head ⟨_, found, _, member, rfl⟩ induction

private theorem Walks.cycle (walks : document.Walks name spreads name) (some : spreads ≠ []) :
    Relation.TransGen document.SpreadsTo name name := by
  cases walks with
  | here => exact absurd rfl some
  | step found member onward => exact .head' ⟨_, found, _, member, rfl⟩ onward.reaches

end Document

namespace CycleSearch

open Rules

/-! ## The search without a bound -/

/-- How the search goes through spreads of the innermost open fragment. `path` holds the spreads
that lead there and `entered` the length of the path at which each open fragment was entered; they
are cut where a cycle is closed. Then come what was visited before, the spreads, what is visited
after them and what is found. -/
inductive Searches (document : Document) : List FragmentSpread → List (String × Nat) →
    List String → List FragmentSpread → List String → List Finding → Prop
  | done {path : List FragmentSpread} {entered : List (String × Nat)} {visited : List String} :
      Searches document path entered visited [] visited []
  | closes {path spreads : List FragmentSpread} {entered : List (String × Nat)}
      {visited after : List String} {spread : FragmentSpread} {index : Nat}
      {findings : List Finding} (isOpen : Named.value? entered spread.name = some index)
      (inRange : index ≤ path.length)
      (later : Searches document path entered visited spreads after findings) :
      Searches document path entered visited (spread :: spreads) after
        (cycleFinding (path.drop index) spread :: findings)
  | undefined {path spreads : List FragmentSpread} {entered : List (String × Nat)}
      {visited after : List String} {spread : FragmentSpread} {findings : List Finding}
      (notOpen : Named.value? entered spread.name = none)
      (missing : document.fragment? spread.name = none)
      (later : Searches document path entered visited spreads after findings) :
      Searches document path entered visited (spread :: spreads) after findings
  | seen {path spreads : List FragmentSpread} {entered : List (String × Nat)}
      {visited after : List String} {spread : FragmentSpread} {target : Fragment}
      {findings : List Finding} (notOpen : Named.value? entered spread.name = none)
      (found : document.fragment? spread.name = some target) (seen : target.name ∈ visited)
      (later : Searches document path entered visited spreads after findings) :
      Searches document path entered visited (spread :: spreads) after findings
  | enters {path spreads : List FragmentSpread} {entered : List (String × Nat)}
      {visited between after : List String} {spread : FragmentSpread} {target : Fragment}
      {inner findings : List Finding} (notOpen : Named.value? entered spread.name = none)
      (found : document.fragment? spread.name = some target) (new : target.name ∉ visited)
      (inside : Searches document (path ++ [spread]) ((target.name, path.length + 1) :: entered)
        (visited ++ [target.name]) (spreadsOf target.selections) between inner)
      (later : Searches document path entered between spreads after findings) :
      Searches document path entered visited (spread :: spreads) after (inner ++ findings)

/-- The search from one fragment after another, each from an empty path. -/
inductive Sweeps (document : Document) : List String → List Fragment → List String →
    List Finding → Prop
  | done {visited : List String} : Sweeps document visited [] visited []
  | seen {visited after : List String} {fragment : Fragment} {fragments : List Fragment}
      {findings : List Finding} (seen : fragment.name ∈ visited)
      (later : Sweeps document visited fragments after findings) :
      Sweeps document visited (fragment :: fragments) after findings
  | enters {visited between after : List String} {fragment : Fragment}
      {fragments : List Fragment} {inner findings : List Finding} (new : fragment.name ∉ visited)
      (inside : Searches document [] [(fragment.name, 0)] (visited ++ [fragment.name])
        (spreadsOf fragment.selections) between inner)
      (later : Sweeps document between fragments after findings) :
      Sweeps document visited (fragment :: fragments) after (inner ++ findings)

variable {document : Document} {visited after : List String} {fragment : Fragment} {name : String}
  {path spreads : List FragmentSpread} {spread : FragmentSpread} {entered : List (String × Nat)}
  {findings : List Finding} {depth : Nat}

private theorem Searches.grows
    (searches : Searches document path entered visited spreads after findings) :
    visited ⊆ after := by
  induction searches with
  | done => exact List.Subset.refl _
  | closes _ _ _ induction => exact induction
  | undefined _ _ _ induction => exact induction
  | seen _ _ _ _ induction => exact induction
  | enters _ _ _ _ _ inside later =>
      exact List.Subset.trans (List.subset_append_left _ _) (List.Subset.trans inside later)

/-- From the place of each open fragment on the path the spreads lead to the innermost one. -/
private def Tracks (document : Document) (path : List FragmentSpread)
    (entered : List (String × Nat)) (name : String) : Prop :=
  ∀ opened index, Named.value? entered opened = some index →
    index ≤ path.length ∧ document.Walks opened (path.drop index) name

private theorem tracks_start (document : Document) (name : String) :
    Tracks document [] [(name, 0)] name := by
  intro opened index isOpen
  rw [Named.value?_cons] at isOpen
  split at isOpen
  · rename_i same
    cases isOpen
    exact ⟨Nat.le_refl 0, same ▸ .here name⟩
  · cases isOpen

/-- Where a spread leads to a fragment, that becomes the innermost one. -/
private theorem Tracks.enter (tracks : Tracks document path entered name)
    (found : document.fragment? name = some fragment)
    (member : spread ∈ spreadsOf fragment.selections) {target : Fragment}
    (isTarget : document.fragment? spread.name = some target) :
    Tracks document (path ++ [spread]) ((target.name, path.length + 1) :: entered) target.name ∧
      document.fragment? target.name = some target := by
  rw [(Document.fragment?_mem isTarget).2]
  refine ⟨fun opened index isOpen => ?_, isTarget⟩
  rw [List.length_append, List.length_singleton]
  rw [Named.value?_cons] at isOpen
  split at isOpen
  · rename_i same
    cases isOpen
    refine ⟨Nat.le_refl _, ?_⟩
    rw [List.drop_of_length_le (by simp), ← same]
    exact .here spread.name
  · have earlier := tracks opened index isOpen
    refine ⟨Nat.le_succ_of_le earlier.1, ?_⟩
    rw [List.drop_append_of_le_length earlier.1]
    exact earlier.2.further found member

private theorem follow_open {index : Nat} (isOpen : Named.value? entered spread.name = some index)
    (state : List String × List Finding) :
    follow document depth path entered state spread =
      (state.1, state.2 ++ [cycleFinding (path.drop index) spread]) := by
  rw [follow, isOpen]

private theorem follow_undefined (notOpen : Named.value? entered spread.name = none)
    (missing : document.fragment? spread.name = none) (state : List String × List Finding) :
    follow document depth path entered state spread = state := by
  rw [follow, notOpen]
  simp only [missing]

private theorem follow_found (notOpen : Named.value? entered spread.name = none) {target : Fragment}
    (found : document.fragment? spread.name = some target) (state : List String × List Finding) :
    follow document depth path entered state spread =
      ((detectCycles document depth (path ++ [spread]) entered state.1 target).1,
        state.2 ++ (detectCycles document depth (path ++ [spread]) entered state.1 target).2) := by
  rw [follow, notOpen]
  simp only [found]

/-- The search with depth enough for all that was not looked at goes as without a bound. -/
private theorem searches_foldl (tracks : Tracks document path entered name)
    (found : document.fragment? name = some fragment)
    (inside : spreads ⊆ spreadsOf fragment.selections)
    (enough : (unseen document visited).card < depth) (before : List Finding) :
    ∃ findings,
      Searches document path entered visited spreads
        (spreads.foldl (follow document depth path entered) (visited, before)).1 findings ∧
      (spreads.foldl (follow document depth path entered) (visited, before)).2 =
        before ++ findings := by
  induction depth generalizing path entered visited name fragment spreads before with
  | zero => exact absurd enough (Nat.not_lt_zero _)
  | succ depth deeper =>
      induction spreads generalizing visited before with
      | nil => exact ⟨[], .done, (List.append_nil before).symm⟩
      | cons spread spreads induction =>
          have parts := List.cons_subset.mp inside
          rw [List.foldl_cons]
          cases isOpen : Named.value? entered spread.name with
          | some index =>
              rw [follow_open isOpen]
              rcases induction parts.2 enough (before ++ [cycleFinding (path.drop index) spread])
                with ⟨findings, searches, total⟩
              exact ⟨_, .closes isOpen (tracks _ _ isOpen).1 searches, by simpa using total⟩
          | none =>
              cases target? : document.fragment? spread.name with
              | none =>
                  rw [follow_undefined isOpen target?]
                  rcases induction parts.2 enough before with ⟨findings, searches, total⟩
                  exact ⟨_, .undefined isOpen target? searches, total⟩
              | some target =>
                  rw [follow_found isOpen target?]
                  by_cases seen : target.name ∈ visited
                  · rw [detectCycles_seen seen, List.append_nil]
                    rcases induction parts.2 enough before with ⟨findings, searches, total⟩
                    exact ⟨_, .seen isOpen target? seen searches, total⟩
                  · have fewer : (unseen document (visited ++ [target.name])).card < depth :=
                      unseen_enter (List.mem_map_of_mem (Document.fragment?_mem target?).1) seen
                        enough
                    rcases tracks.enter found parts.1 target? with ⟨entering, isTarget⟩
                    rcases deeper entering isTarget (List.Subset.refl _) fewer [] with
                      ⟨inner, within, isInner⟩
                    have still := (Finset.card_le_card (unseen_mono
                      (List.Subset.trans (List.subset_append_left _ _) within.grows))).trans_lt
                      enough
                    rw [detectCycles_new seen, List.length_append, List.length_singleton, isInner]
                    rcases induction parts.2 still (before ++ inner) with
                      ⟨findings, searches, total⟩
                    exact ⟨_, .enters isOpen target? seen within searches, by simpa using total⟩

/-- The rule is shown all fragments and searches from each, with what was visited before. -/
private theorem sweeps_run {registry : Registry} {fragments : List Fragment}
    (found : ∀ fragment ∈ fragments, document.fragment? fragment.name = some fragment)
    (visited : List String) :
    ∃ after findings, Sweeps document visited fragments after findings ∧
      runVisits ⟨registry, document⟩ (fragments.flatMap (Walk.fragmentBounds registry))
        [⟨noFragmentCycles, visited⟩] = findings.map noFragmentCycles.report := by
  induction fragments generalizing visited with
  | nil => exact ⟨visited, [], .done, rfl⟩
  | cons head tail induction =>
      have parts := List.forall_mem_cons.mp found
      have seesIn (scope : Scope) : noFragmentCycles.Sees ⟨scope, .enterFragment head⟩ := rfl
      have seesOut (scope : Scope) : noFragmentCycles.Sees ⟨scope, .leaveFragment head⟩ := rfl
      have shown : runVisits ⟨registry, document⟩
            ((head :: tail).flatMap (Walk.fragmentBounds registry)) [⟨noFragmentCycles, visited⟩] =
          (detectCycles document (document.fragments.length + 1) [] [] visited head).2.map
            noFragmentCycles.report ++
          runVisits ⟨registry, document⟩ (tail.flatMap (Walk.fragmentBounds registry))
            [⟨noFragmentCycles,
              (detectCycles document (document.fragments.length + 1) [] [] visited head).1⟩] :=
        (Rule.run_of_sees (seesIn _) _).trans
          (congrArg (List.append _) (Rule.run_of_sees (seesOut _) _))
      rw [shown]
      by_cases seen : head.name ∈ visited
      · rw [detectCycles_seen seen]
        rcases induction parts.2 visited with ⟨after, findings, sweeps, reported⟩
        exact ⟨after, findings, .seen seen sweeps, reported⟩
      · have fewer : (unseen document (visited ++ [head.name])).card <
            document.fragments.length :=
          unseen_enter (List.mem_map_of_mem (Document.fragment?_mem parts.1).1) seen
            (unseen_card document visited)
        rcases searches_foldl (tracks_start document head.name) parts.1
          (List.Subset.refl _) fewer [] with ⟨inner, within, isInner⟩
        rw [detectCycles_new seen]
        rcases induction parts.2 _ with ⟨after, findings, sweeps, reported⟩
        refine ⟨after, inner ++ findings, .enters seen within sweeps, ?_⟩
        rw [List.map_append, ← reported]
        exact congrArg (fun found => found.map noFragmentCycles.report ++ _) isInner

/-! ## What is found -/

/-- A finding about a walk that ends where it starts. -/
private def IsClosed (document : Document) (finding : Finding) : Prop :=
  ∃ cycle closing, finding = cycleFinding cycle closing ∧
    document.Walks closing.name (cycle ++ [closing]) closing.name

private theorem Searches.closed
    (searches : Searches document path entered visited spreads after findings)
    (tracks : Tracks document path entered name)
    (found : document.fragment? name = some fragment)
    (inside : spreads ⊆ spreadsOf fragment.selections) :
    ∀ finding ∈ findings, IsClosed document finding := by
  induction searches generalizing name fragment with
  | done => exact fun _ member => by cases member
  | closes isOpen _ _ induction =>
      have parts := List.cons_subset.mp inside
      refine List.forall_mem_cons.mpr ⟨⟨_, _, rfl, ?_⟩, induction tracks found parts.2⟩
      exact (tracks _ _ isOpen).2.further found parts.1
  | undefined _ _ _ induction =>
      exact induction tracks found (List.subset_of_cons_subset inside)
  | seen _ _ _ _ induction => exact induction tracks found (List.subset_of_cons_subset inside)
  | enters _ target? _ _ _ within later =>
      have parts := List.cons_subset.mp inside
      rcases tracks.enter found parts.1 target? with ⟨entering, isTarget⟩
      exact List.forall_mem_append.mpr
        ⟨within entering isTarget (List.Subset.refl _), later tracks found parts.2⟩

private theorem Sweeps.closed {fragments : List Fragment}
    (sweeps : Sweeps document visited fragments after findings)
    (found : ∀ fragment ∈ fragments, document.fragment? fragment.name = some fragment) :
    ∀ finding ∈ findings, IsClosed document finding := by
  induction sweeps with
  | done => exact fun _ member => by cases member
  | seen _ _ induction => exact induction (List.forall_mem_cons.mp found).2
  | enters _ inside _ induction =>
      have parts := List.forall_mem_cons.mp found
      exact List.forall_mem_append.mpr
        ⟨inside.closed (tracks_start document _) parts.1 (List.Subset.refl _), induction parts.2⟩

end CycleSearch

/-- The rule about cycles of fragments comes to an end without leaving its path, and reports
something exactly if there is a cycle: each time the spreads of a walk that starts and ends at the
fragment that is named. -/
theorem Document.cycles_reported {document : Document}
    (distinct : (Named.names document.fragments).Nodup) (registry : Registry) :
    ∃ after findings, CycleSearch.Sweeps document [] document.fragments after findings ∧
      document.validate registry [Rules.noFragmentCycles] =
        findings.map Rules.noFragmentCycles.report ∧
      (document.validate registry [Rules.noFragmentCycles] ≠ [] ↔
        ∃ name, Relation.TransGen document.SpreadsTo name name) ∧
      ∀ finding ∈ findings, ∃ cycle closing,
        document.Walks closing.name (cycle ++ [closing]) closing.name ∧
        finding.message = (Rules.cycleFinding cycle closing).message ∧
        finding.locations = (cycle ++ [closing]).map FragmentSpread.position := by
  have found : ∀ fragment ∈ document.fragments,
      document.fragment? fragment.name = some fragment := fun _ => fragment?_of_mem distinct
  rcases CycleSearch.sweeps_run found [] with ⟨after, findings, sweeps, reported⟩
  have closed := sweeps.closed found
  have isRun : document.validate registry [Rules.noFragmentCycles] =
      findings.map Rules.noFragmentCycles.report := by
    rw [validate_one, Rule.start, Rule.run_fragments rfl]
    exact reported
  refine ⟨after, findings, sweeps, isRun, ⟨?_, ?_⟩, ?_⟩
  · intro some
    rw [isRun, ne_eq, List.map_eq_nil_iff] at some
    rcases List.exists_mem_of_ne_nil _ some with ⟨finding, member⟩
    rcases closed finding member with ⟨cycle, closing, _, walks⟩
    exact ⟨closing.name, walks.cycle (List.append_ne_nil_of_right_ne_nil _ (List.cons_ne_nil _ _))⟩
  · rintro ⟨name, cycle⟩ silent
    exact acyclic_of_quiet distinct silent name cycle
  · intro finding member
    rcases closed finding member with ⟨cycle, closing, rfl, walks⟩
    exact ⟨cycle, closing, walks, rfl, rfl⟩

namespace Loops

/-! Two fragments that spread each other, at some depth, and one that is not there. -/

def outer : Fragment :=
  ⟨⟨1, 1⟩, "Outer", "Pet", [],
    [.spread ⟨⟨1, 25⟩, "Lost", []⟩,
      .field ⟨⟨1, 33⟩, none, "owner", [], [], [.spread ⟨⟨1, 41⟩, "Inner", []⟩]⟩]⟩

def inner : Fragment :=
  ⟨⟨2, 1⟩, "Inner", "Person", [],
    [.inline ⟨⟨2, 28⟩, none, [], [.spread ⟨⟨2, 34⟩, "Outer", []⟩]⟩]⟩

def document : Document where
  definitions := [.fragment outer, .fragment inner]

end Loops

/-- Two fragments that spread each other are reported. -/
theorem Document.cycles_reported_of_loops :
    (Named.names Loops.document.fragments).Nodup ∧
      ∀ registry, Loops.document.validate registry [Rules.noFragmentCycles] ≠ [] := by
  have distinct : (Named.names Loops.document.fragments).Nodup := by decide
  have inward : Loops.document.SpreadsTo "Outer" "Inner" :=
    ⟨Loops.outer, rfl, ⟨⟨1, 41⟩, "Inner", []⟩, List.mem_cons_of_mem _ List.mem_cons_self, rfl⟩
  have outward : Loops.document.SpreadsTo "Inner" "Outer" :=
    ⟨Loops.inner, rfl, ⟨⟨2, 34⟩, "Outer", []⟩, List.mem_cons_self, rfl⟩
  refine ⟨distinct, fun registry => ?_⟩
  rcases cycles_reported distinct registry with ⟨_, _, _, _, reports, _⟩
  exact reports.mpr ⟨"Outer", .tail (.single inward) outward⟩

end GraphQL
