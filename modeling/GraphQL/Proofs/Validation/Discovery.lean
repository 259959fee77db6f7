import Mathlib.Data.List.Nodup
import Mathlib.Logic.Relation

/-!
Depth-first discovery. From some names one goes to the first that is new, then to all that it leads
to, and only then to the next one. Each name that the first ones lead to is discovered once, also
where the names lead in circles.
-/

namespace GraphQL

/-- What is discovered once some names have been gone through, with what was discovered before. -/
inductive Discovers (next : String → List String) :
    (before names after : List String) → Prop
  | done {before : List String} : Discovers next before [] before
  | known {before names after : List String} {name : String} (known : name ∈ before)
      (later : Discovers next before names after) : Discovers next before (name :: names) after
  | enters {before between names after : List String} {name : String} (new : name ∉ before)
      (inside : Discovers next (before ++ [name]) (next name) between)
      (later : Discovers next between names after) : Discovers next before (name :: names) after

namespace Discovers

variable {next : String → List String} {before names after : List String} {name : String}

/-- The order of discovery is determined. -/
theorem unique (discovers : Discovers next before names after) {other : List String}
    (also : Discovers next before names other) : other = after := by
  induction discovers generalizing other with
  | done =>
      cases also
      rfl
  | known known _ induction =>
      cases also with
      | known _ later => exact induction later
      | enters new _ _ => exact absurd known new
  | enters new _ _ inside later =>
      cases also with
      | known known _ => exact absurd known new
      | enters _ insideAlso laterAlso =>
          have same := inside insideAlso
          subst same
          exact later laterAlso

theorem of_append {left right : List String}
    (discovers : Discovers next before (left ++ right) after) :
    ∃ between, Discovers next before left between ∧ Discovers next between right after := by
  induction left generalizing before with
  | nil => exact ⟨before, .done, discovers⟩
  | cons head tail induction =>
      cases discovers with
      | known known later =>
          rcases induction later with ⟨between, first, second⟩
          exact ⟨between, .known known first, second⟩
      | enters new inside later =>
          rcases induction later with ⟨between, first, second⟩
          exact ⟨between, .enters new inside first, second⟩

private theorem grows (discovers : Discovers next before names after) : before ⊆ after := by
  induction discovers with
  | done => exact List.Subset.refl _
  | known _ _ induction => exact induction
  | enters _ _ _ inside later =>
      exact List.Subset.trans (List.subset_append_left _ _) (List.Subset.trans inside later)

theorem names_subset (discovers : Discovers next before names after) : names ⊆ after := by
  induction discovers with
  | done => exact List.nil_subset _
  | known known later induction => exact List.cons_subset.mpr ⟨later.grows known, induction⟩
  | enters _ inside later _ induction =>
      have entered := inside.grows (List.mem_append_right _ (List.mem_singleton_self _))
      exact List.cons_subset.mpr ⟨later.grows entered, induction⟩

/-- What a discovered name leads to is discovered too. -/
theorem closed (discovers : Discovers next before names after) (member : name ∈ after) :
    name ∈ before ∨ next name ⊆ after := by
  induction discovers with
  | done => exact .inl member
  | known _ _ induction => exact induction member
  | enters _ inside later within after =>
      rcases after member with between | done
      · rcases within between with listed | done
        · rcases List.mem_append.mp listed with earlier | entered
          · exact .inl earlier
          · rw [List.mem_singleton.mp entered]
            exact .inr (List.Subset.trans inside.names_subset later.grows)
        · exact .inr (List.Subset.trans done later.grows)
      · exact .inr done

private theorem reaches (discovers : Discovers next before names after) (member : name ∈ after) :
    name ∈ before ∨
      ∃ start ∈ names,
        Relation.ReflTransGen (fun name target => target ∈ next name) start name := by
  induction discovers with
  | done => exact .inl member
  | known _ _ induction =>
      exact (induction member).imp_right fun ⟨start, isStart, path⟩ =>
        ⟨start, List.mem_cons_of_mem _ isStart, path⟩
  | @enters _ _ _ _ head _ _ _ within after =>
      rcases after member with between | ⟨start, isStart, path⟩
      · rcases within between with listed | ⟨start, isStart, path⟩
        · rcases List.mem_append.mp listed with earlier | entered
          · exact .inl earlier
          · rw [List.mem_singleton.mp entered]
            exact .inr ⟨head, List.mem_cons_self, .refl⟩
        · exact .inr ⟨head, List.mem_cons_self, .head isStart path⟩
      · exact .inr ⟨start, List.mem_cons_of_mem _ isStart, path⟩

theorem nodup (discovers : Discovers next before names after) (distinct : before.Nodup) :
    after.Nodup := by
  induction discovers with
  | done => exact distinct
  | known _ _ induction => exact induction distinct
  | enters new _ _ inside later =>
      exact later (inside (distinct.append (List.nodup_singleton _)
        (List.disjoint_singleton.mpr new)))

/-- From nothing exactly what the names lead to is discovered. -/
theorem mem_iff (discovers : Discovers next [] names after) :
    name ∈ after ↔
      ∃ start ∈ names,
        Relation.ReflTransGen (fun name target => target ∈ next name) start name := by
  constructor
  · exact fun member => (discovers.reaches member).resolve_left List.not_mem_nil
  · rintro ⟨start, isStart, path⟩
    induction path with
    | refl => exact discovers.names_subset isStart
    | tail _ leads induction =>
        exact (discovers.closed induction).resolve_left List.not_mem_nil leads

end Discovers

end GraphQL
