import GraphQL.Named
import Mathlib.Data.List.Nodup

/-!
What holds of collections whose members are known by name.
-/

namespace GraphQL

namespace Named

theorem mem_put {α : Type} [Named α] {members : List α} {added member : α}
    (listed : member ∈ put members added) : member ∈ members ∨ member = added := by
  induction members with
  | nil => exact .inr (List.mem_singleton.mp listed)
  | cons head tail induction =>
      by_cases same : nameOf head = nameOf added
      · rw [put, if_pos same] at listed
        rcases List.mem_cons.mp listed with equal | later
        · exact .inr equal
        · exact .inl (List.mem_cons_of_mem head later)
      · rw [put, if_neg same] at listed
        rcases List.mem_cons.mp listed with equal | later
        · exact .inl (equal ▸ List.mem_cons_self)
        · exact (induction later).imp_left (List.mem_cons_of_mem head)

theorem names_put_nodup {α : Type} [Named α] {members : List α} {added : α}
    (distinct : (names members).Nodup) : (names (put members added)).Nodup := by
  rw [names_put]
  by_cases known : nameOf added ∈ names members
  · rwa [if_pos known]
  · rw [if_neg known]
    exact distinct.append (List.nodup_singleton _) (List.disjoint_singleton.mpr known)

theorem names_concat_nodup {α : Type} [Named α] {members : List α} {last : α}
    (distinct : (names (members ++ [last])).Nodup) :
    (names members).Nodup ∧ nameOf last ∉ names members := by
  rw [names, List.map_append, List.nodup_append] at distinct
  exact ⟨distinct.1, fun listed => distinct.2.2 _ listed _ (List.mem_singleton_self _) rfl⟩

/-- A member with a new name is appended. -/
theorem put_eq_append {α : Type} [Named α] {members : List α} {added : α}
    (fresh : nameOf added ∉ names members) : put members added = members ++ [added] := by
  induction members with
  | nil => rfl
  | cons head tail induction =>
      have apart : nameOf added ≠ nameOf head ∧ nameOf added ∉ names tail := by
        simpa [names] using fresh
      rw [put, if_neg fun same => apart.1 same.symm, induction apart.2]
      rfl

theorem find?_mem {α : Type} [Named α] {members : List α} {name : String} {member : α}
    (found : find? members name = some member) : member ∈ members ∧ nameOf member = name :=
  ⟨List.mem_of_find?_eq_some found, by simpa using List.find?_some found⟩

theorem value?_mem {β : Type} {entries : List (String × β)} {key : String} {value : β}
    (found : value? entries key = some value) : (key, value) ∈ entries := by
  rcases Option.map_eq_some_iff.mp found with ⟨⟨name, stored⟩, foundEntry, isValue⟩
  have entry := find?_mem foundEntry
  have sameKey : name = key := entry.2
  subst sameKey
  subst isValue
  exact entry.1

theorem value?_cons {β : Type} (key name : String) (value : β) (entries : List (String × β)) :
    value? ((key, value) :: entries) name =
      if key = name then some value else value? entries name := by
  by_cases same : key = name <;> simp [value?, find?, nameOf, same]

theorem value?_eq_none {β : Type} {entries : List (String × β)} {name : String} :
    value? entries name = none ↔ name ∉ names entries := by
  rw [value?, Option.map_eq_none_iff, find?, List.find?_eq_none, names, List.mem_map]
  constructor
  · rintro unknown ⟨entry, member, same⟩
    exact unknown entry member (by simpa using same)
  · intro unknown entry member same
    exact unknown ⟨entry, member, by simpa using same⟩

/-- Values that are changed under their keys are found as they were. -/
theorem value?_map {α β : Type} (change : String → α → β) (entries : List (String × α))
    (name : String) :
    value? (entries.map fun entry => (entry.1, change entry.1 entry.2)) name =
      (value? entries name).map (change name) := by
  induction entries with
  | nil => rfl
  | cons head tail induction =>
      rw [List.map_cons, value?_cons, value?_cons, induction]
      by_cases same : head.1 = name <;> simp [same]

theorem value?_append {β : Type} (left right : List (String × β)) (name : String) :
    value? (left ++ right) name = (value? left name).or (value? right name) := by
  induction left with
  | nil => rfl
  | cons head tail induction =>
      rw [List.cons_append, value?_cons, value?_cons, induction]
      split <;> rfl

theorem contains_eq {β : Type} (entries : List (String × β)) (name : String) :
    contains entries name = (value? entries name).isSome := by
  rw [contains, value?, Option.isSome_map, find?, List.isSome_find?]

theorem value?_put {α : Type} {entries : List (String × α)} {key name : String} {value : α} :
    value? (put entries (key, value)) name =
      if key = name then some value else value? entries name := by
  induction entries with
  | nil =>
      by_cases same : key = name <;> simp [put, value?, find?, nameOf, same]
  | cons head tail induction =>
      simp only [value?, find?, nameOf, put] at induction ⊢
      by_cases replaced : head.1 = key
      · by_cases same : key = name
        · simp [replaced, same]
        · simp [replaced, same]
      · rw [if_neg replaced]
        by_cases here : head.1 = name
        · have different : key ≠ name := fun same => replaced (here.trans same.symm)
          simp [here, different]
        · simp [here, induction]

/-- With distinct names every member is found. -/
theorem find?_of_mem {α : Type} [Named α] {members : List α} {member : α}
    (distinct : (names members).Nodup) (listed : member ∈ members) :
    find? members (nameOf member) = some member := by
  induction members with
  | nil => cases listed
  | cons head tail induction =>
      have apart := List.nodup_cons.mp distinct
      rcases List.mem_cons.mp listed with equal | later
      · simp [find?, equal]
      · have different : nameOf head ≠ nameOf member := fun same =>
          apart.1 (same ▸ List.mem_map_of_mem later)
        have found := induction apart.2 later
        rw [find?] at found ⊢
        rwa [List.find?_cons_of_neg (by simpa using different)]

theorem value?_of_mem {β : Type} {entries : List (String × β)} {key : String} {value : β}
    (distinct : (names entries).Nodup) (member : (key, value) ∈ entries) :
    value? entries key = some value :=
  congrArg (Option.map Prod.snd) (find?_of_mem distinct member)

/-- With distinct keys the order of entries does not matter. -/
theorem value?_of_perm {β : Type} {entries others : List (String × β)}
    (distinct : (names entries).Nodup) (permuted : others.Perm entries) (name : String) :
    value? others name = value? entries name := by
  have sameNames : (names others).Perm (names entries) := permuted.map nameOf
  cases found : value? entries name with
  | none =>
      rw [value?_eq_none, sameNames.mem_iff]
      exact value?_eq_none.mp found
  | some value =>
      exact value?_of_mem (sameNames.nodup_iff.mpr distinct)
        (permuted.mem_iff.mpr (value?_mem found))

end Named

end GraphQL
