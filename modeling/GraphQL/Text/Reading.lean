/-!
Readers take a value off the front of a text and leave a shorter rest. The proof that the rest is
shorter travels with it, so a loop of readers ends.
-/

namespace GraphQL

universe u v

/-- A value read off the front of `before`, and what comes after it. -/
structure Read (α : Type u) {β : Type v} (before : List β) where
  value : α
  rest : List β
  shorter : rest.length < before.length

namespace Read

variable {α : Type u} {β : Type v}

def after {longer before : List β} (reading : Read α before)
    (le : before.length ≤ longer.length) : Read α longer :=
  ⟨reading.value, reading.rest, Nat.lt_of_lt_of_le reading.shorter le⟩

def map {γ : Type u} {before : List β} (change : α → γ) (reading : Read α before) :
    Read γ before :=
  ⟨change reading.value, reading.rest, reading.shorter⟩

end Read

theorem length_lt_cons_of_lt {β : Type v} {after before : List β} (item : β)
    (shorter : after.length < before.length) : after.length < (item :: before).length :=
  Nat.lt_succ_of_lt shorter

theorem length_lt_cons {β : Type v} (item : β) (rest : List β) :
    rest.length < (item :: rest).length :=
  Nat.lt_succ_self _

theorem length_dropWhile_le {β : Type v} (test : β → Bool) (list : List β) :
    (list.dropWhile test).length ≤ list.length :=
  (List.dropWhile_sublist test).length_le

end GraphQL
