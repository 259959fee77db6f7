/-!
Ordered collections whose members are known by name: the fields of an object, the arguments of a
field, the variables of a request. A collection is a list; adding a member that has the name of an
earlier one replaces that one where it stands, so the order is that of first mention.
-/

namespace GraphQL

universe u v

class Named (α : Type u) where
  nameOf : α → String

export Named (nameOf)

instance {α : Type u} : Named (String × α) := ⟨Prod.fst⟩

namespace Named

variable {α : Type u} [Named α]

def find? (members : List α) (wanted : String) : Option α :=
  members.find? fun member => nameOf member == wanted

def contains (members : List α) (wanted : String) : Bool :=
  members.any fun member => nameOf member == wanted

/-- Add a member at the end, or in the place of the member that already has its name. -/
def put : List α → α → List α
  | [], member => [member]
  | head :: tail, member =>
      if nameOf head = nameOf member then member :: tail else head :: put tail member

def ofList (members : List α) : List α := members.foldl put []

def names (members : List α) : List String := members.map nameOf

def value? {β : Type v} (entries : List (String × β)) (key : String) : Option β :=
  (find? entries key).map Prod.snd

example : ofList [("a", 1), ("b", 2), ("a", 3)] = [("a", 3), ("b", 2)] := by decide

/-- Putting a member changes the list of names only by appending a new name. -/
theorem names_put (members : List α) (member : α) :
    names (put members member) =
      if nameOf member ∈ names members then names members
      else names members ++ [nameOf member] := by
  induction members with
  | nil => simp [put, names]
  | cons head tail induction =>
      by_cases same : nameOf head = nameOf member
      · simp [put, names, same]
      · have different : nameOf member ≠ nameOf head := fun equal => same equal.symm
        have tailNames : (put tail member).map nameOf =
            if nameOf member ∈ tail.map nameOf then tail.map nameOf
            else tail.map nameOf ++ [nameOf member] := induction
        by_cases known : nameOf member ∈ tail.map nameOf
        · rw [if_pos known] at tailNames
          rw [if_pos (by simpa [names] using .inr (by simpa using known))]
          simp [put, same, names, tailNames]
        · rw [if_neg known] at tailNames
          rw [if_neg (by simpa [names, different] using known)]
          simp [put, same, names, tailNames]

end Named

end GraphQL
