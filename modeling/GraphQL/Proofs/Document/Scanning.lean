import GraphQL.Document.Token

/-!
The tokens of a text stand at ascending positions: what stands between tokens never moves the
position back, and every token moves it ahead.
-/

namespace GraphQL

namespace Position

/-- On an earlier line, or further left on the same line. -/
def Before (left right : Position) : Prop :=
  left.line < right.line ∨ left.line = right.line ∧ left.column < right.column

/-- On an earlier line, or not further right on the same line. -/
private def NotAfter (left right : Position) : Prop :=
  left.line < right.line ∨ left.line = right.line ∧ left.column ≤ right.column

theorem Before.ne {left right : Position} (before : left.Before right) : left ≠ right := by
  rintro rfl
  unfold Before at before
  omega

private theorem Before.notAfter {left right : Position} (before : left.Before right) :
    left.NotAfter right := by
  unfold Before NotAfter at *
  omega

private theorem NotAfter.refl (position : Position) : position.NotAfter position :=
  .inr ⟨rfl, Nat.le_refl _⟩

private theorem NotAfter.trans {left middle right : Position} (first : left.NotAfter middle)
    (second : middle.NotAfter right) : left.NotAfter right := by
  unfold NotAfter at *
  omega

private theorem Before.trans_notAfter {left middle right : Position} (first : left.Before middle)
    (second : middle.NotAfter right) : left.Before right := by
  unfold Before NotAfter at *
  omega

private theorem before_advance (position : Position) {columns : Nat} (positive : 0 < columns) :
    position.Before (position.advance columns) :=
  .inr ⟨rfl, Nat.lt_add_of_pos_right positive⟩

private theorem notAfter_advance (position : Position) (columns : Nat) :
    position.NotAfter (position.advance columns) :=
  .inr ⟨rfl, Nat.le_add_right _ _⟩

private theorem notAfter_newLine (position : Position) : position.NotAfter position.newLine :=
  .inl (Nat.lt_succ_self _)

end Position

namespace Token

open Position

private theorem notAfter_positionAfter (text : List Char) (position : Position) :
    position.NotAfter (positionAfter position text) := by
  fun_induction positionAfter position text with
  | case1 position => exact .refl position
  | case2 position rest induction => exact position.notAfter_newLine.trans induction
  | case3 position char rest different induction =>
      exact (position.notAfter_advance 1).trans induction

private theorem notAfter_skipIgnored (text : List Char) :
    (∀ position : Position, position.NotAfter (skipIgnored position text).1) ∧
      ∀ position : Position, position.NotAfter (skipComment position text).1 := by
  induction text with
  | nil => exact ⟨NotAfter.refl, NotAfter.refl⟩
  | cons char rest induction =>
      obtain ⟨ignored, comment⟩ := induction
      constructor
      · intro position
        simp only [skipIgnored]
        split
        · exact ignored _
        split
        · exact (position.notAfter_advance 8).trans (ignored _)
        split
        · exact position.notAfter_newLine.trans (ignored _)
        split
        · exact (position.notAfter_advance 1).trans (ignored _)
        split
        · exact comment _
        · exact .refl position
      · intro position
        simp only [skipComment]
        split
        · exact position.notAfter_newLine.trans (ignored _)
        · exact comment _

private theorem before_read {position : Position} {text : List Char}
    {reading : Read (Token × Position) text} (found : read position text = some reading) :
    position.Before reading.value.2 := by
  unfold read at found
  split at found
  · cases found
  · cases found
    exact position.before_advance (by decide)
  · split at found
    · cases found
    · cases found
      exact (position.before_advance (by decide)).trans_notAfter
        ((notAfter_positionAfter _ _).trans (notAfter_advance _ _))
  · split at found
    · cases found
    · split at found
      · cases found
      · cases found
        exact position.before_advance (Nat.succ_pos _)
  · split at found
    · cases found
      exact position.before_advance (by decide)
    split at found
    · cases found
      exact position.before_advance (Nat.succ_pos _)
    split at found
    · obtain ⟨token, _, equal⟩ := Option.map_eq_some_iff.mp found
      cases equal
      exact position.before_advance (Nat.succ_pos _)
    · cases found

/-- One token stands before another. -/
private def Precedes (left right : Located) : Prop := left.position.Before right.position

private theorem scan_ascends (position : Position) (depth : Nat) (text : List Char)
    {tokens : List Located} (scanned : scan position depth text = some tokens) :
    (∀ located ∈ tokens, position.NotAfter located.position) ∧ tokens.Pairwise Precedes := by
  fun_induction scan position depth text generalizing tokens with
  | case1 =>
      cases scanned
      exact ⟨fun _ member => (List.not_mem_nil member).elim, .nil⟩
  | case2 => cases scanned
  | case3 => cases scanned
  | case4 position _ text start _ _ front reading found _ token next value =>
      rename_i induction
      obtain ⟨more, later, equal⟩ := Option.map_eq_some_iff.mp scanned
      cases equal
      obtain ⟨bounded, ascending⟩ := induction later
      have ignored : position.NotAfter start := by
        have skipped := (notAfter_skipIgnored text).1 position
        rwa [front] at skipped
      have ahead : start.Before next := by
        have moved := before_read found
        rwa [value] at moved
      have beyond : ∀ located ∈ more, start.Before located.position :=
        fun located member => ahead.trans_notAfter (bounded located member)
      constructor
      · intro located member
        rcases List.mem_cons.mp member with equal | member
        · rw [equal]
          exact ignored
        · exact ignored.trans (beyond located member).notAfter
      · exact .cons beyond ascending

theorem ofText?_ascends {text : String} {tokens : List Located}
    (scanned : ofText? text = some tokens) : tokens.Pairwise Precedes :=
  (scan_ascends _ _ _ scanned).2

end Token

end GraphQL
