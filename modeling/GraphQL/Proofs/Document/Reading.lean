import GraphQL.Proofs.Document.Positions
import GraphQL.Proofs.Document.Readers
import GraphQL.Proofs.Document.Scanning

/-!
A document that was read has its definitions and selections at distinct positions. A selection
stands at the position of the first of its tokens, or of the second if that is an ellipsis, and
the selections inside it stand at tokens after that one.
-/

namespace GraphQL

namespace Grammar

/-- Some nodes stand, in order, at some tokens. -/
private def StandAt (positions : List Position) (tokens : List Located) : Prop :=
  positions.Sublist (tokens.map Located.position)

namespace StandAt

variable {positions more : List Position} {tokens others : List Located}

private theorem none : StandAt [] tokens := List.nil_sublist _

private theorem append (stand : StandAt positions tokens) (later : StandAt more others) :
    StandAt (positions ++ more) (tokens ++ others) := by
  unfold StandAt
  rw [List.map_append]
  exact List.Sublist.append stand later

private theorem after (stand : StandAt positions tokens) (before : List Located) :
    StandAt positions (before ++ tokens) :=
  append none stand

private theorem before (stand : StandAt positions tokens) (after : List Located) :
    StandAt positions (tokens ++ after) := by
  have stand := stand.append (none : StandAt [] after)
  rwa [List.append_nil] at stand

private theorem cons (head : Located) (stand : StandAt positions tokens) :
    StandAt (head.position :: positions) (head :: tokens) :=
  stand.cons_cons _

private theorem starts {position : Position} (starts : StartsAt position tokens)
    (stand : StandAt positions tokens.tail) : StandAt (position :: positions) tokens := by
  cases tokens with
  | nil => cases starts
  | cons head tail =>
      cases starts
      exact stand.cons head

private theorem of_tail (stand : StandAt positions tokens.tail) : StandAt positions tokens := by
  cases tokens with
  | nil => exact stand
  | cons head tail => exact stand.after [head]

private theorem tail_append (stand : StandAt positions tokens.tail) (before : List Located) :
    StandAt positions (before ++ tokens).tail := by
  cases before with
  | nil => exact stand
  | cons head tail => exact stand.of_tail.after tail

end StandAt

/-! ## Selections -/

mutual

private theorem selection_standAt {tokens : List Located} {selection : Selection}
    (derived : DerivesSelection tokens selection) : StandAt selection.positions tokens := by
  match derived with
  | .field starts _ _ _ selects =>
      have first := StandAt.none.starts starts
      exact first.append (((optional_standAt selects).after _).after _)
  | .spread _ _ => exact (StandAt.none.cons ⟨_, .name _⟩).after [_]
  | .inline starts _ _ selects =>
      have inside := selections_standAt selects
      exact (StandAt.starts starts ((inside.tail_append _).tail_append _)).after [_]

private theorem selections_standAt {block : List Located} {selections : List Selection}
    (selects : DerivesSelections block selections) :
    StandAt (positionsOf selections) block.tail := by
  match selects with
  | .between each _ => exact (each_standAt each).before [_]

private theorem optional_standAt {block : List Located} {selections : List Selection}
    (selects : DerivesOptional '\x7b' '\x7d' DerivesSelection block selections) :
    StandAt (positionsOf selections) block := by
  match selects with
  | .missing => exact .none
  | .present between => exact (selections_standAt between).of_tail

private theorem each_standAt {tokens : List Located} {selections : List Selection}
    (each : DerivesEach DerivesSelection tokens selections) :
    StandAt (positionsOf selections) tokens := by
  match each with
  | .nil => exact .none
  | .cons first more => exact (selection_standAt first).append (each_standAt more)

end

/-! ## Definitions -/

private theorem definition_standAt {tokens : List Located} {definition : Definition}
    (derived : DerivesDefinition tokens definition) : StandAt definition.positions tokens := by
  cases derived with
  | query starts selects => exact (selections_standAt selects).starts starts
  | operation _ _ _ selects =>
      have inside := (selections_standAt selects).of_tail
      exact (((inside.after _).after _).after _).cons ⟨_, .name _⟩
  | fragment _ _ selects =>
      have inside := (selections_standAt selects).of_tail
      exact (((inside.after _).after _).after [_]).cons ⟨_, .name _⟩

private theorem definitions_standAt {tokens : List Located} {definitions : List Definition}
    (each : DerivesEach DerivesDefinition tokens definitions) :
    StandAt (definitions.flatMap Definition.positions) tokens := by
  induction each with
  | nil => exact .none
  | cons first _ induction => exact (definition_standAt first).append induction

end Grammar

private theorem Document.nodup_positions_of_text {text : String} {document : Document}
    (read : Document.ofText? text = some document) : document.positions.Nodup := by
  rcases derives_of_text read with ⟨tokens, scanned, each⟩
  have ascending : (tokens.map Located.position).Pairwise Position.Before :=
    List.pairwise_map.mpr (Token.ofText?_ascends scanned)
  exact (ascending.imp Position.Before.ne).sublist (Grammar.definitions_standAt each)

/-- The nodes of a document are told apart by their positions, as in any document that was read. -/
def Document.Addressed (document : Document) : Prop :=
  (∃ text, Document.ofText? text = some document) ∨ document.positions.Nodup

theorem Document.Addressed.distinct {document : Document} (addressed : document.Addressed) :
    document.positions.Nodup := by
  rcases addressed with ⟨text, read⟩ | distinct
  · exact nodup_positions_of_text read
  · exact distinct

end GraphQL
