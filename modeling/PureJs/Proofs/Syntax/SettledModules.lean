import PureJs.Proofs.Syntax.FormedModules
import PureJs.Proofs.Syntax.Settled

/-!
Modules and whole texts fail for no other reasons than expressions: a part of a module, and a
module, moves on by a token, so that there are fewer of them than tokens.
-/

namespace PureJs.Module

open Cursor

theorem boundary_settles {α : Type} {c : Cursor} {result : Except ParseFault α}
    (settles : Settles c result) : Settles c (do c.expectBoundary; result) := by
  unfold Cursor.expectBoundary
  split
  · exact settles
  · exact Settles.malformed _ _

theorem type_settles (c : Cursor) (text : List Char) : Settles c (parseType text c) := by
  unfold parseType
  split
  · exact Settles.malformed _ _
  · exact Settles.ok _

section Items

variable {c : Cursor} (ready : c.Ready)
include ready

theorem import_settles (here : c.kind = .keyword .importWord) : Settles c (parseImport c) := by
  have forward := (ready.take (by simp [here])).2
  unfold parseImport
  exact Settles.after_move forward (Settles.build (Settles.expect _ _))

theorem foreign_settles (text : List Char) (here : c.kind = .keyword .foreignWord) :
    Settles c (parseForeign text c) := by
  have forward := (ready.take (by simp [here])).2
  have ready := ready.moves forward
  unfold parseForeign
  apply Settles.after_move forward
  apply Settles.bind (Reads.expect ready (by simp)) (Settles.expect _ _)
  intro _ after moves
  have ready := ready.moves moves
  apply Settles.bind (Reads.expect ready (by simp)) (Settles.expect _ _)
  intro name after moves
  have ready := ready.moves moves
  apply Settles.bind (Reads.expect ready (by simp)) (Settles.expect _ _)
  intro javascript after moves
  have ready := ready.moves moves
  apply Settles.bind (Reads.expect ready (by simp)) (Settles.expect _ _)
  intro _ after _
  exact Settles.build (type_settles after text)

theorem signature_settles (text : List Char) (here : c.kind = .identifier)
    (next : c.secondKind = .mark .doubleColon) : Settles c (parseSignature text c) := by
  have front := ready.take_two (by simp [here]) (by simp [next])
  unfold parseSignature
  exact Settles.after_move front (Settles.build (type_settles _ text))

theorem value_settles (here : c.kind = .identifier) : Settles c (parseValue c) := by
  have forward := (ready.take (by simp [here])).2
  have ready := ready.moves forward
  have names := (identifiers_read c.advance ready).2
  unfold parseValue
  apply Settles.after_move (forward.trans names)
  apply Settles.bind (Reads.expect (ready.moves names) (by simp)) (Settles.expect _ _)
  intro assign after moves
  exact Settles.build (Expr.reading_settles ((ready.moves names).moves moves))

theorem item_settles (text : List Char) : Settles c (parseItem text c) := by
  unfold parseItem
  split
  · rename_i kind
    exact import_settles ready kind
  · rename_i kind
    exact foreign_settles ready text kind
  · rename_i kind
    split
    · rename_i next
      exact signature_settles ready text kind next
    · exact value_settles ready kind
  · exact Settles.malformed _ _

end Items

theorem items_settle (text : List Char) (fuel : Nat) {c : Cursor} (ready : c.Ready)
    (enough : c.tokens.length < fuel) : Settles c (parseItems text fuel c) := by
  induction fuel generalizing c with
  | zero => exact absurd enough (Nat.not_lt_zero _)
  | succ fuel ih =>
    unfold parseItems
    split
    · exact Settles.ok _
    · split
      · exact Settles.malformed _ _
      · apply Settles.bind (item_reads ready text) (item_settles ready text)
        intro item after moves
        apply boundary_settles
        apply Settles.build
        apply ih (ready.moves moves)
        have length := moves.length
        omega

theorem one_settles (file : String) (text : List Char) {c : Cursor} (ready : c.Ready) :
    Settles c (parseOne file text c) := by
  unfold parseOne
  split
  · exact Settles.malformed _ _
  · rename_i header
    have forward := (ready.take (header_inside (by simpa using header))).2
    have ready := ready.moves forward
    apply Settles.after_move forward
    apply Settles.bind (Reads.expect ready (by simp)) (Settles.expect _ _)
    intro name after moves
    have ready := ready.moves moves
    apply Settles.bind (Reads.expect ready (by simp)) (Settles.expect _ _)
    intro _ after moves
    apply boundary_settles
    exact Settles.build (items_settle text _ (ready.moves moves) (Nat.lt_succ_self _))

theorem all_settle (file : String) (text : List Char) (fuel : Nat) {c : Cursor} (ready : c.Ready)
    (enough : c.tokens.length < fuel) : Settles c (parseAll file text fuel c) := by
  induction fuel generalizing c with
  | zero => exact absurd enough (Nat.not_lt_zero _)
  | succ fuel ih =>
    unfold parseAll
    split
    · exact Settles.ok _
    · have each : ∀ mid, c.Moves 0 mid → Reads mid 1 Item.Formed (parseItem text mid) :=
        fun mid moves => item_reads (ready.moves moves) text
      apply Settles.bind (one_reads each ready file (Moves.refl c)) (one_settles file text ready)
      intro m after moves
      have later : Settles after (parseAll file text fuel after) := by
        apply ih (ready.moves moves)
        have length := moves.length
        omega
      dsimp only
      cases others : parseAll file text fuel after with
      | ok modules => exact Settles.ok _
      | error fault =>
        intro other same
        cases same
        exact later fault others

theorem ofText_fault {file : String} {text : List Char} {fault : ParseFault}
    (failed : ofText file text = .error fault) :
    (∃ problem place, fault = .malformed problem place) ∨
      ∃ tokens, Token.scan text = .ok tokens ∧ fault.Arises tokens := by
  unfold ofText at failed
  split at failed
  · cases failed
    exact .inl ⟨_, _, rfl⟩
  · rename_i tokens scanned
    have arises := all_settle file text _ (scanned_ready scanned) (Nat.lt_succ_self _) fault failed
    exact .inr ⟨tokens, scanned, arises.mono (List.dropLast_subset tokens)⟩

end PureJs.Module
