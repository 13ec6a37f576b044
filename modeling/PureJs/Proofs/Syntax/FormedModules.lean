import PureJs.Proofs.Syntax.Formed
import PureJs.Proofs.Syntax.ReadItems

/-! The parts of a module, modules and whole programs are read with formed expressions only. -/

namespace PureJs

namespace Module

open Cursor

def Item.Formed : Item → Prop
  | .declaration d => d.Formed
  | .import _ | .signature _ => True

theorem until_boundary_moves (c : Cursor) : c.Moves 0 c.untilBoundary.2 :=
  ⟨List.dropWhile_suffix _, (List.dropWhile_sublist _).length_le, rfl, rfl⟩

theorem type_reads (c : Cursor) (text : List Char) :
    Reads c 0 (fun _ => True) (parseType text c) := by
  unfold parseType
  split
  · exact Reads.error _
  · exact Reads.ok trivial (until_boundary_moves c)

section Items

variable {c : Cursor} (ready : c.Ready)
include ready

theorem import_reads (here : c.kind = .keyword .importWord) :
    Reads c 1 Item.Formed (parseImport c) := by
  have forward := (ready.take (by simp [here])).2
  unfold parseImport
  refine Reads.after_move forward
    (Reads.bind 0 (Nat.zero_le _) (Reads.expect (ready.moves forward) (by simp)) ?_) (Nat.le_refl 1)
  intro name last _ _
  exact Reads.ok trivial (Moves.refl last)

theorem foreign_reads (text : List Char) (here : c.kind = .keyword .foreignWord) :
    Reads c 1 Item.Formed (parseForeign text c) := by
  have forward := (ready.take (by simp [here])).2
  have ready := ready.moves forward
  unfold parseForeign
  refine Reads.after_move forward
    (Reads.bind 0 (Nat.zero_le _) (Reads.expect ready (by simp)) ?_) (Nat.le_refl 1)
  intro _ after _ moves
  have ready := ready.moves moves
  refine Reads.bind 0 (Nat.zero_le _) (Reads.expect_name ready) ?_
  intro name after lexical moves
  have ready := ready.moves moves
  refine Reads.bind 0 (Nat.zero_le _) (Reads.expect ready (by simp)) ?_
  intro _ after _ moves
  have ready := ready.moves moves
  refine Reads.bind 0 (Nat.zero_le _) (Reads.expect ready (by simp)) ?_
  intro _ after _ moves
  refine Reads.bind 0 (Nat.zero_le _) (type_reads after text) ?_
  intro _ last _ _
  exact Reads.ok lexical (Moves.refl last)

theorem signature_reads (text : List Char) (here : c.kind = .identifier)
    (next : c.secondKind = .mark .doubleColon) : Reads c 1 Item.Formed (parseSignature text c) := by
  have front := ready.take_two (by simp [here]) (by simp [next])
  unfold parseSignature
  refine Reads.after_move front (Reads.bind 0 (Nat.zero_le _) (type_reads _ text) ?_) (by decide)
  intro _ last _ _
  exact Reads.ok trivial (Moves.refl last)

theorem value_reads (here : c.kind = .identifier) : Reads c 1 Item.Formed (parseValue c) := by
  have taken := ready.take (by simp [here])
  have ready := ready.moves taken.2
  obtain ⟨names, moves⟩ := identifiers_read c.advance ready
  have ready := ready.moves moves
  unfold parseValue
  refine Reads.after_move taken.2 (Reads.after_move moves
    (Reads.bind 0 (Nat.zero_le _) (Reads.expect ready (by simp)) ?_) (Nat.zero_le _))
    (Nat.le_refl 1)
  intro assign after _ moves
  refine Reads.bind 0 (Nat.zero_le _) ((Expr.all_read _).parse after (ready.moves moves)) ?_
  intro body last formed _
  exact Reads.ok ⟨taken.1.1 here, names, formed⟩ (Moves.refl last)

theorem item_reads (text : List Char) : Reads c 1 Item.Formed (parseItem text c) := by
  unfold parseItem
  split
  · rename_i kind
    exact import_reads ready kind
  · rename_i kind
    exact foreign_reads ready text kind
  · rename_i kind
    split
    · rename_i next
      exact signature_reads ready text kind next
    · exact value_reads ready kind
  · exact Reads.error _

end Items

theorem items_formed {m : Module} (parts : Of Item.Formed m) : m.Formed := by
  obtain ⟨name, file, place, items, rfl, formed⟩ := parts
  intro d member
  obtain ⟨item, inside, same⟩ := List.mem_filterMap.mp member
  have fine := formed item inside
  cases item with
  | declaration other =>
    cases same
    exact fine
  | «import» other => cases same
  | signature other => cases same

theorem ofText_formed {file : String} {text : List Char} {modules : List Module}
    (parsed : ofText file text = .ok modules) : ∀ m ∈ modules, m.Formed := by
  intro m member
  apply items_formed
  apply ofText_each parsed ?_ m member
  intro tokens scanned c moves
  exact item_reads ((scanned_ready scanned).moves moves) text

end Module

theorem parseUnits_formed {units : List SourceUnit} {modules : List Module}
    (parsed : parseUnits units = .ok modules) : ∀ m ∈ modules, m.Formed :=
  parseUnits_each (fun _ _ _ => Module.ofText_formed) parsed

end PureJs
