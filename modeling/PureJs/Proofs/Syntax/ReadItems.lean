import PureJs.Compile
import PureJs.Proofs.Steps
import PureJs.Proofs.Syntax.Cursor

/-!
What every part of a module is known to be, once it is read, holds of all parts of the modules of a
text and of a program.
-/

namespace PureJs

namespace Module

open Cursor

theorem scanned_ready {text : List Char} {tokens : List Token}
    (scanned : Token.scan text = .ok tokens) : (Cursor.ofTokens tokens).Ready := by
  have named := Token.scan_well_named scanned
  obtain ⟨front, finish, stop, ends⟩ := Token.scan_ends scanned
  refine ⟨fun token member => named token (List.dropLast_subset tokens member), ?_⟩
  simp [Cursor.ofTokens, ends, Token.endOfInput]

theorem header_inside {c : Cursor} (header : c.atModuleHeader = true) : c.kind ≠ .endOfInput := by
  intro last
  simp [Cursor.atModuleHeader, last] at header

theorem boundary_moves {α : Type} {c : Cursor} {least : Nat} {good : α → Prop}
    {result : Except ParseFault (α × Cursor)} (reads : Reads c least good result) (at_ : Cursor) :
    Reads c least good (do at_.expectBoundary; result) := by
  unfold Cursor.expectBoundary
  split
  · exact reads
  · exact Reads.error _

section Items

variable {text : List Char} {start : Cursor} {good : Item → Prop}
  (each : ∀ c, start.Moves 0 c → Reads c 1 good (parseItem text c))
include each

theorem items_read (fuel : Nat) {c : Cursor} (moved : start.Moves 0 c) :
    Reads c 0 (fun items => ∀ item ∈ items, good item) (parseItems text fuel c) := by
  induction fuel generalizing c with
  | zero => exact Reads.error _
  | succ fuel ih =>
    unfold parseItems
    split
    · exact Reads.ok (by simp) (Moves.refl c)
    · split
      · exact Reads.error _
      · refine Reads.bind 0 (Nat.zero_le _) (each c moved) ?_
        intro item after holds moves
        have moved := (moved.trans moves).weaken (Nat.zero_le _)
        refine boundary_moves (Reads.bind 0 (Nat.zero_le _) (ih moved) ?_) after
        intro others last hold _
        exact Reads.ok (List.forall_mem_cons.mpr ⟨holds, hold⟩) (Moves.refl last)

def Of (good : Item → Prop) (m : Module) : Prop :=
  ∃ name file place items, m = ofItems name file place items ∧ ∀ item ∈ items, good item

variable (ready : start.Ready)
include ready

theorem one_reads (file : String) {c : Cursor} (moved : start.Moves 0 c) :
    Reads c 1 (Of good) (parseOne file text c) := by
  have ready' := ready.moves moved
  unfold parseOne
  split
  · exact Reads.error _
  · rename_i header
    have forward := (ready'.take (header_inside (by simpa using header))).2
    have moved := moved.trans forward
    refine Reads.after_move forward
      (Reads.bind 0 (Nat.zero_le _) (Reads.expect (ready.moves moved) (by simp)) ?_) (Nat.le_refl 1)
    intro name after _ moves
    have moved := moved.trans moves
    refine Reads.bind 0 (Nat.zero_le _) (Reads.expect (ready.moves moved) (by simp)) ?_
    intro _ after _ moves
    have moved := (moved.trans moves).weaken (Nat.zero_le _)
    refine boundary_moves (Reads.bind 0 (Nat.zero_le _) (items_read each _ moved) ?_) after
    intro items last holds _
    exact Reads.ok ⟨_, _, _, items, rfl, holds⟩ (Moves.refl last)

theorem all_read (file : String) (fuel : Nat) {c : Cursor} (moved : start.Moves 0 c)
    {modules : List Module} (parsed : parseAll file text fuel c = .ok modules) :
    ∀ m ∈ modules, Of good m := by
  induction fuel generalizing c modules with
  | zero => cases parsed
  | succ fuel ih =>
    unfold parseAll at parsed
    split at parsed
    · cases parsed
      simp
    · obtain ⟨⟨m, after⟩, first, parsed⟩ := bind_gives parsed
      obtain ⟨others, rest, parsed⟩ := bind_gives parsed
      cases parsed
      obtain ⟨holds, moves⟩ := one_reads each ready file moved m after first
      have moved := (moved.trans moves).weaken (Nat.zero_le _)
      exact List.forall_mem_cons.mpr ⟨holds, ih moved rest⟩

end Items

theorem ofText_each {file : String} {text : List Char} {modules : List Module}
    {good : Item → Prop} (parsed : ofText file text = .ok modules)
    (each : ∀ tokens, Token.scan text = .ok tokens → ∀ c, (Cursor.ofTokens tokens).Moves 0 c →
      Reads c 1 good (parseItem text c)) : ∀ m ∈ modules, Of good m := by
  unfold ofText at parsed
  split at parsed
  · cases parsed
  · rename_i tokens scanned
    exact all_read (each tokens scanned) (scanned_ready scanned) file _ (Moves.refl _) parsed

end Module

theorem parseUnits_each {holds : Module → Prop}
    (each : ∀ file text modules, Module.ofText file text = .ok modules → ∀ m ∈ modules, holds m)
    {units : List SourceUnit} {modules : List Module} (parsed : parseUnits units = .ok modules) :
    ∀ m ∈ modules, holds m := by
  induction units generalizing modules with
  | nil =>
    cases parsed
    simp
  | cons unit rest ih =>
    unfold parseUnits at parsed
    cases first : Module.ofText unit.file unit.text.toList with
    | error fault =>
      simp only [first] at parsed
      cases parsed
    | ok here =>
      cases later : parseUnits rest with
      | error fault =>
        simp only [first, later, bind, Except.bind, pure, Except.pure] at parsed
        cases parsed
      | ok others =>
        simp only [first, later, bind, Except.bind, pure, Except.pure] at parsed
        cases parsed
        intro m member
        rcases List.mem_append.mp member with inside | outside
        · exact each _ _ here first m inside
        · exact ih later m outside

end PureJs
