import PureJs.Proofs.Syntax.ModuleCalls
import PureJs.Proofs.Syntax.SettledModules

/-!
Every call goes on from where the call that made it stands: at a token further on, or at the same
one with a part of lower rank. It is made in the layout of that call or in a construct inside of it.
-/

namespace PureJs

namespace Cursor

/-- The second cursor stands at least `least` tokens behind the first one, perhaps in constructs
that were begun since. -/
structure Reaches (least : Nat) (c after : Cursor) : Prop where
  suffix : after.tokens <:+ c.tokens
  length : after.tokens.length + least ≤ c.tokens.length
  finish : after.finish = c.finish
  layout : c.layout <:+ after.layout

variable {c after : Cursor} {least : Nat}

theorem Moves.reaches (moves : c.Moves least after) : c.Reaches least after :=
  ⟨moves.suffix, moves.length, moves.finish, moves.layout ▸ List.suffix_rfl⟩

theorem Reaches.refl (c : Cursor) : c.Reaches 0 c := (Moves.refl c).reaches

theorem Reaches.enter (reaches : c.Reaches least after) (column : Nat) :
    c.Reaches least (after.enter column) :=
  ⟨reaches.suffix, reaches.length, reaches.finish,
    reaches.layout.trans (List.suffix_cons column after.layout)⟩

theorem Reaches.ready (reaches : c.Reaches least after) (ready : c.Ready) : after.Ready :=
  ⟨fun token member => ready.named token (reaches.suffix.subset member),
    reaches.finish ▸ ready.finish⟩

theorem expect_moves {kind : TokenKind} {what : String} {token : Token} (ready : c.Ready)
    (inside : kind ≠ .endOfInput) (taken : c.expect kind what = .ok (token, after)) :
    c.Moves 1 after :=
  (Reads.expect ready inside token after taken).2

theorem named_moves {kind : TokenKind} {what : String} {token : Token} (ready : c.Ready)
    (inside : kind ≠ .endOfInput) (taken : c.identifiers.2.expect kind what = .ok (token, after)) :
    c.Moves 1 after := by
  have names := (identifiers_read c ready).2
  exact (names.trans (expect_moves (ready.moves names) inside taken)).weaken (Nat.le_refl 1)

theorem binders_move {mid : Cursor} {kind : TokenKind} {what which : String} {name token : Token}
    (ready : c.Ready) (begins : c.kind ≠ .endOfInput) (inside : kind ≠ .endOfInput)
    (named : c.advance.expect .identifier what = .ok (name, mid))
    (taken : mid.identifiers.2.expect kind which = .ok (token, after)) : c.Moves 3 after := by
  have forward := (ready.take begins).2
  have ready := ready.moves forward
  have first := expect_moves ready (by simp) named
  have rest := named_moves (ready.moves first) inside taken
  exact (forward.trans first).trans rest

end Cursor

namespace Expr

open Cursor

namespace Reader

def rank : Reader → Nat
  | statements _ => 7
  | statement | items | arguments _ => 6
  | expression => 5
  | binary _ => 4
  | unary => 3
  | application => 2
  | chain _ _ | atom | lambda | conditional | block => 1

theorem rank_pos (reader : Reader) : 0 < reader.rank := by
  cases reader <;> simp [rank]

def Asks : Reader → Cursor → Prop
  | chain _ left, _ => left.Formed
  | arguments function, _ => function.Formed
  | lambda, c => c.kind = .mark .backslash
  | conditional, c => c.kind = .keyword .ifWord
  | block, c => c.kind = .keyword .doWord
  | _, _ => True

theorem ofKind_rank (kind : TokenKind) : (ofKind kind).rank < 5 := by
  unfold ofKind
  split <;> simp [rank]

theorem ofKind_asks (c : Cursor) : (ofKind c.kind).Asks c := by
  unfold ofKind
  split
  · rename_i kind
    exact kind
  · rename_i kind
    exact kind
  · rename_i kind
    exact kind
  · trivial

theorem operand_rank (op : Operator) (c : Cursor) : (operand op c).rank < 9 := by
  unfold operand
  split <;> simp [rank]

theorem operand_asks (op : Operator) (c after : Cursor) : (operand op c).Asks after := by
  unfold operand
  split <;> trivial

end Reader

theorem right_reads {c : Cursor} (ready : c.Ready) (bound : Nat) (op : Operator) :
    Reads c 1 Formed
      (if c.startsBlock then parse bound c else parseBinary bound op.rightPrecedence c) := by
  split
  · exact (all_read bound).parse c ready
  · exact (all_read bound).binary _ c ready

theorem then_moves {bound : Nat} {c mid after : Cursor} {condition : Expr} {word : Token}
    (ready : c.Ready) (here : c.kind = .keyword .ifWord)
    (test : parse bound c.advance = .ok (condition, mid))
    (goes : mid.expect (.keyword .thenWord) "'then'" = .ok (word, after)) : c.Moves 3 after := by
  have forward := (ready.take (by simp [here])).2
  have ready := ready.moves forward
  have moves := ((all_read bound).parse _ ready condition mid test).2
  have taken := expect_moves (ready.moves moves) (by simp) goes
  exact (forward.trans moves).trans taken

theorem Calls.goes_on {call next : Call} (calls : Calls call next) (ready : call.cursor.Ready)
    (asks : call.reader.Asks call.cursor) :
    ∃ least, call.cursor.Reaches least next.cursor ∧
      next.reader.rank < 8 * least + call.reader.rank ∧ next.reader.Asks next.cursor := by
  cases calls with
  | @form bound c goes =>
    exact ⟨0, .refl c, by simpa [Reader.rank] using Reader.ofKind_rank c.kind,
      Reader.ofKind_asks c⟩
  | first => exact ⟨0, .refl _, by simp [Reader.rank], trivial⟩
  | @chain bound least c mid left read =>
    obtain ⟨formed, moves⟩ := (all_read bound).unary c ready left mid read
    exact ⟨1, moves.reaches, by simp [Reader.rank], formed⟩
  | @operand bound least c left op goes known tight =>
    have forward := (ready.take (operator_inside known)).2
    exact ⟨1, forward.reaches, Reader.operand_rank op c.advance, Reader.operand_asks op _ _⟩
  | @further bound least c mid left right op goes known tight read =>
    have forward := (ready.take (operator_inside known)).2
    obtain ⟨formed, moves⟩ := right_reads (ready.moves forward) bound op right mid read
    exact ⟨2, (forward.trans moves).reaches, by simp [Reader.rank], asks, formed⟩
  | @negated bound c minus =>
    have forward := (ready.take (by simp [minus])).2
    exact ⟨1, forward.reaches, by simp [Reader.rank], trivial⟩
  | application => exact ⟨0, .refl _, by simp [Reader.rank], trivial⟩
  | function => exact ⟨0, .refl _, by simp [Reader.rank], trivial⟩
  | @arguments bound c mid function read =>
    obtain ⟨formed, moves⟩ := (all_read bound).atom c ready function mid read
    exact ⟨1, moves.reaches, by simp [Reader.rank], formed⟩
  | atom => exact ⟨0, .refl _, by simp [Reader.rank], trivial⟩
  | @afterAtom bound c mid function argument goes starts read =>
    obtain ⟨formed, moves⟩ := (all_read bound).atom c ready argument mid read
    exact ⟨1, moves.reaches, by simp [Reader.rank], asks, formed⟩
  | block => exact ⟨0, .refl _, by simp [Reader.rank], trivial⟩
  | @afterBlock bound c mid function argument goes other starts read =>
    obtain ⟨formed, moves⟩ := (all_read bound).parse c ready argument mid read
    exact ⟨1, moves.reaches, by simp [Reader.rank], asks, formed⟩
  | @inParens bound c opens =>
    have forward := (ready.take (by simp [opens])).2
    exact ⟨1, forward.reaches.enter 0, by simp [Reader.rank], trivial⟩
  | @inBrackets bound c opens some =>
    have forward := (ready.take (by simp [opens])).2
    exact ⟨1, forward.reaches.enter 0, by simp [Reader.rank], trivial⟩
  | item => exact ⟨0, .refl _, by simp [Reader.rank], trivial⟩
  | @items bound c mid item read comma =>
    obtain ⟨_, moves⟩ := (all_read bound).parse c ready item mid read
    have forward := ((ready.moves moves).take (by simp [comma])).2
    exact ⟨2, (moves.trans forward).reaches, by simp [Reader.rank], trivial⟩
  | @body bound c mid after param arrow named points =>
    have here : c.kind = .mark .backslash := asks
    have moves := binders_move ready (by simp [here]) (by simp) named points
    exact ⟨3, moves.reaches, by simp [Reader.rank], trivial⟩
  | @condition bound c =>
    have here : c.kind = .keyword .ifWord := asks
    have forward := (ready.take (by simp [here])).2
    exact ⟨1, forward.reaches, by simp [Reader.rank], trivial⟩
  | yes test goes =>
    have moves := then_moves ready asks test goes
    exact ⟨3, moves.reaches, by simp [Reader.rank], trivial⟩
  | @no bound c mid next later after condition yes first second test goes read turns =>
    have moves := then_moves ready asks test goes
    have ready := ready.moves moves
    have further := ((all_read bound).parse _ ready yes later read).2
    have last := expect_moves (ready.moves further) (by simp) turns
    exact ⟨5, ((moves.trans further).trans last).reaches, by simp [Reader.rank], trivial⟩
  | @statements bound c goes =>
    have here : c.kind = .keyword .doWord := asks
    have forward := (ready.take (by simp [here])).2
    exact ⟨1, forward.reaches.enter _, by simp [Reader.rank], trivial⟩
  | statement => exact ⟨0, .refl _, by simp [Reader.rank], trivial⟩
  | @next bound column c mid statement read starts =>
    obtain ⟨_, moves⟩ := (all_read bound).statement c ready statement mid read
    exact ⟨1, moves.reaches, by simp [Reader.rank], trivial⟩
  | value word named is =>
    have moves := binders_move ready (by simp [word]) (by simp) named is
    exact ⟨3, moves.reaches, by simp [Reader.rank], trivial⟩
  | @action bound c binds =>
    have moves := ready.take_two (by simp [binds.1]) (by simp [binds.2])
    exact ⟨2, moves.reaches, by simp [Reader.rank], trivial⟩
  | @run bound c defines binds =>
    exact ⟨0, ⟨List.suffix_rfl, Nat.le_refl _, rfl, List.suffix_rfl⟩, by simp [Reader.rank],
      trivial⟩

theorem Calls.bound {call next : Call} (calls : Calls call next) :
    call.bound = next.bound + 1 := by
  cases calls <;> rfl

end Expr

namespace Module

open Cursor

namespace Reader

def rank : Reader → Nat
  | parts _ => 2
  | modules _ | part => 1
  | module | «import» | foreign | signature | value | type => 0
  | expression reader _ => reader.rank

/-- What the part relies on where it is called. A bound is large enough for the tokens to come. -/
def Asks : Reader → Cursor → Prop
  | modules bound, c | parts bound, c => c.tokens.length < bound
  | module, _ | part, _ => True
  | «import», c => c.kind = .keyword .importWord
  | foreign, c => c.kind = .keyword .foreignWord
  | signature, c => c.kind = .identifier ∧ c.secondKind = .mark .doubleColon
  | value, c => c.kind = .identifier
  | type, c => c.fresh = false
  | expression reader bound, c => reader.Asks c ∧ Expr.Enough reader.rank bound c

theorem Asks.unspent {reader : Reader} {c : Cursor} (asks : reader.Asks c) : ¬reader.Spent := by
  intro spent
  cases reader with
  | modules bound | parts bound =>
    have enough : c.tokens.length < bound := asks
    have none : bound = 0 := spent
    omega
  | expression reader bound =>
    have enough : 8 * c.tokens.length + reader.rank ≤ bound := asks.2
    have none : bound = 0 := spent
    have some := reader.rank_pos
    omega
  | module | part | «import» | foreign | signature | value | type => exact spent

end Reader

theorem one_moves {file : String} {text : List Char} {c mid : Cursor} {m : Module}
    (ready : c.Ready) (read : parseOne file text c = .ok (m, mid)) : c.Moves 1 mid := by
  have each : ∀ d, c.Moves 0 d → Reads d 1 Item.Formed (parseItem text d) :=
    fun d moves => item_reads (ready.moves moves) text
  exact (one_reads each ready file (Moves.refl c) m mid read).2

theorem expect_stale {kind : TokenKind} {what : String} {token : Token} {c after : Cursor}
    (taken : c.expect kind what = .ok (token, after)) : after.fresh = false := by
  unfold Cursor.expect at taken
  split at taken
  · cases taken
    rfl
  · cases taken

theorem Calls.goes_on {file : String} {text : List Char} {call next : Call}
    (calls : Calls file text call next) (ready : call.cursor.Ready)
    (asks : call.reader.Asks call.cursor) :
    ∃ least, call.cursor.Reaches least next.cursor ∧
      next.reader.rank < 8 * least + call.reader.rank ∧ next.reader.Asks next.cursor := by
  cases calls with
  | module => exact ⟨0, .refl _, by simp [Reader.rank], trivial⟩
  | @modules bound c mid m more read =>
    have moves : c.Moves 1 mid := one_moves ready read
    have fewer : mid.tokens.length < bound := by
      have enough : c.tokens.length < bound + 1 := asks
      have length := moves.length
      omega
    exact ⟨1, moves.reaches, by simp [Reader.rank], fewer⟩
  | @parts bound c mid after name word header named goes ends enough =>
    have forward := (ready.take (header_inside header)).2
    have ready := ready.moves forward
    have first := expect_moves ready (by simp) named
    have second := expect_moves (ready.moves first) (by simp) goes
    exact ⟨3, ((forward.trans first).trans second).reaches, by simp [Reader.rank], enough⟩
  | part => exact ⟨0, .refl _, by simp [Reader.rank], trivial⟩
  | @further bound c mid item more begins read ends =>
    have moves : c.Moves 1 mid := (item_reads ready text item mid read).2
    have fewer : mid.tokens.length < bound := by
      have enough : c.tokens.length < bound + 1 := asks
      have length := moves.length
      omega
    exact ⟨1, moves.reaches, by simp [Reader.rank], fewer⟩
  | «import» word => exact ⟨0, .refl _, by simp [Reader.rank], word⟩
  | foreign word => exact ⟨0, .refl _, by simp [Reader.rank], word⟩
  | signature named typed => exact ⟨0, .refl _, by simp [Reader.rank], named, typed⟩
  | value named => exact ⟨0, .refl _, by simp [Reader.rank], named⟩
  | @foreignType c second third fourth after word name javascript colons goes named given typed =>
    have here : c.kind = .keyword .foreignWord := asks
    have forward := (ready.take (by simp [here])).2
    have ready := ready.moves forward
    have one := expect_moves ready (by simp) goes
    have ready := ready.moves one
    have two := expect_moves ready (by simp) named
    have ready := ready.moves two
    have three := expect_moves ready (by simp) given
    have four := expect_moves (ready.moves three) (by simp) typed
    exact ⟨5, ((((forward.trans one).trans two).trans three).trans four).reaches,
      by simp [Reader.rank], expect_stale typed⟩
  | @signatureType c =>
    have here : c.kind = .identifier ∧ c.secondKind = .mark .doubleColon := asks
    have moves := ready.take_two (by simp [here.1]) (by simp [here.2])
    exact ⟨2, moves.reaches, by simp [Reader.rank], rfl⟩
  | @body bound c after assign is enough =>
    have here : c.kind = .identifier := asks
    have forward := (ready.take (by simp [here])).2
    have rest := named_moves (ready.moves forward) (by simp) is
    have deep : Expr.Enough 5 bound after := by
      unfold Expr.readingDepth at enough
      unfold Expr.Enough
      omega
    exact ⟨2, (forward.trans rest).reaches, by simp [Reader.rank, Expr.Reader.rank], trivial, deep⟩
  | @inside call next calls =>
    obtain ⟨least, reaches, lower, asked⟩ := calls.goes_on ready asks.1
    have enough : Expr.Enough next.reader.rank next.bound next.cursor := by
      have before : Expr.Enough call.reader.rank call.bound call.cursor := asks.2
      have length := reaches.length
      rw [calls.bound] at before
      unfold Expr.Enough at before ⊢
      omega
    exact ⟨least, reaches, lower, asked, enough⟩

end Module

end PureJs
