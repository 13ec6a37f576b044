import PureJs.Proofs.Token.Names
import PureJs.Syntax.Cursor

/-!
How reading moves a cursor: forwards over some of the tokens, with the layout and the end of the
input as they were. `Reads` states this of a parser, together with what it returns.
-/

namespace PureJs

namespace Cursor

structure Ready (c : Cursor) : Prop where
  named : ∀ token ∈ c.tokens, token.WellNamed
  finish : c.finish.kind = .endOfInput

structure Moves (least : Nat) (c after : Cursor) : Prop where
  suffix : after.tokens <:+ c.tokens
  length : after.tokens.length + least ≤ c.tokens.length
  finish : after.finish = c.finish
  layout : after.layout = c.layout

theorem Moves.refl (c : Cursor) : c.Moves 0 c :=
  ⟨List.suffix_rfl, Nat.le_refl _, rfl, rfl⟩

theorem Moves.trans {a b : Nat} {c mid after : Cursor} (first : c.Moves a mid)
    (second : mid.Moves b after) : c.Moves (a + b) after where
  suffix := second.suffix.trans first.suffix
  length := by
    have := first.length
    have := second.length
    omega
  finish := second.finish.trans first.finish
  layout := second.layout.trans first.layout

theorem Moves.weaken {a b : Nat} {c after : Cursor} (moves : c.Moves a after) (le : b ≤ a) :
    c.Moves b after :=
  ⟨moves.suffix, by have := moves.length; omega, moves.finish, moves.layout⟩

theorem Ready.moves {least : Nat} {c after : Cursor} (ready : c.Ready)
    (moves : c.Moves least after) :
    after.Ready :=
  ⟨fun token member => ready.named token (moves.suffix.subset member), moves.finish ▸ ready.finish⟩

theorem Ready.enter {c : Cursor} (ready : c.Ready) (column : Nat) : (c.enter column).Ready :=
  ⟨ready.named, ready.finish⟩

theorem Moves.leave {least : Nat} {c after : Cursor} {column : Nat}
    (moves : (c.enter column).Moves least after) : c.Moves least after.leave :=
  ⟨moves.suffix, moves.length, moves.finish, by simp [Cursor.leave, moves.layout, Cursor.enter]⟩

theorem Ready.take {c : Cursor} (ready : c.Ready) (inside : c.kind ≠ .endOfInput) :
    c.peek.WellNamed ∧ c.Moves 1 c.advance := by
  cases tokens : c.tokens with
  | nil =>
    have last : c.kind = .endOfInput := by simp [kind, peek, tokens, ready.finish]
    exact (inside last).elim
  | cons token rest =>
    refine ⟨?_, ⟨by simp [advance, tokens], by simp [advance, tokens], rfl, rfl⟩⟩
    exact ready.named _ (by simp [peek, tokens])

theorem Ready.take_two {c : Cursor} (ready : c.Ready) (first : c.kind ≠ .endOfInput)
    (second : c.secondKind ≠ .endOfInput) : c.Moves 2 c.advance.advance := by
  have forward := (ready.take first).2
  have next : c.advance.kind ≠ .endOfInput := second
  exact forward.trans ((ready.moves forward).take next).2

theorem identifiers_read (c : Cursor) (ready : c.Ready) :
    (∀ name ∈ c.identifiers.1, Lexical name) ∧ c.Moves 0 c.identifiers.2 := by
  constructor
  · intro name member
    simp only [identifiers, List.mem_map] at member
    obtain ⟨token, taken, same⟩ := member
    have kind : token.kind = .identifier := by simpa using List.mem_takeWhile_imp taken
    exact same ▸ (ready.named token ((List.takeWhile_sublist _).subset taken)).1 kind
  · exact ⟨List.dropWhile_suffix _, (List.dropWhile_sublist _).length_le, rfl, rfl⟩

end Cursor

/-- From the cursor, the parser comes to a good result and moves on by at least `least` tokens. -/
def Reads {α : Type} (c : Cursor) (least : Nat) (good : α → Prop)
    (result : Except ParseFault (α × Cursor)) : Prop :=
  ∀ value after, result = .ok (value, after) → good value ∧ c.Moves least after

namespace Reads

variable {α β : Type} {c : Cursor} {least more : Nat} {good : α → Prop} {fine : β → Prop}

theorem ok {value : α} {after : Cursor} (holds : good value) (moves : c.Moves least after) :
    Reads c least good (.ok (value, after)) := by
  intro other cursor same
  cases same
  exact ⟨holds, moves⟩

theorem error (fault : ParseFault) : Reads c least good (.error fault) := by
  intro value after same
  cases same

theorem after_move {mid : Cursor} {total : Nat} {result : Except ParseFault (α × Cursor)}
    (moves : c.Moves least mid) (reads : Reads mid more good result)
    (enough : total ≤ least + more) : Reads c total good result := by
  intro value after same
  obtain ⟨holds, further⟩ := reads value after same
  exact ⟨holds, (moves.trans further).weaken enough⟩

theorem bind {total : Nat} (more : Nat) (enough : total ≤ least + more)
    {first : Except ParseFault (α × Cursor)}
    {next : α × Cursor → Except ParseFault (β × Cursor)} (reads : Reads c least good first)
    (goes : ∀ value after, good value → c.Moves least after →
      Reads after more fine (next (value, after))) :
    Reads c total fine (first >>= next) := by
  cases first with
  | error fault => exact error fault
  | ok pair =>
    obtain ⟨holds, moves⟩ := reads pair.1 pair.2 rfl
    exact after_move moves (goes pair.1 pair.2 holds moves) enough

theorem expect {kind : TokenKind} {what : String} (ready : c.Ready) (inside : kind ≠ .endOfInput) :
    Reads c 1 (fun token => token.kind = kind ∧ token.WellNamed) (c.expect kind what) := by
  unfold Cursor.expect
  split
  · rename_i here
    have take := ready.take (by rw [here]; exact inside)
    exact ok ⟨here, take.1⟩ take.2
  · exact error _

theorem expect_name {what : String} (ready : c.Ready) :
    Reads c 1 (fun token => Lexical token.value) (c.expect .identifier what) := by
  intro token after same
  obtain ⟨⟨kind, named⟩, moves⟩ := expect ready (by simp) token after same
  exact ⟨named.1 kind, moves⟩

/-- What stands in brackets is read under a layout of its own, and the bracket that closes it is
taken. -/
theorem bracketed {closing : TokenKind} {what : String} {inner : Except ParseFault (α × Cursor)}
    {build : α → β} (ready : c.Ready) (inside : c.kind ≠ .endOfInput)
    (proper : closing ≠ .endOfInput) (reads : Reads (c.advance.enter 0) least good inner)
    (holds : ∀ value, good value → fine (build value)) :
    Reads c 1 fine (do
      let (value, c) ← inner
      let (_, c) ← c.expect closing what
      pure (build value, c.leave)) := by
  have forward := (ready.take inside).2
  have entered := (ready.moves forward).enter 0
  intro result last same
  cases inner with
  | error fault => cases same
  | ok pair =>
    obtain ⟨value, after⟩ := pair
    obtain ⟨fits, moves⟩ := reads value after rfl
    cases closed : after.expect closing what with
    | error fault =>
      simp only [Bind.bind, Except.bind, closed] at same
      cases same
    | ok pair =>
      obtain ⟨token, final⟩ := pair
      simp only [Bind.bind, Except.bind, closed] at same
      cases same
      have taken := (expect (entered.moves moves) proper token final closed).2
      exact ⟨holds value fits, (forward.trans (moves.trans taken).leave).weaken (by omega)⟩

end Reads

end PureJs
