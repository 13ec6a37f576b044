import PureJs.Proofs.Syntax.Layout

/-!
The tokens that a parser takes from a cursor. `Lays` relates them to what it returns, and puts the
cursor behind them, where the layout counts again.
-/

namespace PureJs

namespace Cursor

def margin (c : Cursor) : Nat := c.layout.headD 0

/-- Taking the tokens leads from one cursor to the other, for which the layout counts. -/
structure Takes (c : Cursor) (taken : List Token) (after : Cursor) : Prop where
  tokens : c.tokens = taken ++ after.tokens
  finish : after.finish = c.finish
  layout : after.layout = c.layout
  stale : after.fresh = false

variable {c mid after : Cursor} {front back taken : List Token}

theorem Takes.refl (stale : c.fresh = false) : c.Takes [] c := ⟨rfl, rfl, rfl, stale⟩

theorem Takes.trans (first : c.Takes front mid) (second : mid.Takes back after) :
    c.Takes (front ++ back) after where
  tokens := by rw [first.tokens, second.tokens, List.append_assoc]
  finish := second.finish.trans first.finish
  layout := second.layout.trans first.layout
  stale := second.stale

theorem Takes.margin (takes : c.Takes taken after) : after.margin = c.margin :=
  congrArg (List.headD · 0) takes.layout

theorem Takes.ready (takes : c.Takes taken after) (ready : c.Ready) : after.Ready := by
  constructor
  · intro token member
    exact ready.named token (by rw [takes.tokens]; exact List.mem_append_right taken member)
  · rw [takes.finish]
    exact ready.finish

theorem Takes.leave {column : Nat} (takes : (c.enter column).Takes taken after) :
    c.Takes taken after.leave where
  tokens := takes.tokens
  finish := takes.finish
  layout := by simp [Cursor.leave, takes.layout, Cursor.enter]
  stale := takes.stale

theorem takes_next (ready : c.Ready) (inside : c.kind ≠ .endOfInput) :
    c.Takes [c.peek] c.advance := by
  constructor
  · cases tokens : c.tokens with
    | nil =>
      have last : c.kind = .endOfInput := by simp [kind, peek, tokens, ready.finish]
      exact absurd last inside
    | cons token rest => simp [peek, advance, tokens]
  · rfl
  · rfl
  · rfl

theorem takes_peek (takes : c.Takes taken after) {t : Token} {rest : List Token}
    (split : taken = t :: rest) : c.peek = t := by
  simp [peek, takes.tokens, split]

/-- What goes on from a cursor that is at no boundary does not open its line too far left. -/
theorem Takes.starts (takes : c.Takes taken after) (stale : c.fresh = false)
    (goes : ¬c.atBoundary = true) : Starts c.margin taken := by
  intro t rest split opens
  have here := takes_peek takes split
  simp only [atBoundary, breaksLayout, stale, here, opens, Bool.not_false, Bool.true_and,
    Bool.or_eq_true, decide_eq_true_eq, not_or, Nat.not_le] at goes
  exact goes.2

theorem takes_identifiers (stale : c.fresh = false) :
    ∃ names : List Token, (∀ name ∈ names, name.kind = .identifier) ∧
      c.identifiers.1 = names.map Token.value ∧ c.Takes names c.identifiers.2 := by
  refine ⟨c.tokens.takeWhile (·.kind = .identifier), ?_, rfl, ?_⟩
  · intro name member
    simpa using List.mem_takeWhile_imp member
  · constructor
    · exact List.takeWhile_append_dropWhile.symm
    · rfl
    · rfl
    · simp [identifiers, stale]

end Cursor

def Lays {α : Type} (c : Cursor) (good : α → List Token → Prop)
    (result : Except ParseFault (α × Cursor)) : Prop :=
  ∀ value after, result = .ok (value, after) → ∃ taken, c.Takes taken after ∧ good value taken

namespace Lays

variable {α β : Type} {c : Cursor} {good : α → List Token → Prop} {fine : β → List Token → Prop}

theorem ok {value : α} (stale : c.fresh = false) (holds : good value []) :
    Lays c good (.ok (value, c)) := by
  intro other after same
  cases same
  exact ⟨[], .refl stale, holds⟩

theorem error (fault : ParseFault) : Lays c good (.error fault) := by
  intro value after same
  cases same

theorem after_taking {mid : Cursor} {front : List Token} {result : Except ParseFault (α × Cursor)}
    (takes : c.Takes front mid)
    (lays : Lays mid (fun value back => good value (front ++ back)) result) :
    Lays c good result := by
  intro value after same
  obtain ⟨back, further, holds⟩ := lays value after same
  exact ⟨front ++ back, takes.trans further, holds⟩

theorem bind {first : Except ParseFault (α × Cursor)}
    {next : α × Cursor → Except ParseFault (β × Cursor)} (lays : Lays c good first)
    (goes : ∀ value mid front, c.Takes front mid → good value front →
      Lays mid (fun value back => fine value (front ++ back)) (next (value, mid))) :
    Lays c fine (first >>= next) := by
  cases first with
  | error fault => exact error fault
  | ok pair =>
    obtain ⟨front, takes, holds⟩ := lays pair.1 pair.2 rfl
    exact after_taking takes (goes pair.1 pair.2 front takes holds)

theorem renew {result : Except ParseFault (α × Cursor)}
    (lays : Lays { c with fresh := true } good result) : Lays c good result := by
  intro value after same
  obtain ⟨taken, takes, holds⟩ := lays value after same
  exact ⟨taken, ⟨takes.tokens, takes.finish, takes.layout, takes.stale⟩, holds⟩

theorem expect {kind : TokenKind} {what : String} (ready : c.Ready) (inside : kind ≠ .endOfInput) :
    Lays c (fun token taken => taken = [token] ∧ token.kind = kind) (c.expect kind what) := by
  unfold Cursor.expect
  split
  · rename_i here
    intro token after same
    cases same
    exact ⟨[c.peek], Cursor.takes_next ready (by rw [here]; exact inside), rfl, here⟩
  · exact error _

theorem bracketed {closing : TokenKind} {what : String} {inner : Except ParseFault (α × Cursor)}
    {build : α → β} (ready : c.Ready) (inside : c.kind ≠ .endOfInput)
    (proper : closing ≠ .endOfInput) (lays : Lays (c.advance.enter 0) good inner)
    (builds : ∀ value taken last, good value taken → last.kind = closing →
      fine (build value) (c.peek :: taken ++ [last])) :
    Lays c fine (do
      let (value, c) ← inner
      let (_, c) ← c.expect closing what
      pure (build value, c.leave)) := by
  have takes := Cursor.takes_next ready inside
  intro result last same
  cases inner with
  | error fault => cases same
  | ok pair =>
    obtain ⟨value, after⟩ := pair
    obtain ⟨taken, within, holds⟩ := lays value after rfl
    cases closed : after.expect closing what with
    | error fault =>
      simp only [Bind.bind, Except.bind, closed] at same
      cases same
    | ok pair =>
      obtain ⟨token, final⟩ := pair
      simp only [Bind.bind, Except.bind, closed] at same
      cases same
      have ready := within.ready ((takes.ready ready).enter 0)
      obtain ⟨_, ended, rfl, kind⟩ := expect ready proper token final closed
      exact ⟨c.peek :: taken ++ [token], takes.trans (within.trans ended).leave,
        builds value taken token holds kind⟩

end Lays

end PureJs
