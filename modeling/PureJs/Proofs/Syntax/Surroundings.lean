import PureJs.Proofs.Syntax.LaidOutModules
import PureJs.Proofs.Token.Joined

/-!
The tokens of a text between other tokens. Where the tokens end, a module header behind them stops
the reading like the end of the input does, as long as the reading is in no brackets.
-/

namespace PureJs

/-- Where tokens come to stand: so many lines down and characters on, in front of other tokens. -/
structure Surroundings where
  lines : Nat
  offset : Nat
  behind : List Token
  finish : Token

namespace Surroundings

def move (around : Surroundings) : Token → Token := Token.moved around.lines around.offset

/-- What comes behind is nothing or begins a module. -/
structure Sound (around : Surroundings) : Prop where
  finish : around.finish.kind = .endOfInput
  header : ∀ t ∈ around.behind.head?,
    t.kind = .keyword .moduleWord ∧ t.opensLine = true ∧ t.column = 1

end Surroundings

namespace Cursor

def inside (around : Surroundings) (c : Cursor) : Cursor :=
  { c with tokens := c.tokens.map around.move ++ around.behind, finish := around.finish }

def Open (c : Cursor) : Prop := c.tokens = [] → 1 ≤ c.margin

structure Proper (c : Cursor) : Prop where
  ready : c.Ready
  placed : Placed c.tokens

variable {around : Surroundings} {c mid after : Cursor} {taken : List Token}

theorem Takes.proper (takes : c.Takes taken after) (proper : c.Proper) : after.Proper :=
  ⟨takes.ready proper.ready, (takes.placed proper.placed).2⟩

theorem Proper.enter (proper : c.Proper) (column : Nat) : (c.enter column).Proper :=
  ⟨proper.ready.enter column, proper.placed⟩

theorem Proper.renew (proper : c.Proper) : ({ c with fresh := true } : Cursor).Proper :=
  ⟨⟨proper.ready.named, proper.ready.finish⟩, proper.placed⟩

theorem Takes.open (takes : c.Takes taken after) (opens : after.Open) : c.Open := by
  intro none
  rw [takes.tokens] at none
  rw [← takes.margin]
  exact opens (List.append_eq_nil_iff.mp none).2

theorem open_of_some (some : c.tokens ≠ []) : c.Open := fun none => absurd none some

theorem some_of_going (goes : ¬c.atBoundary = true) : c.tokens ≠ [] := by
  intro none
  simp [atBoundary, atEnd, none] at goes

theorem some_of_kind (ready : c.Ready) {kind : TokenKind} (here : c.kind = kind)
    (proper : kind ≠ .endOfInput) : c.tokens ≠ [] := by
  intro none
  subst here
  exact proper (by simp [Cursor.kind, peek, none, ready.finish])

theorem inside_peek (some : c.tokens ≠ []) : (c.inside around).peek = around.move c.peek := by
  obtain ⟨token, rest, tokens⟩ := List.exists_cons_of_ne_nil some
  simp [peek, inside, tokens]

theorem inside_kind (some : c.tokens ≠ []) : (c.inside around).kind = c.kind := by
  rw [Cursor.kind, inside_peek some]
  rfl

theorem inside_advance (some : c.tokens ≠ []) :
    (c.inside around).advance = c.advance.inside around := by
  obtain ⟨token, rest, tokens⟩ := List.exists_cons_of_ne_nil some
  simp [advance, inside, tokens]

section Sound

variable (sound : around.Sound)
include sound

theorem inside_end (none : c.tokens = []) :
    (c.inside around).tokens = [] ∧ (c.inside around).kind = .endOfInput ∨
      (c.inside around).kind = .keyword .moduleWord ∧ (c.inside around).peek.opensLine = true ∧
        (c.inside around).peek.column = 1 := by
  cases behind : around.behind with
  | nil =>
    left
    simp [inside, none, behind, Cursor.kind, peek, sound.finish]
  | cons t rest =>
    right
    have header := sound.header t (by simp [behind])
    simpa [inside, none, behind, Cursor.kind, peek] using header

theorem inside_kinds (ready : c.Ready) : (c.inside around).kind = c.kind ∨
    c.kind = .endOfInput ∧ (c.inside around).kind = .keyword .moduleWord := by
  by_cases none : c.tokens = []
  · have here : c.kind = .endOfInput := by simp [Cursor.kind, peek, none, ready.finish]
    rcases inside_end sound none with ⟨_, last⟩ | ⟨header, _⟩
    · exact .inl (last.trans here.symm)
    · exact .inr ⟨here, header⟩
  · exact .inl (inside_kind none)

theorem inside_kind_iff (ready : c.Ready) {kind : TokenKind} (proper : kind ≠ .endOfInput)
    (word : kind ≠ .keyword .moduleWord) : (c.inside around).kind = kind ↔ c.kind = kind := by
  rcases inside_kinds sound ready with same | ⟨last, header⟩
  · rw [same]
  · rw [last, header]
    exact ⟨fun same => absurd same.symm word, fun same => absurd same.symm proper⟩

theorem inside_second_iff (ready : c.Ready) (some : c.tokens ≠ []) {kind : TokenKind}
    (proper : kind ≠ .endOfInput) (word : kind ≠ .keyword .moduleWord) :
    (c.inside around).secondKind = kind ↔ c.secondKind = kind := by
  have next : c.advance.Ready :=
    ⟨fun token member => ready.named token (List.mem_of_mem_tail member), ready.finish⟩
  have same := inside_kind_iff sound next proper word
  rw [← inside_advance some] at same
  exact same

theorem inside_operator (ready : c.Ready) : (c.inside around).operator? = c.operator? := by
  unfold operator?
  rcases inside_kinds sound ready with same | ⟨last, header⟩
  · rw [same]
  · rw [last, header]

theorem inside_starts_atom (ready : c.Ready) : (c.inside around).startsAtom = c.startsAtom := by
  unfold startsAtom
  rcases inside_kinds sound ready with same | ⟨last, header⟩
  · rw [same]
  · rw [last, header]
    rfl

theorem inside_starts_block (ready : c.Ready) : (c.inside around).startsBlock = c.startsBlock := by
  unfold startsBlock
  rcases inside_kinds sound ready with same | ⟨last, header⟩
  · rw [same]
  · rw [last, header]
    rfl

theorem inside_boundary (opens : c.Open) (stale : c.tokens = [] → c.fresh = false) :
    (c.inside around).atBoundary = c.atBoundary := by
  by_cases none : c.tokens = []
  · have here : c.atBoundary = true := by simp [atBoundary, atEnd, none]
    have margin : 1 ≤ c.margin := opens none
    rw [here]
    rcases inside_end sound none with ⟨none, _⟩ | ⟨_, opened, column⟩
    · simp [atBoundary, atEnd, none]
    · have calm : (c.inside around).fresh = false := stale none
      have breaks : (c.inside around).breaksLayout (c.inside around).peek = true := by
        rw [breaksLayout, opened, column]
        exact decide_eq_true margin
      simp [atBoundary, calm, breaks]
  · obtain ⟨token, rest, tokens⟩ := List.exists_cons_of_ne_nil none
    simp [atBoundary, atEnd, breaksLayout, inside, tokens, peek,
      Surroundings.move, Token.moved, Token.column, Position.below]

theorem inside_begins {column : Nat} (right : c.tokens = [] → 1 < column) :
    (!(c.inside around).atEnd && (c.inside around).peek.opensLine &&
        (c.inside around).peek.column = column) =
      (!c.atEnd && c.peek.opensLine && c.peek.column = column) := by
  by_cases none : c.tokens = []
  · have far := right none
    rcases inside_end sound none with ⟨last, _⟩ | ⟨_, opened, first⟩
    · simp [atEnd, none, last]
    · have apart : ¬1 = column := by omega
      simp [atEnd, none, first, apart]
  · obtain ⟨token, rest, tokens⟩ := List.exists_cons_of_ne_nil none
    simp [atEnd, inside, tokens, peek, Surroundings.move, Token.moved, Token.column, Position.below]

omit sound in
theorem run_inside (around : Surroundings) (wanted : Token → Bool) (tokens : List Token)
    (same : ∀ t, wanted (around.move t) = wanted t)
    (unwanted : ∀ t ∈ around.behind.head?, wanted t = false) :
    (tokens.map around.move ++ around.behind).takeWhile wanted =
        (tokens.takeWhile wanted).map around.move ∧
      (tokens.map around.move ++ around.behind).dropWhile wanted =
        (tokens.dropWhile wanted).map around.move ++ around.behind := by
  induction tokens with
  | nil =>
    cases behind : around.behind with
    | nil => simp
    | cons t rest => simp [unwanted t (by simp [behind])]
  | cons t rest ih =>
    cases here : wanted t with
    | false => simp [same, here]
    | true => simpa [same, here] using ih

theorem inside_identifiers :
    (c.inside around).identifiers = (c.identifiers.1, c.identifiers.2.inside around) := by
  have run := run_inside around (·.kind = .identifier) c.tokens (fun t => rfl) (by
    intro t member
    simp [(sound.header t member).1])
  have values : ∀ names : List Token,
      (names.map around.move).map Token.value = names.map Token.value := by
    intro names
    rw [List.map_map]
    rfl
  simp only [identifiers, inside, run.1, run.2, values, List.isEmpty_map]

theorem inside_module_over :
    ((c.inside around).atEnd || (c.inside around).atModuleHeader) =
      (c.atEnd || c.atModuleHeader) := by
  by_cases none : c.tokens = []
  · rcases inside_end sound none with ⟨last, _⟩ | ⟨header, opened, first⟩
    · simp [atEnd, none, last]
    · simp [atEnd, atModuleHeader, none, header, opened, first]
  · obtain ⟨token, rest, tokens⟩ := List.exists_cons_of_ne_nil none
    simp [atEnd, atModuleHeader, Cursor.kind, inside, tokens, peek, Surroundings.move, Token.moved,
      Token.column, Position.below]

theorem inside_until_boundary (margin : 1 ≤ c.margin) : (c.inside around).untilBoundary =
    (c.untilBoundary.1.map around.move, c.untilBoundary.2.inside around) := by
  have header : ∀ t ∈ around.behind.head?, (!c.breaksLayout t) = false := by
    intro t member
    obtain ⟨_, opens, column⟩ := sound.header t member
    rw [breaksLayout, opens, column, Bool.true_and, Bool.not_eq_false', decide_eq_true_eq]
    exact margin
  have run := run_inside around (!c.breaksLayout ·) c.tokens (fun t => rfl) header
  unfold untilBoundary
  show ((c.tokens.map around.move ++ around.behind).takeWhile (!c.breaksLayout ·),
    ({ c with
      tokens := (c.tokens.map around.move ++ around.behind).dropWhile (!c.breaksLayout ·)
      finish := around.finish
      fresh := false } : Cursor)) = _
  rw [run.1, run.2]
  rfl

end Sound

end Cursor

/-- What the one parser reads, the other reads inside the surroundings, if the tokens do not end
within brackets. -/
def Carries {α : Type} (around : Surroundings) (c : Cursor) (move : α → α)
    (result inner : Except ParseFault (α × Cursor)) : Prop :=
  ∀ value after, result = .ok (value, after) → after.Open →
    c.Open ∧ inner = .ok (move value, after.inside around)

namespace Carries

open Cursor

variable {α β : Type} {around : Surroundings} {c : Cursor} {move : α → α} {change : β → β}

theorem ok (value : α) :
    Carries around c move (.ok (value, c)) (.ok (move value, c.inside around)) := by
  intro other after same opens
  cases same
  exact ⟨opens, rfl⟩

theorem error (fault : ParseFault) {inner : Except ParseFault (α × Cursor)} :
    Carries around c move (.error fault) inner := by
  intro value after same
  cases same

theorem after_taking {mid : Cursor} {front : List Token}
    {result inner : Except ParseFault (α × Cursor)} (takes : c.Takes front mid)
    (carries : Carries around mid move result inner) : Carries around c move result inner := by
  intro value after same opens
  obtain ⟨opens, found⟩ := carries value after same opens
  exact ⟨takes.open opens, found⟩

theorem bind {good : α → List Token → Prop} {first inner : Except ParseFault (α × Cursor)}
    {next further : α × Cursor → Except ParseFault (β × Cursor)} (lays : Lays c good first)
    (carries : Carries around c move first inner)
    (goes : ∀ value mid front, c.Takes front mid → good value front →
      Carries around mid change (next (value, mid)) (further (move value, mid.inside around))) :
    Carries around c change (first >>= next) (inner >>= further) := by
  cases first with
  | error fault => exact error fault
  | ok pair =>
    obtain ⟨value, mid⟩ := pair
    obtain ⟨front, takes, holds⟩ := lays value mid rfl
    intro result after same opens
    obtain ⟨opens, found⟩ := goes value mid front takes holds result after same opens
    obtain ⟨opens, start⟩ := carries value mid rfl opens
    rw [start]
    exact ⟨opens, found⟩

theorem unless_boundary (sound : around.Sound) (stale : c.fresh = false) (value : α)
    {rest inner : Except ParseFault (α × Cursor)}
    (carries : c.tokens ≠ [] → ¬c.atBoundary = true → Carries around c move rest inner) :
    Carries around c move (if c.atBoundary = true then .ok (value, c) else rest)
      (if (c.inside around).atBoundary = true then .ok (move value, c.inside around)
        else inner) := by
  by_cases goes : c.atBoundary = true
  · rw [if_pos goes]
    intro other after same opens
    cases same
    rw [inside_boundary sound opens fun _ => stale, if_pos goes]
    exact ⟨opens, rfl⟩
  · have some := some_of_going goes
    have same := inside_boundary sound (open_of_some some) fun none => absurd none some
    rw [same, if_neg goes, if_neg goes]
    exact carries some goes

theorem expected (around : Surroundings) {kind : TokenKind} {what : String} {token : Token}
    {after : Cursor} (ready : c.Ready) (proper : kind ≠ .endOfInput)
    (taken : c.expect kind what = .ok (token, after)) :
    c.tokens ≠ [] ∧
      (c.inside around).expect kind what = .ok (around.move token, after.inside around) := by
  unfold Cursor.expect at taken ⊢
  split at taken
  · rename_i here
    cases taken
    have some := some_of_kind ready here proper
    rw [inside_kind some, if_pos here, inside_peek some, inside_advance some]
    exact ⟨some, rfl⟩
  · cases taken

theorem expect {kind : TokenKind} {what : String} (ready : c.Ready) (proper : kind ≠ .endOfInput) :
    Carries around c around.move (c.expect kind what) ((c.inside around).expect kind what) := by
  intro token after taken _
  obtain ⟨some, found⟩ := expected around ready proper taken
  exact ⟨open_of_some some, found⟩

theorem bracketed (build rebuild : α → β) {closing : TokenKind} {what : String}
    {inner further : Except ParseFault (α × Cursor)}
    (proper : c.Proper) (inside : c.kind ≠ .endOfInput) (closes : closing ≠ .endOfInput)
    {good : α → List Token → Prop} (lays : Lays (c.advance.enter 0) good inner)
    (carries : Carries around (c.advance.enter 0) move inner further)
    (moves : ∀ value, rebuild (move value) = change (build value)) :
    Carries around c change
      (do
        let (value, c) ← inner
        let (_, c) ← c.expect closing what
        pure (build value, c.leave))
      (do
        let (value, c) ← further
        let (_, c) ← c.expect closing what
        pure (rebuild value, c.leave)) := by
  have within := ((takes_next proper.ready inside).proper proper).enter 0
  intro result last same _
  cases inner with
  | error fault => cases same
  | ok pair =>
    obtain ⟨value, mid⟩ := pair
    obtain ⟨taken, takes, _⟩ := lays value mid rfl
    have ready := (takes.proper within).ready
    cases closed : mid.expect closing what with
    | error fault =>
      simp only [Bind.bind, Except.bind, closed] at same
      cases same
    | ok pair =>
      obtain ⟨token, final⟩ := pair
      obtain ⟨some, taken⟩ := expected around ready closes closed
      have start := (carries value mid rfl (open_of_some some)).2
      simp only [Bind.bind, Except.bind, closed] at same
      cases same
      simp only [start, Bind.bind, Except.bind, taken, moves]
      exact ⟨open_of_some (some_of_kind proper.ready rfl inside), rfl⟩

end Carries

end PureJs
