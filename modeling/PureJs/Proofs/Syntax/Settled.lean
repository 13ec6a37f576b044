import PureJs.Proofs.Syntax.Formed

/-!
Why reading can fail. The bound on its depth is never the reason: on the way to a part that begins
at the same token there are fewer than eight steps, so that eight for each token are enough. What
remains are faults of the text and integer literals without a value.
-/

namespace PureJs

/-- A fault that lies in the tokens and not in the bound of the reading. -/
inductive ParseFault.Arises (tokens : List Token) : ParseFault → Prop
  | malformed (problem : Problem) (place : Position) : Arises tokens (.malformed problem place)
  | numeral {token : Token} {fault : Text.NumeralFault} (member : token ∈ tokens)
      (kind : token.kind = .integer) (unreadable : Text.readNumeral token.value = .error fault) :
      Arises tokens (.numeral fault)

theorem ParseFault.Arises.mono {few tokens : List Token} {fault : ParseFault}
    (arises : fault.Arises few) (subset : few ⊆ tokens) : fault.Arises tokens := by
  cases arises with
  | malformed problem place => exact .malformed problem place
  | numeral member kind unreadable => exact .numeral (subset member) kind unreadable

def Settles {α : Type} (c : Cursor) (result : Except ParseFault α) : Prop :=
  ∀ fault, result = .error fault → fault.Arises c.tokens

namespace Settles

open Cursor

variable {α β : Type} {c : Cursor}

theorem ok (value : α) : Settles c (.ok value) := nofun

theorem malformed (problem : Problem) (place : Position) :
    Settles c (.error (.malformed problem place) : Except ParseFault α) := by
  intro fault same
  cases same
  exact .malformed problem place

theorem after_move {least : Nat} {mid : Cursor} {result : Except ParseFault α}
    (moves : c.Moves least mid) (settles : Settles mid result) : Settles c result :=
  fun fault same => (settles fault same).mono moves.suffix.subset

theorem bind {least : Nat} {good : α → Prop} {first : Except ParseFault (α × Cursor)}
    {next : α × Cursor → Except ParseFault β} (reads : Reads c least good first)
    (settles : Settles c first)
    (goes : ∀ value after, c.Moves least after → Settles after (next (value, after))) :
    Settles c (first >>= next) := by
  cases first with
  | error fault =>
    intro other same
    cases same
    exact settles fault rfl
  | ok pair =>
    have moves := (reads pair.1 pair.2 rfl).2
    exact after_move moves (goes pair.1 pair.2 moves)

theorem build {first : Except ParseFault (α × Cursor)} {next : α × Cursor → β}
    (settles : Settles c first) : Settles c (first >>= fun pair => .ok (next pair)) := by
  cases first with
  | error fault =>
    intro other same
    cases same
    exact settles fault rfl
  | ok pair => exact ok _

theorem enter {column : Nat} {result : Except ParseFault α}
    (settles : Settles (c.enter column) result) : Settles c result := settles

theorem expect (kind : TokenKind) (what : String) : Settles c (c.expect kind what) := by
  unfold Cursor.expect
  split
  · exact ok _
  · exact malformed _ _

end Settles

namespace Expr

open Cursor

def Enough (more fuel : Nat) (c : Cursor) : Prop := 8 * c.tokens.length + more ≤ fuel

theorem Enough.moves {more least other fuel : Nat} {c after : Cursor}
    (enough : Enough more (fuel + 1) c) (moves : c.Moves least after)
    (fewer : other + 1 ≤ 8 * least + more) : Enough other fuel after := by
  have length := moves.length
  unfold Enough at enough ⊢
  omega

theorem Enough.enter {more fuel : Nat} {c : Cursor} (enough : Enough more fuel c) (column : Nat) :
    Enough more fuel (c.enter column) := enough

structure AllSettle (fuel : Nat) : Prop where
  parse : ∀ c, c.Ready → Enough 5 fuel c → Settles c (parse fuel c)
  binary : ∀ least c, c.Ready → Enough 4 fuel c → Settles c (parseBinary fuel least c)
  chain : ∀ least left c, c.Ready → Enough 1 fuel c → Settles c (parseChain fuel least left c)
  unary : ∀ c, c.Ready → Enough 3 fuel c → Settles c (parseUnary fuel c)
  app : ∀ c, c.Ready → Enough 2 fuel c → Settles c (parseApp fuel c)
  arguments : ∀ function c, c.Ready → Enough 6 fuel c → Settles c (parseArguments fuel function c)
  atom : ∀ c, c.Ready → Enough 1 fuel c → Settles c (parseAtom fuel c)
  items : ∀ c, c.Ready → Enough 6 fuel c → Settles c (parseItems fuel c)
  lambda : ∀ c, c.Ready → c.kind = .mark .backslash → Enough 1 fuel c →
    Settles c (parseLambda fuel c)
  cond : ∀ c, c.Ready → c.kind = .keyword .ifWord → Enough 1 fuel c → Settles c (parseCond fuel c)
  block : ∀ c, c.Ready → c.kind = .keyword .doWord → Enough 1 fuel c →
    Settles c (parseBlock fuel c)
  statements : ∀ column c, c.Ready → Enough 7 fuel c → Settles c (parseStatements fuel column c)
  statement : ∀ c, c.Ready → Enough 6 fuel c → Settles c (parseStatement fuel c)

section Step

variable {fuel : Nat} (ih : AllSettle fuel) {c : Cursor} (ready : c.Ready)
include ih ready

theorem parse_settles (enough : Enough 5 (fuel + 1) c) : Settles c (parse (fuel + 1) c) := by
  have same := Moves.refl c
  unfold parse
  split
  · exact Settles.malformed _ _
  · split
    · rename_i kind
      exact ih.lambda c ready kind (enough.moves same (by omega))
    · rename_i kind
      exact ih.cond c ready kind (enough.moves same (by omega))
    · rename_i kind
      exact ih.block c ready kind (enough.moves same (by omega))
    · exact ih.binary 0 c ready (enough.moves same (by omega))

theorem binary_settles (least : Nat) (enough : Enough 4 (fuel + 1) c) :
    Settles c (parseBinary (fuel + 1) least c) := by
  unfold parseBinary
  apply Settles.bind ((all_read fuel).unary c ready)
    (ih.unary c ready (enough.moves (Moves.refl c) (by omega)))
  intro left after moves
  exact ih.chain least left after (ready.moves moves) (enough.moves moves (by omega))

theorem chain_settles (least : Nat) (left : Expr) (enough : Enough 1 (fuel + 1) c) :
    Settles c (parseChain (fuel + 1) least left c) := by
  unfold parseChain
  split
  · exact Settles.ok _
  · split
    · exact Settles.ok _
    · rename_i op here
      split
      · exact Settles.ok _
      · have forward := (ready.take (operator_inside here)).2
        have going := ready.moves forward
        have more : ∀ right after, c.advance.Moves 1 after → Settles after
            (parseChain fuel least (.binary c.peek.place op left right) after) := by
          intro right after moves
          exact ih.chain least _ after (going.moves moves)
            (enough.moves (forward.trans moves) (by omega))
        apply Settles.after_move forward
        dsimp only
        split
        · exact Settles.bind ((all_read fuel).parse _ going)
            (ih.parse _ going (enough.moves forward (by omega))) more
        · exact Settles.bind ((all_read fuel).binary _ _ going)
            (ih.binary _ _ going (enough.moves forward (by omega))) more

theorem unary_settles (enough : Enough 3 (fuel + 1) c) :
    Settles c (parseUnary (fuel + 1) c) := by
  unfold parseUnary
  split
  · rename_i minus
    have forward := (ready.take (by simp [minus])).2
    apply Settles.after_move forward
    exact Settles.build (ih.unary _ (ready.moves forward) (enough.moves forward (by omega)))
  · exact ih.app c ready (enough.moves (Moves.refl c) (by omega))

theorem app_settles (enough : Enough 2 (fuel + 1) c) : Settles c (parseApp (fuel + 1) c) := by
  unfold parseApp
  apply Settles.bind ((all_read fuel).atom c ready)
    (ih.atom c ready (enough.moves (Moves.refl c) (by omega)))
  intro function after moves
  exact ih.arguments function after (ready.moves moves) (enough.moves moves (by omega))

theorem arguments_settle (function : Expr) (enough : Enough 6 (fuel + 1) c) :
    Settles c (parseArguments (fuel + 1) function c) := by
  have same := Moves.refl c
  have more : ∀ argument after, c.Moves 1 after →
      Settles after (parseArguments fuel (.app function.place function argument) after) := by
    intro argument after moves
    exact ih.arguments _ after (ready.moves moves) (enough.moves moves (by omega))
  unfold parseArguments
  split
  · exact Settles.ok _
  · split
    · exact Settles.bind ((all_read fuel).atom c ready)
        (ih.atom c ready (enough.moves same (by omega))) more
    · split
      · exact Settles.bind ((all_read fuel).parse c ready)
          (ih.parse c ready (enough.moves same (by omega))) more
      · exact Settles.ok _

omit ih in
theorem integer_settles (kind : c.kind = .integer) : Settles c (integerValue c.peek) := by
  unfold integerValue
  split
  · exact Settles.ok _
  · rename_i fault unreadable
    intro other same
    cases same
    have inside : c.peek ∈ c.tokens := by
      cases tokens : c.tokens with
      | nil => simp [Cursor.kind, peek, tokens, ready.finish] at kind
      | cons token rest => simp [peek, tokens]
    exact .numeral inside kind unreadable

theorem atom_settles (enough : Enough 1 (fuel + 1) c) : Settles c (parseAtom (fuel + 1) c) := by
  unfold parseAtom
  dsimp only
  split
  · rename_i kind
    have value := integer_settles ready kind
    cases read : integerValue c.peek with
    | error fault =>
      intro other same
      cases same
      exact value fault read
    | ok number => exact Settles.ok _
  · exact Settles.ok _
  · exact Settles.ok _
  · exact Settles.ok _
  · exact Settles.ok _
  · exact Settles.ok _
  · exact Settles.ok _
  · rename_i kind
    have forward := (ready.take (by simp [Cursor.kind, kind])).2
    have entered := (ready.moves forward).enter 0
    apply Settles.after_move forward
    apply Settles.enter
    refine Settles.bind ((all_read fuel).parse _ entered)
      (ih.parse _ entered ((enough.moves forward (by omega)).enter 0)) ?_
    intro e after _
    exact Settles.build (Settles.expect _ _)
  · rename_i kind
    have forward := (ready.take (by simp [Cursor.kind, kind])).2
    have entered := (ready.moves forward).enter 0
    apply Settles.after_move forward
    split
    · exact Settles.build (Settles.expect _ _)
    · apply Settles.enter
      refine Settles.bind ((all_read fuel).items _ entered)
        (ih.items _ entered ((enough.moves forward (by omega)).enter 0)) ?_
      intro items after _
      exact Settles.build (Settles.expect _ _)
  · exact Settles.malformed _ _

theorem items_settle (enough : Enough 6 (fuel + 1) c) : Settles c (parseItems (fuel + 1) c) := by
  unfold parseItems
  apply Settles.bind ((all_read fuel).parse c ready)
    (ih.parse c ready (enough.moves (Moves.refl c) (by omega)))
  intro item after moves
  have ready := ready.moves moves
  dsimp only
  split
  · rename_i comma
    have forward := (ready.take (by simp [comma])).2
    apply Settles.after_move forward
    exact Settles.build (ih.items _ (ready.moves forward)
      (enough.moves (moves.trans forward) (by omega)))
  · exact Settles.ok _

theorem lambda_settles (here : c.kind = .mark .backslash) (enough : Enough 1 (fuel + 1) c) :
    Settles c (parseLambda (fuel + 1) c) := by
  have forward := (ready.take (by simp [here])).2
  have ready := ready.moves forward
  unfold parseLambda
  apply Settles.after_move forward
  refine Settles.bind (Reads.expect_name ready) (Settles.expect _ _) ?_
  intro param after first
  have ready := ready.moves first
  have names := (identifiers_read after ready).2
  have ready := ready.moves names
  apply Settles.after_move names
  refine Settles.bind (Reads.expect ready (by simp)) (Settles.expect _ _) ?_
  intro arrow last taken
  have moves := ((forward.trans first).trans names).trans taken
  exact Settles.build (ih.parse last (ready.moves taken) (enough.moves moves (by omega)))

theorem cond_settles (here : c.kind = .keyword .ifWord) (enough : Enough 1 (fuel + 1) c) :
    Settles c (parseCond (fuel + 1) c) := by
  have forward := (ready.take (by simp [here])).2
  have ready := ready.moves forward
  unfold parseCond
  apply Settles.after_move forward
  refine Settles.bind ((all_read fuel).parse _ ready)
    (ih.parse _ ready (enough.moves forward (by omega))) ?_
  intro condition after moves
  have so_far := forward.trans moves
  have ready := ready.moves moves
  refine Settles.bind (Reads.expect ready (by simp)) (Settles.expect _ _) ?_
  intro _ after moves
  have so_far := so_far.trans moves
  have ready := ready.moves moves
  refine Settles.bind ((all_read fuel).parse after ready)
    (ih.parse _ ready (enough.moves so_far (by omega))) ?_
  intro yes after moves
  have so_far := so_far.trans moves
  have ready := ready.moves moves
  refine Settles.bind (Reads.expect ready (by simp)) (Settles.expect _ _) ?_
  intro _ after moves
  exact Settles.build (ih.parse after (ready.moves moves)
    (enough.moves (so_far.trans moves) (by omega)))

theorem block_settles (here : c.kind = .keyword .doWord) (enough : Enough 1 (fuel + 1) c) :
    Settles c (parseBlock (fuel + 1) c) := by
  have forward := (ready.take (by simp [here])).2
  have entered := (ready.moves forward).enter c.advance.peek.column
  unfold parseBlock
  dsimp only
  split
  · exact Settles.malformed _ _
  · apply Settles.after_move forward
    apply Settles.enter
    refine Settles.bind ((all_read fuel).statements _ _ entered)
      (ih.statements _ _ entered ((enough.moves forward (by omega)).enter _)) ?_
    intro statements after _
    dsimp only
    split
    · exact Settles.ok _
    · exact Settles.malformed _ _
    · exact Settles.malformed _ _

theorem statements_settle (column : Nat) (enough : Enough 7 (fuel + 1) c) :
    Settles c (parseStatements (fuel + 1) column c) := by
  unfold parseStatements
  apply Settles.bind ((all_read fuel).statement c ready)
    (ih.statement c ready (enough.moves (Moves.refl c) (by omega)))
  intro statement after moves
  dsimp only
  split
  · exact Settles.build (ih.statements column after (ready.moves moves)
      (enough.moves moves (by omega)))
  · exact Settles.ok _

theorem statement_settles (enough : Enough 6 (fuel + 1) c) :
    Settles c (parseStatement (fuel + 1) c) := by
  have fresh : ({ c with fresh := true } : Cursor).Ready := ⟨ready.named, ready.finish⟩
  have same : c.Moves 0 { c with fresh := true } :=
    ⟨List.suffix_rfl, Nat.le_refl _, rfl, rfl⟩
  unfold parseStatement
  dsimp only
  split
  · rename_i here
    have forward := (fresh.take (by simp [here])).2
    have ready := fresh.moves forward
    apply Settles.after_move (same.trans forward)
    refine Settles.bind (Reads.expect_name ready) (Settles.expect _ _) ?_
    intro name after first
    have ready := ready.moves first
    have names := (identifiers_read after ready).2
    have ready := ready.moves names
    apply Settles.after_move names
    refine Settles.bind (Reads.expect ready (by simp)) (Settles.expect _ _) ?_
    intro assign last taken
    have moves := (((same.trans forward).trans first).trans names).trans taken
    exact Settles.build (ih.parse last (ready.moves taken) (enough.moves moves (by omega)))
  · split
    · rename_i here
      have taken := fresh.take_two (by simp [here.1]) (by simp [here.2])
      have moves := same.trans taken
      apply Settles.after_move moves
      exact Settles.build (ih.parse _ (fresh.moves taken) (enough.moves moves (by omega)))
    · apply Settles.after_move same
      exact Settles.build (ih.parse _ fresh (enough.moves same (by omega)))

end Step

theorem all_settle (fuel : Nat) : AllSettle fuel := by
  induction fuel with
  | zero => constructor <;> intros <;> rename_i enough <;> exact absurd enough (by simp [Enough])
  | succ fuel ih =>
    exact {
      parse := fun _ ready enough => parse_settles ih ready enough
      binary := fun least _ ready enough => binary_settles ih ready least enough
      chain := fun least left _ ready enough => chain_settles ih ready least left enough
      unary := fun _ ready enough => unary_settles ih ready enough
      app := fun _ ready enough => app_settles ih ready enough
      arguments := fun function _ ready enough => arguments_settle ih ready function enough
      atom := fun _ ready enough => atom_settles ih ready enough
      items := fun _ ready enough => items_settle ih ready enough
      lambda := fun _ ready here enough => lambda_settles ih ready here enough
      cond := fun _ ready here enough => cond_settles ih ready here enough
      block := fun _ ready here enough => block_settles ih ready here enough
      statements := fun column _ ready enough => statements_settle ih ready column enough
      statement := fun _ ready enough => statement_settles ih ready enough }

theorem reading_settles {c : Cursor} (ready : c.Ready) :
    Settles c (parse (readingDepth c) c) :=
  (all_settle _).parse c ready (by
    unfold Enough readingDepth
    omega)

end Expr

end PureJs
