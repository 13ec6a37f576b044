import PureJs.Proofs.Syntax.Cursor
import PureJs.Proofs.Text.Numeral
import PureJs.Syntax.Module

/-!
The shape of the programs that can be read: their names are lexical, their whole numbers are not too
long to be written out, lambdas have parameters, and do blocks end in an expression. Whatever the
parser returns has this shape, and it has moved forwards and left the layout as it found it.
-/

namespace PureJs

def Literal.Fits : Literal → Prop
  | .integer n => n.natAbs < 10 ^ Text.digitLimit
  | .number _ | .string _ | .bool _ => True

mutual

def Expr.Formed : Expr → Prop
  | .literal _ value => value.Fits
  | .array _ items => Expr.ListFormed items
  | .var _ name _ _ => Lexical name
  | .app _ function argument => function.Formed ∧ argument.Formed
  | .lambda _ params body => params ≠ [] ∧ (∀ param ∈ params, Lexical param) ∧ body.Formed
  | .cond _ condition yes no => condition.Formed ∧ yes.Formed ∧ no.Formed
  | .binary _ _ left right => left.Formed ∧ right.Formed
  | .negate _ operand => operand.Formed
  | .block _ statements =>
    Expr.StatementsFormed statements ∧ statements.getLast?.any Statement.isRun = true

def Expr.ListFormed : List Expr → Prop
  | [] => True
  | e :: rest => e.Formed ∧ Expr.ListFormed rest

def Expr.StatementsFormed : List Statement → Prop
  | [] => True
  | .bind _ name e :: rest | .define _ name e :: rest =>
    Lexical name ∧ e.Formed ∧ Expr.StatementsFormed rest
  | .run _ e :: rest => e.Formed ∧ Expr.StatementsFormed rest

end

structure ValueDeclaration.Formed (d : ValueDeclaration) : Prop where
  name : Lexical d.name
  params : ∀ param ∈ d.params, Lexical param
  body : d.body.Formed

def Declaration.Formed : Declaration → Prop
  | .value d => d.Formed
  | .foreign d => Lexical d.name

def Module.Formed (m : Module) : Prop := ∀ d ∈ m.declarations, d.Formed

def Statement.Formed (s : Statement) : Prop := Expr.StatementsFormed [s]

theorem Expr.statements_formed_cons (s : Statement) (rest : List Statement) :
    Expr.StatementsFormed (s :: rest) ↔ s.Formed ∧ Expr.StatementsFormed rest := by
  cases s <;> simp [Statement.Formed, Expr.StatementsFormed, and_assoc]

namespace Expr

open Cursor

theorem integer_fits {token : Token} {n : Int} (value : integerValue token = .ok n) :
    (Literal.integer n).Fits := by
  unfold integerValue at value
  split at value
  · rename_i read
    cases value
    exact Text.read_numeral_lt read
  · cases value

theorem operator_inside {c : Cursor} {op : Operator} (known : c.operator? = some op) :
    c.kind ≠ .endOfInput := by
  intro last
  simp [operator?, last] at known

/-- What every part of the expression parser does at a given bound on the depth. -/
structure AllRead (fuel : Nat) : Prop where
  parse : ∀ c, c.Ready → Reads c 1 Formed (parse fuel c)
  binary : ∀ least c, c.Ready → Reads c 1 Formed (parseBinary fuel least c)
  chain : ∀ least left c, c.Ready → left.Formed → Reads c 0 Formed (parseChain fuel least left c)
  unary : ∀ c, c.Ready → Reads c 1 Formed (parseUnary fuel c)
  app : ∀ c, c.Ready → Reads c 1 Formed (parseApp fuel c)
  arguments : ∀ function c, c.Ready → function.Formed →
    Reads c 0 Formed (parseArguments fuel function c)
  atom : ∀ c, c.Ready → Reads c 1 Formed (parseAtom fuel c)
  items : ∀ c, c.Ready → Reads c 1 ListFormed (parseItems fuel c)
  lambda : ∀ c, c.Ready → c.kind = .mark .backslash → Reads c 1 Formed (parseLambda fuel c)
  cond : ∀ c, c.Ready → c.kind = .keyword .ifWord → Reads c 1 Formed (parseCond fuel c)
  block : ∀ c, c.Ready → c.kind = .keyword .doWord → Reads c 1 Formed (parseBlock fuel c)
  statements : ∀ column c, c.Ready → Reads c 1 StatementsFormed (parseStatements fuel column c)
  statement : ∀ c, c.Ready → Reads c 1 Statement.Formed (parseStatement fuel c)

section Step

variable {fuel : Nat} (ih : AllRead fuel) {c : Cursor} (ready : c.Ready)
include ih ready

theorem parse_reads : Reads c 1 Formed (parse (fuel + 1) c) := by
  unfold parse
  split
  · exact Reads.error _
  · split
    · rename_i kind
      exact ih.lambda c ready kind
    · rename_i kind
      exact ih.cond c ready kind
    · rename_i kind
      exact ih.block c ready kind
    · exact ih.binary 0 c ready

theorem binary_reads (least : Nat) : Reads c 1 Formed (parseBinary (fuel + 1) least c) := by
  unfold parseBinary
  apply Reads.bind 0 (by decide) (ih.unary c ready)
  intro left after formed moves
  exact ih.chain least left after (ready.moves moves) formed

theorem chain_reads (least : Nat) {left : Expr} (formed : left.Formed) :
    Reads c 0 Formed (parseChain (fuel + 1) least left c) := by
  unfold parseChain
  split
  · exact Reads.ok formed (Moves.refl c)
  · split
    · exact Reads.ok formed (Moves.refl c)
    · rename_i op here
      split
      · exact Reads.ok formed (Moves.refl c)
      · have forward := (ready.take (operator_inside here)).2
        have going := ready.moves forward
        have more : ∀ right after, Formed right → c.advance.Moves 1 after →
            Reads after 0 Formed
              (parseChain fuel least (.binary c.peek.place op left right) after) := by
          intro right after fine moves
          exact ih.chain least _ after (going.moves moves) ⟨formed, fine⟩
        dsimp only
        split
        · exact Reads.after_move forward
            (Reads.bind 0 (Nat.zero_le _) (ih.parse _ going) more) (Nat.zero_le _)
        · exact Reads.after_move forward
            (Reads.bind 0 (Nat.zero_le _) (ih.binary _ _ going) more) (Nat.zero_le _)

theorem unary_reads : Reads c 1 Formed (parseUnary (fuel + 1) c) := by
  unfold parseUnary
  split
  · rename_i minus
    have forward := (ready.take (by simp [minus])).2
    refine Reads.after_move forward
      (Reads.bind 0 (Nat.zero_le _) (ih.unary _ (ready.moves forward)) ?_) (Nat.le_refl 1)
    intro operand after formed _
    exact Reads.ok formed (Moves.refl after)
  · exact ih.app c ready

theorem app_reads : Reads c 1 Formed (parseApp (fuel + 1) c) := by
  unfold parseApp
  apply Reads.bind 0 (by decide) (ih.atom c ready)
  intro function after formed moves
  exact ih.arguments function after (ready.moves moves) formed

theorem arguments_reads {function : Expr} (formed : function.Formed) :
    Reads c 0 Formed (parseArguments (fuel + 1) function c) := by
  have more : ∀ argument after, Formed argument → c.Moves 1 after →
      Reads after 0 Formed (parseArguments fuel (.app function.place function argument) after) := by
    intro argument after fine moves
    exact ih.arguments _ after (ready.moves moves) ⟨formed, fine⟩
  unfold parseArguments
  split
  · exact Reads.ok formed (Moves.refl c)
  · split
    · exact Reads.bind 0 (Nat.zero_le _) (ih.atom c ready) more
    · split
      · exact Reads.bind 0 (Nat.zero_le _) (ih.parse c ready) more
      · exact Reads.ok formed (Moves.refl c)

theorem atom_reads : Reads c 1 Formed (parseAtom (fuel + 1) c) := by
  have literal : ∀ {value : Literal}, value.Fits → c.peek.kind ≠ .endOfInput →
      Reads c 1 Formed (.ok (.literal c.peek.place value, c.advance)) := by
    intro value fits inside
    exact Reads.ok fits (ready.take inside).2
  unfold parseAtom
  dsimp only
  split
  · rename_i kind
    cases value : integerValue c.peek with
    | error fault => exact Reads.error fault
    | ok n => exact literal (integer_fits value) (by simp [kind])
  · rename_i kind
    exact literal trivial (by simp [kind])
  · rename_i kind
    exact literal trivial (by simp [kind])
  · rename_i kind
    exact literal trivial (by simp [kind])
  · rename_i kind
    exact literal trivial (by simp [kind])
  · rename_i kind
    have take := ready.take (by simp [Cursor.kind, kind])
    exact Reads.ok (take.1.1 kind) take.2
  · rename_i kind
    have take := ready.take (by simp [Cursor.kind, kind])
    exact Reads.ok (take.1.2 kind) take.2
  · rename_i kind
    have inside : c.kind ≠ .endOfInput := by simp [Cursor.kind, kind]
    have entered := (ready.moves (ready.take inside).2).enter 0
    exact Reads.bracketed ready inside (by simp) (ih.parse _ entered) (fun _ formed => formed)
  · rename_i kind
    have inside : c.kind ≠ .endOfInput := by simp [Cursor.kind, kind]
    have entered := (ready.moves (ready.take inside).2).enter 0
    split
    · exact Reads.bracketed ready inside (by simp) 
        (Reads.ok trivial (Moves.refl _)) (fun _ formed => formed)
    · exact Reads.bracketed ready inside (by simp) (ih.items _ entered) (fun _ formed => formed)
  · exact Reads.error _

theorem items_read : Reads c 1 ListFormed (parseItems (fuel + 1) c) := by
  unfold parseItems
  apply Reads.bind 0 (by decide) (ih.parse c ready)
  intro item after formed moves
  have ready := ready.moves moves
  dsimp only
  split
  · rename_i comma
    have forward := (ready.take (by simp [comma])).2
    refine Reads.after_move forward
      (Reads.bind 0 (Nat.zero_le _) (ih.items _ (ready.moves forward)) ?_) (Nat.zero_le _)
    intro others last fine _
    exact Reads.ok ⟨formed, fine⟩ (Moves.refl last)
  · exact Reads.ok ⟨formed, trivial⟩ (Moves.refl after)

theorem lambda_reads (here : c.kind = .mark .backslash) :
    Reads c 1 Formed (parseLambda (fuel + 1) c) := by
  have forward := (ready.take (by simp [here])).2
  have ready := ready.moves forward
  unfold parseLambda
  refine Reads.after_move forward (Reads.bind 0 (Nat.zero_le _) (Reads.expect_name ready) ?_)
    (Nat.le_refl 1)
  intro param after first moves
  have ready := ready.moves moves
  obtain ⟨names, moves⟩ := identifiers_read after ready
  have ready := ready.moves moves
  refine Reads.after_move moves
    (Reads.bind 0 (Nat.zero_le _) (Reads.expect ready (by simp)) ?_) (Nat.zero_le _)
  intro arrow after _ moves
  refine Reads.bind 0 (Nat.zero_le _) (ih.parse after (ready.moves moves)) ?_
  intro body last formed _
  refine Reads.ok ⟨by simp, ?_, formed⟩ (Moves.refl last)
  intro name member
  rcases List.mem_cons.mp member with same | later
  · exact same ▸ first
  · exact names name later

theorem cond_reads (here : c.kind = .keyword .ifWord) :
    Reads c 1 Formed (parseCond (fuel + 1) c) := by
  have forward := (ready.take (by simp [here])).2
  have ready := ready.moves forward
  unfold parseCond
  refine Reads.after_move forward (Reads.bind 0 (Nat.zero_le _) (ih.parse _ ready) ?_)
    (Nat.le_refl 1)
  intro condition after left moves
  have ready := ready.moves moves
  refine Reads.bind 0 (Nat.zero_le _) (Reads.expect ready (by simp)) ?_
  intro _ after _ moves
  have ready := ready.moves moves
  refine Reads.bind 0 (Nat.zero_le _) (ih.parse after ready) ?_
  intro yes after middle moves
  have ready := ready.moves moves
  refine Reads.bind 0 (Nat.zero_le _) (Reads.expect ready (by simp)) ?_
  intro _ after _ moves
  refine Reads.bind 0 (Nat.zero_le _) (ih.parse after (ready.moves moves)) ?_
  intro no last right _
  exact Reads.ok ⟨left, middle, right⟩ (Moves.refl last)

theorem block_reads (here : c.kind = .keyword .doWord) :
    Reads c 1 Formed (parseBlock (fuel + 1) c) := by
  have forward := (ready.take (by simp [here])).2
  have ready := ready.moves forward
  have entered := ready.enter c.advance.peek.column
  unfold parseBlock
  dsimp only
  split
  · exact Reads.error _
  · intro result last same
    cases read : parseStatements fuel c.advance.peek.column
        (c.advance.enter c.advance.peek.column) with
    | error fault =>
      simp only [bind, Except.bind, read] at same
      cases same
    | ok pair =>
      obtain ⟨statements, after⟩ := pair
      obtain ⟨formed, moves⟩ := ih.statements _ _ entered statements after read
      simp only [bind, Except.bind, read] at same
      split at same
      · rename_i place e ending
        cases same
        exact ⟨⟨formed, by rw [ending]; rfl⟩, (forward.trans moves.leave).weaken (by decide)⟩
      · cases same
      · cases same

theorem statements_read (column : Nat) :
    Reads c 1 StatementsFormed (parseStatements (fuel + 1) column c) := by
  unfold parseStatements
  apply Reads.bind 0 (by decide) (ih.statement c ready)
  intro statement after formed moves
  dsimp only
  split
  · refine Reads.bind 0 (Nat.zero_le _) (ih.statements column after (ready.moves moves)) ?_
    intro others last fine _
    exact Reads.ok ((statements_formed_cons statement others).mpr ⟨formed, fine⟩) (Moves.refl last)
  · exact Reads.ok formed (Moves.refl after)

theorem statement_reads : Reads c 1 Statement.Formed (parseStatement (fuel + 1) c) := by
  have fresh : ({ c with fresh := true } : Cursor).Ready := ⟨ready.named, ready.finish⟩
  have same : c.Moves 0 { c with fresh := true } :=
    ⟨List.suffix_rfl, Nat.le_refl _, rfl, rfl⟩
  unfold parseStatement
  dsimp only
  split
  · rename_i here
    have forward := (fresh.take (by simp [here])).2
    have ready := fresh.moves forward
    refine Reads.after_move (same.trans forward)
      (Reads.bind 0 (Nat.zero_le _) (Reads.expect_name ready) ?_) (Nat.le_refl 1)
    intro name after first moves
    have ready := ready.moves moves
    obtain ⟨names, moves⟩ := identifiers_read after ready
    have ready := ready.moves moves
    refine Reads.after_move moves
      (Reads.bind 0 (Nat.zero_le _) (Reads.expect ready (by simp)) ?_) (Nat.zero_le _)
    intro assign after _ moves
    refine Reads.bind 0 (Nat.zero_le _) (ih.parse after (ready.moves moves)) ?_
    intro value last formed _
    refine Reads.ok ⟨first, ?_, trivial⟩ (Moves.refl last)
    split
    · exact formed
    · rename_i given
      exact ⟨by simpa using given, names, formed⟩
  · split
    · rename_i here
      have named := (fresh.take (by simp [here.1])).1
      have taken := fresh.take_two (by simp [here.1]) (by simp [here.2])
      refine Reads.after_move (same.trans taken)
        (Reads.bind 0 (Nat.zero_le _) (ih.parse _ (fresh.moves taken)) ?_) (by decide)
      intro action last formed _
      exact Reads.ok ⟨named.1 here.1, formed, trivial⟩ (Moves.refl last)
    · refine Reads.after_move same (Reads.bind 0 (Nat.le_refl 1) (ih.parse _ fresh) ?_)
        (Nat.le_refl 1)
      intro action last formed _
      exact Reads.ok ⟨formed, trivial⟩ (Moves.refl last)

end Step

theorem all_read (fuel : Nat) : AllRead fuel := by
  induction fuel with
  | zero => constructor <;> intros <;> exact Reads.error _
  | succ fuel ih =>
    exact {
      parse := fun _ ready => parse_reads ih ready
      binary := fun least _ ready => binary_reads ih ready least
      chain := fun least _ _ ready formed => chain_reads ih ready least formed
      unary := fun _ ready => unary_reads ih ready
      app := fun _ ready => app_reads ih ready
      arguments := fun _ _ ready formed => arguments_reads ih ready formed
      atom := fun _ ready => atom_reads ih ready
      items := fun _ ready => items_read ih ready
      lambda := fun _ ready here => lambda_reads ih ready here
      cond := fun _ ready here => cond_reads ih ready here
      block := fun _ ready here => block_reads ih ready here
      statements := fun column _ ready => statements_read ih ready column
      statement := fun _ ready => statement_reads ih ready }

end Expr

end PureJs
