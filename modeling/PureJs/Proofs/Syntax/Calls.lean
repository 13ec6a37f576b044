import PureJs.Proofs.Steps
import PureJs.Syntax.ExprParser

/-!
The calls that the parts of the expression parser make of one another, each part at a cursor and
with a bound on the depth of what it calls. No call is left out: a part whose bound was too small
has none at all or calls one for which it was.
-/

namespace PureJs

theorem map_exhausted {α β : Type} {result : Except ParseFault α} {f : α → β} :
    result.map f = .error .exhausted ↔ result = .error .exhausted := by
  cases result <;> simp [Except.map]

theorem map_gives {ε α β : Type} {result : Except ε α} {f : α → β} {image : β}
    (same : result.map f = .ok image) : ∃ value, result = .ok value ∧ f value = image := by
  cases result with
  | error problem => cases same
  | ok value =>
    cases same
    exact ⟨value, rfl, rfl⟩

/-- If the result is that the bound on the depth was too small, there is this reason for it. -/
structure Blames {α : Type} (reason : Prop) (result : Except ParseFault α) : Prop where
  because : result = .error .exhausted → reason

namespace Blames

variable {α β : Type} {reason : Prop}

theorem ok (value : α) : Blames reason (.ok value) := ⟨nofun⟩

theorem malformed (problem : Problem) (place : Position) :
    Blames reason (.error (.malformed problem place) : Except ParseFault α) := ⟨nofun⟩

theorem bind {first : Except ParseFault α} {next : α → Except ParseFault β}
    (blames : Blames reason first)
    (goes : ∀ value, first = .ok value → Blames reason (next value)) :
    Blames reason (first >>= next) := by
  constructor
  intro ends
  rcases bind_fails ends with here | ⟨value, read, later⟩
  · exact blames.because here
  · exact (goes value read).because later

theorem expect (kind : TokenKind) (what : String) (c : Cursor) :
    Blames reason (c.expect kind what) := by
  unfold Cursor.expect
  split
  · exact ok _
  · exact malformed _ _

end Blames

namespace Expr

open Cursor

/-- A part of the expression parser, with what it is given beside the bound and the cursor. -/
inductive Reader
  | expression
  | binary (least : Nat)
  | chain (least : Nat) (left : Expr)
  | unary
  | application
  | arguments (function : Expr)
  | atom
  | items
  | lambda
  | conditional
  | block
  | statements (column : Nat)
  | statement

namespace Reader

def ofKind : TokenKind → Reader
  | .mark .backslash => lambda
  | .keyword .ifWord => conditional
  | .keyword .doWord => block
  | _ => binary 0

def operand (op : Operator) (c : Cursor) : Reader :=
  if c.startsBlock then expression else binary op.rightPrecedence

end Reader

structure Call where
  reader : Reader
  bound : Nat
  cursor : Cursor

/-- The cursor behind what is read, without what was made of it. -/
def Call.run : Call → Except ParseFault Cursor
  | ⟨.expression, bound, c⟩ => (parse bound c).map Prod.snd
  | ⟨.binary least, bound, c⟩ => (parseBinary bound least c).map Prod.snd
  | ⟨.chain least left, bound, c⟩ => (parseChain bound least left c).map Prod.snd
  | ⟨.unary, bound, c⟩ => (parseUnary bound c).map Prod.snd
  | ⟨.application, bound, c⟩ => (parseApp bound c).map Prod.snd
  | ⟨.arguments function, bound, c⟩ => (parseArguments bound function c).map Prod.snd
  | ⟨.atom, bound, c⟩ => (parseAtom bound c).map Prod.snd
  | ⟨.items, bound, c⟩ => (parseItems bound c).map Prod.snd
  | ⟨.lambda, bound, c⟩ => (parseLambda bound c).map Prod.snd
  | ⟨.conditional, bound, c⟩ => (parseCond bound c).map Prod.snd
  | ⟨.block, bound, c⟩ => (parseBlock bound c).map Prod.snd
  | ⟨.statements column, bound, c⟩ => (parseStatements bound column c).map Prod.snd
  | ⟨.statement, bound, c⟩ => (parseStatement bound c).map Prod.snd

/-- One part calls another, after what it has called before has returned. -/
inductive Calls : Call → Call → Prop
  | form {bound : Nat} {c : Cursor} (goes : ¬c.atBoundary = true) :
    Calls ⟨.expression, bound + 1, c⟩ ⟨.ofKind c.kind, bound, c⟩
  | first {bound least : Nat} {c : Cursor} :
    Calls ⟨.binary least, bound + 1, c⟩ ⟨.unary, bound, c⟩
  | chain {bound least : Nat} {c mid : Cursor} {left : Expr}
      (read : parseUnary bound c = .ok (left, mid)) :
    Calls ⟨.binary least, bound + 1, c⟩ ⟨.chain least left, bound, mid⟩
  | operand {bound least : Nat} {c : Cursor} {left : Expr} {op : Operator}
      (goes : ¬c.atBoundary = true) (known : c.operator? = some op)
      (tight : ¬op.precedence < least) :
    Calls ⟨.chain least left, bound + 1, c⟩ ⟨.operand op c.advance, bound, c.advance⟩
  | further {bound least : Nat} {c mid : Cursor} {left right : Expr} {op : Operator}
      (goes : ¬c.atBoundary = true) (known : c.operator? = some op)
      (tight : ¬op.precedence < least)
      (read : (if c.advance.startsBlock then parse bound c.advance
        else parseBinary bound op.rightPrecedence c.advance) = .ok (right, mid)) :
    Calls ⟨.chain least left, bound + 1, c⟩
      ⟨.chain least (.binary c.peek.place op left right), bound, mid⟩
  | negated {bound : Nat} {c : Cursor} (minus : c.kind = .mark .minus) :
    Calls ⟨.unary, bound + 1, c⟩ ⟨.unary, bound, c.advance⟩
  | application {bound : Nat} {c : Cursor} (plain : ¬c.kind = .mark .minus) :
    Calls ⟨.unary, bound + 1, c⟩ ⟨.application, bound, c⟩
  | function {bound : Nat} {c : Cursor} :
    Calls ⟨.application, bound + 1, c⟩ ⟨.atom, bound, c⟩
  | arguments {bound : Nat} {c mid : Cursor} {function : Expr}
      (read : parseAtom bound c = .ok (function, mid)) :
    Calls ⟨.application, bound + 1, c⟩ ⟨.arguments function, bound, mid⟩
  | atom {bound : Nat} {c : Cursor} {function : Expr} (goes : ¬c.atBoundary = true)
      (starts : c.startsAtom = true) :
    Calls ⟨.arguments function, bound + 1, c⟩ ⟨.atom, bound, c⟩
  | afterAtom {bound : Nat} {c mid : Cursor} {function argument : Expr}
      (goes : ¬c.atBoundary = true) (starts : c.startsAtom = true)
      (read : parseAtom bound c = .ok (argument, mid)) :
    Calls ⟨.arguments function, bound + 1, c⟩
      ⟨.arguments (.app function.place function argument), bound, mid⟩
  | block {bound : Nat} {c : Cursor} {function : Expr} (goes : ¬c.atBoundary = true)
      (other : ¬c.startsAtom = true) (starts : c.startsBlock = true) :
    Calls ⟨.arguments function, bound + 1, c⟩ ⟨.expression, bound, c⟩
  | afterBlock {bound : Nat} {c mid : Cursor} {function argument : Expr}
      (goes : ¬c.atBoundary = true) (other : ¬c.startsAtom = true) (starts : c.startsBlock = true)
      (read : parse bound c = .ok (argument, mid)) :
    Calls ⟨.arguments function, bound + 1, c⟩
      ⟨.arguments (.app function.place function argument), bound, mid⟩
  | inParens {bound : Nat} {c : Cursor} (opens : c.kind = .mark .leftParen) :
    Calls ⟨.atom, bound + 1, c⟩ ⟨.expression, bound, c.advance.enter 0⟩
  | inBrackets {bound : Nat} {c : Cursor} (opens : c.kind = .mark .leftBracket)
      (some : ¬(c.advance.enter 0).kind = .mark .rightBracket) :
    Calls ⟨.atom, bound + 1, c⟩ ⟨.items, bound, c.advance.enter 0⟩
  | item {bound : Nat} {c : Cursor} : Calls ⟨.items, bound + 1, c⟩ ⟨.expression, bound, c⟩
  | items {bound : Nat} {c mid : Cursor} {item : Expr} (read : parse bound c = .ok (item, mid))
      (comma : mid.kind = .mark .comma) :
    Calls ⟨.items, bound + 1, c⟩ ⟨.items, bound, mid.advance⟩
  | body {bound : Nat} {c mid after : Cursor} {param arrow : Token}
      (named : c.advance.expect .identifier "a parameter name" = .ok (param, mid))
      (points : mid.identifiers.2.expect (.mark .arrow) "'->'" = .ok (arrow, after)) :
    Calls ⟨.lambda, bound + 1, c⟩ ⟨.expression, bound, after⟩
  | condition {bound : Nat} {c : Cursor} :
    Calls ⟨.conditional, bound + 1, c⟩ ⟨.expression, bound, c.advance⟩
  | yes {bound : Nat} {c mid after : Cursor} {condition : Expr} {word : Token}
      (test : parse bound c.advance = .ok (condition, mid))
      (goes : mid.expect (.keyword .thenWord) "'then'" = .ok (word, after)) :
    Calls ⟨.conditional, bound + 1, c⟩ ⟨.expression, bound, after⟩
  | no {bound : Nat} {c mid next later after : Cursor} {condition yes : Expr} {first second : Token}
      (test : parse bound c.advance = .ok (condition, mid))
      (goes : mid.expect (.keyword .thenWord) "'then'" = .ok (first, next))
      (read : parse bound next = .ok (yes, later))
      (turns : later.expect (.keyword .elseWord) "'else'" = .ok (second, after)) :
    Calls ⟨.conditional, bound + 1, c⟩ ⟨.expression, bound, after⟩
  | statements {bound : Nat} {c : Cursor} (goes : ¬c.advance.atBoundary = true) :
    Calls ⟨.block, bound + 1, c⟩
      ⟨.statements c.advance.peek.column, bound, c.advance.enter c.advance.peek.column⟩
  | statement {bound column : Nat} {c : Cursor} :
    Calls ⟨.statements column, bound + 1, c⟩ ⟨.statement, bound, c⟩
  | next {bound column : Nat} {c mid : Cursor} {statement : Statement}
      (read : parseStatement bound c = .ok (statement, mid))
      (starts : (!mid.atEnd && mid.peek.opensLine && mid.peek.column = column) = true) :
    Calls ⟨.statements column, bound + 1, c⟩ ⟨.statements column, bound, mid⟩
  | value {bound : Nat} {c mid after : Cursor} {name assign : Token}
      (word : c.kind = .keyword .letWord)
      (named : c.advance.expect .identifier "an identifier" = .ok (name, mid))
      (is : mid.identifiers.2.expect (.mark .assign) "'='" = .ok (assign, after)) :
    Calls ⟨.statement, bound + 1, c⟩ ⟨.expression, bound, after⟩
  | action {bound : Nat} {c : Cursor}
      (binds : c.kind = .identifier ∧ c.secondKind = .mark .leftArrow) :
    Calls ⟨.statement, bound + 1, c⟩ ⟨.expression, bound, c.advance.advance⟩
  | run {bound : Nat} {c : Cursor} (defines : ¬c.kind = .keyword .letWord)
      (binds : ¬(c.kind = .identifier ∧ c.secondKind = .mark .leftArrow)) :
    Calls ⟨.statement, bound + 1, c⟩ ⟨.expression, bound, { c with fresh := true }⟩

def Call.Overruns (call : Call) : Prop :=
  ∃ next, Calls call next ∧ next.run = .error .exhausted

theorem Calls.blames {α : Type} {call next : Call} {result : Except ParseFault (α × Cursor)}
    (calls : Calls call next) (same : next.run = result.map Prod.snd) :
    Blames call.Overruns result :=
  ⟨fun ends => ⟨next, calls, same.trans (map_exhausted.mpr ends)⟩⟩

section Parts

variable {bound : Nat} {c : Cursor}

theorem parse_blames :
    Blames (Call.Overruns ⟨.expression, bound + 1, c⟩) (parse (bound + 1) c) := by
  unfold parse
  split
  · exact Blames.malformed _ _
  · rename_i goes
    split
    · rename_i kind
      exact (Calls.form goes).blames (by rw [kind]; rfl)
    · rename_i kind
      exact (Calls.form goes).blames (by rw [kind]; rfl)
    · rename_i kind
      exact (Calls.form goes).blames (by rw [kind]; rfl)
    · rename_i noLambda noCond noBlock
      exact (Calls.form goes).blames (by rw [Reader.ofKind.eq_4 _ noLambda noCond noBlock]; rfl)

theorem binary_blames (least : Nat) :
    Blames (Call.Overruns ⟨.binary least, bound + 1, c⟩) (parseBinary (bound + 1) least c) := by
  unfold parseBinary
  apply Blames.bind (Calls.first.blames rfl)
  intro _ read
  exact (Calls.chain read).blames rfl

theorem chain_blames (least : Nat) (left : Expr) :
    Blames (Call.Overruns ⟨.chain least left, bound + 1, c⟩)
      (parseChain (bound + 1) least left c) := by
  unfold parseChain
  split
  · exact Blames.ok _
  · rename_i goes
    split
    · exact Blames.ok _
    · rename_i op known
      split
      · exact Blames.ok _
      · rename_i tight
        have further : ∀ {right mid}, (if c.advance.startsBlock then parse bound c.advance
            else parseBinary bound op.rightPrecedence c.advance) = .ok (right, mid) →
            Blames (Call.Overruns ⟨.chain least left, bound + 1, c⟩)
              (parseChain bound least (.binary c.peek.place op left right) mid) :=
          fun read => (Calls.further goes known tight read).blames rfl
        dsimp only
        split
        · rename_i starts
          apply Blames.bind ((Calls.operand goes known tight).blames ?_)
          · intro _ read
            exact further ((if_pos starts).trans read)
          · rw [Reader.operand, if_pos starts]
            rfl
        · rename_i other
          apply Blames.bind ((Calls.operand goes known tight).blames ?_)
          · intro _ read
            exact further ((if_neg other).trans read)
          · rw [Reader.operand, if_neg other]
            rfl

theorem unary_blames :
    Blames (Call.Overruns ⟨.unary, bound + 1, c⟩) (parseUnary (bound + 1) c) := by
  unfold parseUnary
  split
  · rename_i minus
    exact Blames.bind ((Calls.negated minus).blames rfl) fun _ _ => Blames.ok _
  · rename_i plain
    exact (Calls.application plain).blames rfl

theorem application_blames :
    Blames (Call.Overruns ⟨.application, bound + 1, c⟩) (parseApp (bound + 1) c) := by
  unfold parseApp
  apply Blames.bind (Calls.function.blames rfl)
  intro _ read
  exact (Calls.arguments read).blames rfl

theorem arguments_blame (function : Expr) :
    Blames (Call.Overruns ⟨.arguments function, bound + 1, c⟩)
      (parseArguments (bound + 1) function c) := by
  unfold parseArguments
  split
  · exact Blames.ok _
  · rename_i goes
    split
    · rename_i starts
      apply Blames.bind ((Calls.atom goes starts).blames rfl)
      intro _ read
      exact (Calls.afterAtom goes starts read).blames rfl
    · rename_i other
      split
      · rename_i starts
        apply Blames.bind ((Calls.block goes other starts).blames rfl)
        intro _ read
        exact (Calls.afterBlock goes other starts read).blames rfl
      · exact Blames.ok _

theorem value_blames {reason : Prop} (token : Token) : Blames reason (integerValue token) := by
  unfold integerValue
  split
  · exact Blames.ok _
  · exact ⟨nofun⟩

theorem atom_blames : Blames (Call.Overruns ⟨.atom, bound + 1, c⟩) (parseAtom (bound + 1) c) := by
  unfold parseAtom
  dsimp only
  split
  · exact Blames.bind (value_blames _) fun _ _ => Blames.ok _
  · exact Blames.ok _
  · exact Blames.ok _
  · exact Blames.ok _
  · exact Blames.ok _
  · exact Blames.ok _
  · exact Blames.ok _
  · rename_i opens
    apply Blames.bind ((Calls.inParens opens).blames rfl)
    intro _ _
    exact Blames.bind (Blames.expect ..) fun _ _ => Blames.ok _
  · rename_i opens
    split
    · exact Blames.bind (Blames.ok _) fun _ _ =>
        Blames.bind (Blames.expect ..) fun _ _ => Blames.ok _
    · rename_i some
      apply Blames.bind ((Calls.inBrackets opens some).blames rfl)
      intro _ _
      exact Blames.bind (Blames.expect ..) fun _ _ => Blames.ok _
  · exact Blames.malformed _ _

theorem items_blame : Blames (Call.Overruns ⟨.items, bound + 1, c⟩) (parseItems (bound + 1) c) := by
  unfold parseItems
  apply Blames.bind (Calls.item.blames rfl)
  intro _ read
  dsimp only
  split
  · rename_i comma
    exact Blames.bind ((Calls.items read comma).blames rfl) fun _ _ => Blames.ok _
  · exact Blames.ok _

theorem lambda_blames :
    Blames (Call.Overruns ⟨.lambda, bound + 1, c⟩) (parseLambda (bound + 1) c) := by
  unfold parseLambda
  apply Blames.bind (Blames.expect ..)
  intro _ named
  apply Blames.bind (Blames.expect ..)
  intro _ points
  exact Blames.bind ((Calls.body named points).blames rfl) fun _ _ => Blames.ok _

theorem conditional_blames :
    Blames (Call.Overruns ⟨.conditional, bound + 1, c⟩) (parseCond (bound + 1) c) := by
  unfold parseCond
  apply Blames.bind (Calls.condition.blames rfl)
  intro _ test
  apply Blames.bind (Blames.expect ..)
  intro _ goes
  apply Blames.bind ((Calls.yes test goes).blames rfl)
  intro _ read
  apply Blames.bind (Blames.expect ..)
  intro _ turns
  exact Blames.bind ((Calls.no test goes read turns).blames rfl) fun _ _ => Blames.ok _

theorem block_blames :
    Blames (Call.Overruns ⟨.block, bound + 1, c⟩) (parseBlock (bound + 1) c) := by
  unfold parseBlock
  dsimp only
  split
  · exact Blames.malformed _ _
  · rename_i goes
    apply Blames.bind ((Calls.statements goes).blames rfl)
    intro _ _
    split
    · exact Blames.ok _
    · exact Blames.malformed _ _
    · exact Blames.malformed _ _

theorem statements_blame (column : Nat) :
    Blames (Call.Overruns ⟨.statements column, bound + 1, c⟩)
      (parseStatements (bound + 1) column c) := by
  unfold parseStatements
  apply Blames.bind (Calls.statement.blames rfl)
  intro _ read
  dsimp only
  split
  · rename_i starts
    exact Blames.bind ((Calls.next read starts).blames rfl) fun _ _ => Blames.ok _
  · exact Blames.ok _

theorem statement_blames :
    Blames (Call.Overruns ⟨.statement, bound + 1, c⟩) (parseStatement (bound + 1) c) := by
  unfold parseStatement
  dsimp only
  split
  · rename_i word
    apply Blames.bind (Blames.expect ..)
    intro _ named
    apply Blames.bind (Blames.expect ..)
    intro _ is
    exact Blames.bind ((Calls.value (c := c) word named is).blames rfl) fun _ _ => Blames.ok _
  · rename_i defines
    split
    · rename_i binds
      exact Blames.bind ((Calls.action (c := c) binds).blames rfl) fun _ _ => Blames.ok _
    · rename_i binds
      exact Blames.bind ((Calls.run (c := c) defines binds).blames rfl) fun _ _ => Blames.ok _

end Parts

theorem Call.overruns {call : Call} (ends : call.run = .error .exhausted) :
    call.bound = 0 ∨ call.Overruns := by
  obtain ⟨reader, bound, c⟩ := call
  cases bound with
  | zero => exact .inl rfl
  | succ bound =>
    right
    cases reader with
    | expression => exact parse_blames.because (map_exhausted.mp ends)
    | binary least => exact (binary_blames least).because (map_exhausted.mp ends)
    | chain least left => exact (chain_blames least left).because (map_exhausted.mp ends)
    | unary => exact unary_blames.because (map_exhausted.mp ends)
    | application => exact application_blames.because (map_exhausted.mp ends)
    | arguments function => exact (arguments_blame function).because (map_exhausted.mp ends)
    | atom => exact atom_blames.because (map_exhausted.mp ends)
    | items => exact items_blame.because (map_exhausted.mp ends)
    | lambda => exact lambda_blames.because (map_exhausted.mp ends)
    | conditional => exact conditional_blames.because (map_exhausted.mp ends)
    | block => exact block_blames.because (map_exhausted.mp ends)
    | statements column => exact (statements_blame column).because (map_exhausted.mp ends)
    | statement => exact statement_blames.because (map_exhausted.mp ends)

end Expr

end PureJs
