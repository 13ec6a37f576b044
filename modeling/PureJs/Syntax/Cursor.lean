import PureJs.Problem
import PureJs.Text.Numeral
import PureJs.Token.Basic

/-! A place among the tokens of a source text, and the layout that holds there. -/

namespace PureJs

inductive ParseFault
  | malformed (problem : Problem) (place : Position)
  | numeral (fault : Text.NumeralFault)
  /-- the bound on the depth of the reading was too small -/
  | exhausted
  deriving DecidableEq, Repr

structure Cursor where
  tokens : List Token
  finish : Token
  /-- the next token begins a statement of a do block, so it continues nothing -/
  fresh : Bool
  /-- for each construct that the next token stands in, the innermost first, the column that a
  token opening a line must lie beyond to continue it; brackets have column zero -/
  layout : List Nat

namespace Cursor

/-- The cursor before tokens of which the last one is the end of the input. -/
def ofTokens (tokens : List Token) : Cursor where
  tokens := tokens.dropLast
  finish := tokens.getLastD (Token.endOfInput .start 0)
  fresh := false
  layout := [1]

def peek (c : Cursor) : Token := c.tokens.headD c.finish

def kind (c : Cursor) : TokenKind := c.peek.kind

def secondKind (c : Cursor) : TokenKind := (c.tokens.tail.headD c.finish).kind

def atEnd (c : Cursor) : Bool := c.tokens.isEmpty

def advance (c : Cursor) : Cursor := { c with tokens := c.tokens.tail, fresh := false }

/-- A token that opens a line and does not lie beyond the column of the layout begins something
new. -/
def breaksLayout (c : Cursor) (token : Token) : Bool :=
  token.opensLine && token.column ≤ c.layout.headD 0

def atBoundary (c : Cursor) : Bool := c.atEnd || (!c.fresh && c.breaksLayout c.peek)

def enter (column : Nat) (c : Cursor) : Cursor := { c with layout := column :: c.layout }

def leave (c : Cursor) : Cursor := { c with layout := c.layout.tail }

def found (c : Cursor) : Found :=
  if c.atEnd then .endOfInput else .token c.peek.value

def refuse {α : Type} (c : Cursor) : Except ParseFault α :=
  .error (.malformed (.unexpected c.found) c.peek.place)

def demand {α : Type} (what : String) (c : Cursor) : Except ParseFault α :=
  .error (.malformed (.expected what c.found) c.peek.place)

def expect (kind : TokenKind) (what : String) (c : Cursor) : Except ParseFault (Token × Cursor) :=
  if c.kind = kind then .ok (c.peek, c.advance) else c.demand what

def identifiers (c : Cursor) : List String × Cursor :=
  let names := c.tokens.takeWhile (·.kind = .identifier)
  (names.map Token.value,
    { c with
      tokens := c.tokens.dropWhile (·.kind = .identifier)
      fresh := c.fresh && names.isEmpty })

end Cursor

end PureJs
