import PureJs.Syntax.Cursor
import PureJs.Syntax.Expr

/-! Reading expressions. Every function takes a bound on the depth of the reading, which
`Expr.readingDepth` makes large enough. -/

namespace PureJs

namespace Cursor

def operator? (c : Cursor) : Option Operator :=
  match c.kind with
  | .mark mark => Operator.ofMark? mark
  | _ => none

def startsAtom (c : Cursor) : Bool :=
  match c.kind with
  | .integer | .number | .string | .identifier | .qualified => true
  | .keyword word => word = .trueWord || word = .falseWord
  | .mark mark => mark = .leftParen || mark = .leftBracket
  | _ => false

def startsBlock (c : Cursor) : Bool :=
  match c.kind with
  | .keyword word => word = .ifWord || word = .doWord
  | .mark mark => mark = .backslash
  | _ => false

end Cursor

namespace Expr

def splitQualified (name : String) : String × String :=
  let chars := name.toList.reverse
  (String.ofList ((chars.dropWhile (· ≠ '.')).drop 1).reverse,
    String.ofList (chars.takeWhile (· ≠ '.')).reverse)

def integerValue (token : Token) : Except ParseFault Int :=
  match Text.readNumeral token.value with
  | .ok value => .ok value
  | .error fault => .error (.numeral fault)

mutual

/-- An expression, which has to begin before the layout ends what it stands in. -/
def parse : Nat → Cursor → Except ParseFault (Expr × Cursor)
  | 0, _ => .error .exhausted
  | fuel + 1, c =>
    if c.atBoundary then c.demand "an expression"
    else match c.kind with
      | .mark .backslash => parseLambda fuel c
      | .keyword .ifWord => parseCond fuel c
      | .keyword .doWord => parseBlock fuel c
      | _ => parseBinary fuel 0 c

def parseBinary : Nat → Nat → Cursor → Except ParseFault (Expr × Cursor)
  | 0, _, _ => .error .exhausted
  | fuel + 1, least, c => do
    let (left, c) ← parseUnary fuel c
    parseChain fuel least left c

def parseChain : Nat → Nat → Expr → Cursor → Except ParseFault (Expr × Cursor)
  | 0, _, _, _ => .error .exhausted
  | fuel + 1, least, left, c =>
    if c.atBoundary then .ok (left, c)
    else match c.operator? with
      | none => .ok (left, c)
      | some op =>
        if op.precedence < least then .ok (left, c)
        else do
          let place := c.peek.place
          let c := c.advance
          let (right, c) ←
            if c.startsBlock then parse fuel c else parseBinary fuel op.rightPrecedence c
          parseChain fuel least (.binary place op left right) c

def parseUnary : Nat → Cursor → Except ParseFault (Expr × Cursor)
  | 0, _ => .error .exhausted
  | fuel + 1, c =>
    if c.kind = .mark .minus then do
      let (operand, after) ← parseUnary fuel c.advance
      pure (.negate c.peek.place operand, after)
    else parseApp fuel c

def parseApp : Nat → Cursor → Except ParseFault (Expr × Cursor)
  | 0, _ => .error .exhausted
  | fuel + 1, c => do
    let (function, c) ← parseAtom fuel c
    parseArguments fuel function c

def parseArguments : Nat → Expr → Cursor → Except ParseFault (Expr × Cursor)
  | 0, _, _ => .error .exhausted
  | fuel + 1, function, c =>
    if c.atBoundary then .ok (function, c)
    else if c.startsAtom then do
      let (argument, c) ← parseAtom fuel c
      parseArguments fuel (.app function.place function argument) c
    else if c.startsBlock then do
      let (argument, c) ← parse fuel c
      parseArguments fuel (.app function.place function argument) c
    else .ok (function, c)

def parseAtom : Nat → Cursor → Except ParseFault (Expr × Cursor)
  | 0, _ => .error .exhausted
  | fuel + 1, c =>
    let token := c.peek
    match token.kind with
    | .integer => do
      let value ← integerValue token
      pure (.literal token.place (.integer value), c.advance)
    | .number => .ok (.literal token.place (.number token.value), c.advance)
    | .string => .ok (.literal token.place (.string token.value), c.advance)
    | .keyword .trueWord => .ok (.literal token.place (.bool true), c.advance)
    | .keyword .falseWord => .ok (.literal token.place (.bool false), c.advance)
    | .identifier => .ok (.var token.place token.value none none, c.advance)
    | .qualified =>
      let (qualifier, name) := splitQualified token.value
      .ok (.var token.place name (some qualifier) none, c.advance)
    | .mark .leftParen => do
      let (e, c) ← parse fuel (c.advance.enter 0)
      let (_, c) ← c.expect (.mark .rightParen) "')'"
      pure (e, c.leave)
    | .mark .leftBracket => do
      let c := c.advance.enter 0
      let (items, c) ←
        if c.kind = .mark .rightBracket then pure ([], c) else parseItems fuel c
      let (_, c) ← c.expect (.mark .rightBracket) "']'"
      pure (.array token.place items, c.leave)
    | _ => c.demand "an expression"

def parseItems : Nat → Cursor → Except ParseFault (List Expr × Cursor)
  | 0, _ => .error .exhausted
  | fuel + 1, c => do
    let (item, c) ← parse fuel c
    if c.kind = .mark .comma then
      let (others, c) ← parseItems fuel c.advance
      pure (item :: others, c)
    else pure ([item], c)

def parseLambda : Nat → Cursor → Except ParseFault (Expr × Cursor)
  | 0, _ => .error .exhausted
  | fuel + 1, c => do
    let place := c.peek.place
    let (param, c) ← c.advance.expect .identifier "a parameter name"
    let (params, c) := c.identifiers
    let (_, c) ← c.expect (.mark .arrow) "'->'"
    let (body, c) ← parse fuel c
    pure (.lambda place (param.value :: params) body, c)

def parseCond : Nat → Cursor → Except ParseFault (Expr × Cursor)
  | 0, _ => .error .exhausted
  | fuel + 1, c => do
    let place := c.peek.place
    let (condition, c) ← parse fuel c.advance
    let (_, c) ← c.expect (.keyword .thenWord) "'then'"
    let (yes, c) ← parse fuel c
    let (_, c) ← c.expect (.keyword .elseWord) "'else'"
    let (no, c) ← parse fuel c
    pure (.cond place condition yes no, c)

/-- A do block, at its first word. Its statements start at the column of the first one, and the last
one has to be an expression. -/
def parseBlock : Nat → Cursor → Except ParseFault (Expr × Cursor)
  | 0, _ => .error .exhausted
  | fuel + 1, c => do
    let place := c.peek.place
    let c := c.advance
    if c.atBoundary then .error (.malformed .emptyBlock place)
    else
      let column := c.peek.column
      let (statements, c) ← parseStatements fuel column (c.enter column)
      match statements.getLast? with
      | some (.run _ _) => pure (.block place statements, c.leave)
      | some last => .error (.malformed .blockWithoutResult last.place)
      | none => .error (.malformed .emptyBlock place)

def parseStatements : Nat → Nat → Cursor → Except ParseFault (List Statement × Cursor)
  | 0, _, _ => .error .exhausted
  | fuel + 1, column, c => do
    let (statement, c) ← parseStatement fuel c
    if !c.atEnd && c.peek.opensLine && c.peek.column = column then
      let (others, c) ← parseStatements fuel column c
      pure (statement :: others, c)
    else pure ([statement], c)

def parseStatement : Nat → Cursor → Except ParseFault (Statement × Cursor)
  | 0, _ => .error .exhausted
  | fuel + 1, c =>
    let place := c.peek.place
    let c := { c with fresh := true }
    if c.kind = .keyword .letWord then do
      let (name, c) ← c.advance.expect .identifier "an identifier"
      let (params, c) := c.identifiers
      let (_, c) ← c.expect (.mark .assign) "'='"
      let (value, c) ← parse fuel c
      let value := if params.isEmpty then value else .lambda place params value
      pure (.define place name.value value, c)
    else if c.kind = .identifier ∧ c.secondKind = .mark .leftArrow then do
      let (action, after) ← parse fuel c.advance.advance
      pure (.bind place c.peek.value action, after)
    else do
      let (action, c) ← parse fuel c
      pure (.run place action, c)

end

/-- A depth that is large enough to read any expression at the cursor. -/
def readingDepth (c : Cursor) : Nat := 8 * (c.tokens.length + 1)

end Expr

end PureJs
