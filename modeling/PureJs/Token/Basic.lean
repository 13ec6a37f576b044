import PureJs.Source.Position

/-! The tokens of a program and where they stand. -/

namespace PureJs

inductive Keyword
  | moduleWord
  | whereWord
  | importWord
  | foreignWord
  | ifWord
  | thenWord
  | elseWord
  | doWord
  | letWord
  | trueWord
  | falseWord
  deriving DecidableEq, Repr

namespace Keyword

def all : List Keyword :=
  [moduleWord, whereWord, importWord, foreignWord, ifWord, thenWord, elseWord, doWord, letWord,
    trueWord, falseWord]

def text : Keyword → String
  | moduleWord => "module"
  | whereWord => "where"
  | importWord => "import"
  | foreignWord => "foreign"
  | ifWord => "if"
  | thenWord => "then"
  | elseWord => "else"
  | doWord => "do"
  | letWord => "let"
  | trueWord => "true"
  | falseWord => "false"

def ofText? (word : String) : Option Keyword := all.find? (·.text = word)

end Keyword

inductive Mark
  | doubleColon
  | arrow
  | leftArrow
  | equal
  | notEqual
  | greaterEqual
  | lessEqual
  | append
  | and
  | or
  | plus
  | minus
  | star
  | slash
  | percent
  | greater
  | less
  | assign
  | backslash
  | dot
  | pipe
  | leftParen
  | rightParen
  | leftBracket
  | rightBracket
  | leftBrace
  | rightBrace
  | comma
  deriving DecidableEq, Repr

namespace Mark

def all : List Mark :=
  [doubleColon, arrow, leftArrow, equal, notEqual, greaterEqual, lessEqual, append, and, or, plus,
    minus, star, slash, percent, greater, less, assign, backslash, dot, pipe, leftParen, rightParen,
    leftBracket, rightBracket, leftBrace, rightBrace, comma]

def chars : Mark → List Char
  | doubleColon => [':', ':']
  | arrow => ['-', '>']
  | leftArrow => ['<', '-']
  | equal => ['=', '=']
  | notEqual => ['/', '=']
  | greaterEqual => ['>', '=']
  | lessEqual => ['<', '=']
  | append => ['<', '>']
  | and => ['&', '&']
  | or => ['|', '|']
  | plus => ['+']
  | minus => ['-']
  | star => ['*']
  | slash => ['/']
  | percent => ['%']
  | greater => ['>']
  | less => ['<']
  | assign => ['=']
  | backslash => ['\\']
  | dot => ['.']
  | pipe => ['|']
  | leftParen => ['(']
  | rightParen => [')']
  | leftBracket => ['[']
  | rightBracket => [']']
  | leftBrace => ['\x7b']
  | rightBrace => ['\x7d']
  | comma => [',']

end Mark

inductive TokenKind
  | keyword (word : Keyword)
  | integer
  | number
  | string
  | identifier
  /-- a dotted name of capitalised parts -/
  | proper
  /-- an identifier after a dotted name of capitalised parts -/
  | qualified
  | mark (mark : Mark)
  | endOfInput
  deriving DecidableEq, Repr

/-- A token with the value that it stands for, its place, and the range of the text it takes up. -/
structure Token where
  kind : TokenKind
  value : String
  place : Position
  start : Nat
  stop : Nat
  /-- the token before it starts on another line -/
  opensLine : Bool
  deriving DecidableEq, Repr

namespace Token

def column (token : Token) : Nat := token.place.column

def endOfInput (place : Position) (offset : Nat) : Token :=
  ⟨.endOfInput, "", place, offset, offset, true⟩

end Token

end PureJs
