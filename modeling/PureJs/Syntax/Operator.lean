import PureJs.Token.Basic

/-! The binary operators: how they are written and how they bind. -/

namespace PureJs

inductive Operator
  | or
  | and
  | equal
  | notEqual
  | less
  | lessEqual
  | greater
  | greaterEqual
  | append
  | add
  | sub
  | mul
  | div
  | mod
  deriving DecidableEq, Repr

namespace Operator

def all : List Operator :=
  [or, and, equal, notEqual, less, lessEqual, greater, greaterEqual, append, add, sub, mul, div,
    mod]

def mark : Operator → Mark
  | or => .or
  | and => .and
  | equal => .equal
  | notEqual => .notEqual
  | less => .less
  | lessEqual => .lessEqual
  | greater => .greater
  | greaterEqual => .greaterEqual
  | append => .append
  | add => .plus
  | sub => .minus
  | mul => .star
  | div => .slash
  | mod => .percent

def ofMark? (mark : Mark) : Option Operator := all.find? (·.mark = mark)

def text (op : Operator) : String := String.ofList op.mark.chars

def precedence : Operator → Nat
  | or => 1
  | and => 2
  | equal | notEqual | less | lessEqual | greater | greaterEqual => 4
  | append => 5
  | add | sub => 6
  | mul | div | mod => 7

def groupsRight : Operator → Bool
  | or | and | append => true
  | _ => false

def rightPrecedence (op : Operator) : Nat :=
  if op.groupsRight then op.precedence else op.precedence + 1

end Operator

end PureJs
