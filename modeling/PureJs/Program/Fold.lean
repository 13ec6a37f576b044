import PureJs.Syntax.Module

/-! Evaluating what is made of literals only. Operators on whole numbers and on truth values are
left to a simplifier of terms, which is no part of the program. -/

namespace PureJs

def exactLimit : Int := Int.pow 2 53

def isExact (n : Int) : Bool := -exactLimit ≤ n && n ≤ exactLimit

inductive IntTerm
  | sum (a b : Int)
  | difference (a b : Int)
  | product (a b : Int)

inductive BoolTerm
  | equal (a b : Int)
  | notEqual (a b : Int)
  | less (a b : Int)
  | lessEqual (a b : Int)
  | greater (a b : Int)
  | greaterEqual (a b : Int)
  | and (a b : Bool)
  | or (a b : Bool)
  | same (a b : Bool)
  | different (a b : Bool)

def IntTerm.value : IntTerm → Int
  | sum a b => a + b
  | difference a b => a - b
  | product a b => a * b

def BoolTerm.value : BoolTerm → Bool
  | equal a b => a = b
  | notEqual a b => a ≠ b
  | less a b => a < b
  | lessEqual a b => a ≤ b
  | greater a b => a > b
  | greaterEqual a b => a ≥ b
  | and a b => a && b
  | or a b => a || b
  | same a b => a = b
  | different a b => a ≠ b

/-- What simplifies terms. There is no answer where it makes something else than a literal of a
term. -/
class Simplifier where
  integer? : IntTerm → Option Int
  bool? : BoolTerm → Option Bool

section Simplified

variable [Simplifier]

open Simplifier (integer? bool?)

structure Simplifier.Sound : Prop where
  integer {term : IntTerm} {n : Int} (answer : integer? term = some n) : n = term.value
  bool {term : BoolTerm} {b : Bool} (answer : bool? term = some b) : b = term.value

/-- Every term is simplified to the literal that it stands for. -/
structure Simplifier.Exact : Prop where
  integer (term : IntTerm) : integer? term = some term.value
  bool (term : BoolTerm) : bool? term = some term.value

theorem Simplifier.Exact.sound (exact : Simplifier.Exact) : Simplifier.Sound where
  integer answer := Option.some.inj (answer.symm.trans (exact.integer _))
  bool answer := Option.some.inj (answer.symm.trans (exact.bool _))

namespace Operator

def onIntegers? (op : Operator) (a b : Int) : Option Literal :=
  match op with
  | add => (integer? (.sum a b)).map .integer
  | sub => (integer? (.difference a b)).map .integer
  | mul => (integer? (.product a b)).map .integer
  | equal => (bool? (.equal a b)).map .bool
  | notEqual => (bool? (.notEqual a b)).map .bool
  | less => (bool? (.less a b)).map .bool
  | lessEqual => (bool? (.lessEqual a b)).map .bool
  | greater => (bool? (.greater a b)).map .bool
  | greaterEqual => (bool? (.greaterEqual a b)).map .bool
  | _ => none

def onBools? (op : Operator) (a b : Bool) : Option Literal :=
  match op with
  | and => (bool? (.and a b)).map .bool
  | or => (bool? (.or a b)).map .bool
  | equal => (bool? (.same a b)).map .bool
  | notEqual => (bool? (.different a b)).map .bool
  | _ => none

end Operator

namespace Literal

def isInexact : Literal → Bool
  | integer n => !isExact n
  | _ => false

/-- The result of an operator on literals, if it is known and every number in it is exact. -/
def combine? (op : Operator) (left right : Literal) : Option Literal :=
  match left, right with
  | integer a, integer b =>
    if isExact a && isExact b then (op.onIntegers? a b).filter (!·.isInexact) else none
  | bool a, bool b => op.onBools? a b
  | string a, string b => if op = .append then some (.string (a ++ b)) else none
  | _, _ => none

end Literal

namespace Expr

def foldBinary (place : Position) (op : Operator) (left right : Expr) : Expr :=
  match left, right with
  | literal _ a, literal _ b =>
    match a.combine? op b with
    | some value => literal place value
    | none => binary place op left right
  | _, _ => binary place op left right

def foldNegate (place : Position) (operand : Expr) : Expr :=
  match operand with
  | literal _ (.integer n) => literal place (.integer (-n))
  | _ => negate place operand

def foldCond (place : Position) (condition yes no : Expr) : Expr :=
  match condition with
  | literal _ (.bool value) => if value then yes else no
  | _ => cond place condition yes no

mutual

/-- The expression with every part evaluated that is made of literals only. -/
def fold : Expr → Expr
  | literal place value => literal place value
  | array place items => array place (foldList items)
  | var place name qualifier resolved => var place name qualifier resolved
  | app place function argument => app place (fold function) (fold argument)
  | lambda place params body => lambda place params (fold body)
  | cond place condition yes no => foldCond place (fold condition) (fold yes) (fold no)
  | binary place op left right => foldBinary place op (fold left) (fold right)
  | negate place operand => foldNegate place (fold operand)
  | block place statements => block place (foldStatements statements)

def foldList : List Expr → List Expr
  | [] => []
  | e :: rest => fold e :: foldList rest

def foldStatements : List Statement → List Statement
  | [] => []
  | .bind place name e :: rest => .bind place name (fold e) :: foldStatements rest
  | .define place name e :: rest => .define place name (fold e) :: foldStatements rest
  | .run place e :: rest => .run place (fold e) :: foldStatements rest

end

end Expr

def Module.optimize (m : Module) : Module := m.mapBodies Expr.fold

end Simplified

instance Simplifier.values : Simplifier where
  integer? term := some term.value
  bool? term := some term.value

theorem Simplifier.values_exact : Simplifier.values.Exact where
  integer _ := rfl
  bool _ := rfl

end PureJs
