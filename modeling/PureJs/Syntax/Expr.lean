import PureJs.Source.Position
import PureJs.Syntax.Operator

/-! Expressions and the statements of do blocks. -/

namespace PureJs

inductive Literal
  | integer (value : Int)
  | number (text : String)
  | string (value : String)
  | bool (value : Bool)
  deriving DecidableEq, Repr

mutual

inductive Expr
  | literal (place : Position) (value : Literal)
  | array (place : Position) (items : List Expr)
  /-- a name, perhaps with the module that it is looked for in; `resolved` is the module that
  defines it, once that is known, and nothing for a local name -/
  | var (place : Position) (name : String) (qualifier resolved : Option String)
  | app (place : Position) (function argument : Expr)
  | lambda (place : Position) (params : List String) (body : Expr)
  | cond (place : Position) (condition yes no : Expr)
  | binary (place : Position) (op : Operator) (left right : Expr)
  | negate (place : Position) (operand : Expr)
  | block (place : Position) (statements : List Statement)

inductive Statement
  | bind (place : Position) (name : String) (action : Expr)
  | define (place : Position) (name : String) (value : Expr)
  | run (place : Position) (action : Expr)

end

namespace Statement

def place : Statement → Position
  | bind place _ _ | define place _ _ | run place _ => place

def expr : Statement → Expr
  | bind _ _ e | define _ _ e | run _ e => e

def name? : Statement → Option String
  | bind _ name _ | define _ name _ => some name
  | run _ _ => none

def isRun : Statement → Bool
  | run _ _ => true
  | _ => false

end Statement

namespace Expr

def place : Expr → Position
  | literal place _ | array place _ | var place _ _ _ | app place _ _ | lambda place _ _
  | cond place _ _ _ | binary place _ _ _ | negate place _ | block place _ => place

def unapplyOnto (args : List Expr) : Expr → Expr × List Expr
  | app _ function argument => unapplyOnto (argument :: args) function
  | e => (e, args)

def unapply (e : Expr) : Expr × List Expr := unapplyOnto [] e

end Expr

end PureJs
