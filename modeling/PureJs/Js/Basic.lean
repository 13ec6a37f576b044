/-! JavaScript programs, as far as modules are compiled to them. -/

namespace PureJs.Js

inductive Operator
  | or
  | and
  | strictEqual
  | strictNotEqual
  | less
  | lessEqual
  | greater
  | greaterEqual
  | add
  | sub
  | mul
  | div
  | mod
  deriving DecidableEq, Repr

def Operator.text : Operator → String
  | or => "||"
  | and => "&&"
  | strictEqual => "==="
  | strictNotEqual => "!=="
  | less => "<"
  | lessEqual => "<="
  | greater => ">"
  | greaterEqual => ">="
  | add => "+"
  | sub => "-"
  | mul => "*"
  | div => "/"
  | mod => "%"

mutual

inductive Expr
  | integer (value : Int)
  | number (text : String)
  | string (value : String)
  | bool (value : Bool)
  | array (items : List Expr)
  | name (text : String)
  /-- a property named after a point -/
  | property (object : Expr) (name : String)
  /-- a property named by a string in brackets -/
  | entry (object : Expr) (key : String)
  | call (callee : Expr) (args : List Expr)
  | paren (inner : Expr)
  | cond (condition yes no : Expr)
  | binary (op : Operator) (left right : Expr)
  | negate (operand : Expr)
  | function (params : List String) (body : List Statement)
  | object (properties : List (String × Expr))
  | hole

inductive Statement
  | var (name : String) (value : Expr)
  | assign (target value : Expr)
  | give (value : Expr)
  | run (value : Expr)
  | branch (condition : Expr) (yes no : List Statement)
  | loop (label : String) (body : List Statement)
  | again (label : String)
  | verbatim (text : String)

end

mutual

def Expr.uses (x : String) : Expr → Bool
  | .integer _ | .number _ | .string _ | .bool _ | .hole => false
  | .array items => listUses x items
  | .name text => text = x
  | .property object _ | .entry object _ => object.uses x
  | .call callee args => callee.uses x || listUses x args
  | .paren inner | .negate inner => inner.uses x
  | .cond condition yes no => condition.uses x || yes.uses x || no.uses x
  | .binary _ left right => left.uses x || right.uses x
  | .function _ body => statementsUse x body
  | .object properties => propertiesUse x properties

def listUses (x : String) : List Expr → Bool
  | [] => false
  | e :: rest => e.uses x || listUses x rest

def propertiesUse (x : String) : List (String × Expr) → Bool
  | [] => false
  | (_, e) :: rest => e.uses x || propertiesUse x rest

def Statement.uses (x : String) : Statement → Bool
  | .var _ e | .give e | .run e => e.uses x
  | .assign target e => target.uses x || e.uses x
  | .branch condition yes no => condition.uses x || statementsUse x yes || statementsUse x no
  | .loop _ body => statementsUse x body
  | .again _ | .verbatim _ => false

def statementsUse (x : String) : List Statement → Bool
  | [] => false
  | s :: rest => s.uses x || statementsUse x rest

end

structure Program where
  header : List String
  body : List Statement
  browserNamespace : String

def container : String := "_ps"

end PureJs.Js
