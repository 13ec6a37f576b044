import PureJs.Graph.DepthFirst
import PureJs.Js.Identifier
import PureJs.Program.Options
import PureJs.Program.TailCall

/-! The JavaScript that modules are compiled to. -/

namespace PureJs

def Operator.toJs : Operator → Js.Operator
  | or => .or
  | and => .and
  | equal => .strictEqual
  | notEqual => .strictNotEqual
  | less => .less
  | lessEqual => .lessEqual
  | greater => .greater
  | greaterEqual => .greaterEqual
  | append | add => .add
  | sub => .sub
  | mul => .mul
  | div => .div
  | mod => .mod

namespace Emit

structure Setting where
  module : String
  directBlocks : Bool

/-- The function that runs an action and gives its result to what comes after it. -/
def bindName : String := "$bind"

def unusedName : String := "$unused"

def isAtomic : Expr → Bool
  | .literal _ (.integer n) => 0 ≤ n
  | .literal .. | .array .. | .var .. | .app .. => true
  | _ => false

def asOperand (e : Expr) (code : Js.Expr) : Js.Expr := if isAtomic e then code else .paren code

def isCallable : Expr → Bool
  | .var .. | .app .. => true
  | _ => false

def asCallee (e : Expr) (code : Js.Expr) : Js.Expr := if isCallable e then code else .paren code

def literal : Literal → Js.Expr
  | .integer value => .integer value
  | .number text => .number text
  | .string value => .string value
  | .bool value => .bool value

/-- A name: local names and those of the module are variables, others are properties of their
modules. -/
def var (setting : Setting) (name : String) (resolved : Option String) : Js.Expr :=
  match resolved with
  | none => .name (Js.identifier name)
  | some module =>
    if module = setting.module then .name (Js.identifier name)
    else Js.select (Js.moduleObject module) name

def giving (param : String) (value : Js.Expr) : Js.Expr := .function [param] [.give value]

def curried (params : List String) (body : Js.Expr) : Js.Expr :=
  params.foldr (fun param inner => giving (Js.identifier param) inner) body

def perform (e : Expr) (code : Js.Expr) : Js.Expr := .call (asCallee e code) []

mutual

def expr (setting : Setting) : Expr → Js.Expr
  | .literal _ value => literal value
  | .array _ items => .array (list setting items)
  | .var _ name _ resolved => var setting name resolved
  | .app _ function argument =>
    .call (asCallee function (expr setting function)) [expr setting argument]
  | .lambda _ params body => curried params (expr setting body)
  | .cond _ condition yes no =>
    .cond (asOperand condition (expr setting condition)) (asOperand yes (expr setting yes))
      (asOperand no (expr setting no))
  | .binary _ op left right =>
    .binary op.toJs (asOperand left (expr setting left)) (asOperand right (expr setting right))
  | .negate _ operand => .negate (asOperand operand (expr setting operand))
  | .block _ statements =>
    if setting.directBlocks then .function [] (direct setting statements)
    else chained setting statements

def list (setting : Setting) : List Expr → List Js.Expr
  | [] => []
  | e :: rest => expr setting e :: list setting rest

/-- Statements that run one after the other in a function of their own, which gives the result of
the last one. -/
def direct (setting : Setting) : List Statement → List Js.Statement
  | [] => [.give .hole]
  | [.bind _ _ e] | [.define _ _ e] | [.run _ e] => [.give (perform e (expr setting e))]
  | .bind _ name e :: rest =>
    .var (Js.identifier name) (perform e (expr setting e)) :: direct setting rest
  | .define _ name e :: rest => .var (Js.identifier name) (expr setting e) :: direct setting rest
  | .run _ e :: rest => .run (perform e (expr setting e)) :: direct setting rest

/-- Statements as a chain of calls: each one hands its result to a function that goes on with the
others. -/
def chained (setting : Setting) : List Statement → Js.Expr
  | [] => .hole
  | [.bind _ _ e] | [.define _ _ e] | [.run _ e] => expr setting e
  | .define _ name e :: rest =>
    .call (.paren (giving (Js.identifier name) (chained setting rest))) [expr setting e]
  | .bind _ name e :: rest =>
    .call (.call (.name bindName) [expr setting e])
      [giving (Js.identifier name) (chained setting rest)]
  | .run _ e :: rest =>
    .call (.call (.name bindName) [expr setting e]) [giving unusedName (chained setting rest)]

end

def loopLabel : String := "tco"

def copyName (param : String) : String := "$copy_" ++ Js.identifier param

def nextName (param : String) : String := "$tco_" ++ Js.identifier param

/-- The code of an expression in tail position: a call of the declaration itself sets the loop
variables, when all of its arguments are evaluated, and goes round; anything else is given back. -/
def tail (setting : Setting) (d : ValueDeclaration) : Expr → List Js.Statement
  | .cond _ condition yes no =>
    [.branch (expr setting condition) (tail setting d yes) (tail setting d no)]
  | e =>
    match d.selfCall? setting.module e with
    | none => [.give (expr setting e)]
    | some args =>
      (d.params.zip args).map (fun arg => .var (nextName arg.1) (expr setting arg.2)) ++
      d.params.map (fun param => .assign (.name (Js.identifier param)) (.name (nextName param))) ++
      [.again loopLabel]

/-- The body of a loop function: variables for the parameters, and the loop. -/
def loopBody (setting : Setting) (d : ValueDeclaration) : List Js.Statement :=
  d.params.map (fun param => .var (Js.identifier param) (.name (copyName param))) ++
    [.loop loopLabel (tail setting d d.body)]

def loopFunction (setting : Setting) (d : ValueDeclaration) : List String → Js.Expr
  | [] => .hole
  | [param] => .function [copyName param] (loopBody setting d)
  | param :: rest => giving (copyName param) (loopFunction setting d rest)

def declaration (options : Options) (setting : Setting) : Declaration → Js.Statement
  | .foreign d => .verbatim d.javascript
  | .value d =>
    let value :=
      if options.loops && d.isTailRecursive setting.module then
        loopFunction setting d d.params
      else curried d.params (expr setting d.body)
    .var (Js.identifier d.name) value

def bindHelper : Js.Statement :=
  .var bindName (giving "m" (giving "k" (.function []
    [.give (.call (.call (.name "k") [.call (.name "m") []]) [])])))

end Emit

namespace Module

def uses (m : Module) (d : Declaration) : List Declaration :=
  let references := d.references
  m.declarations.filter fun other => (m.name, other.name) ∈ references

/-- The declarations in the order of the source, except that each one follows what it refers to. -/
def orderedDeclarations (m : Module) : List Declaration :=
  (DepthFirst.walk Declaration.name m.uses m.declarations.length m.declarations).left.reverse

/-- The statement that sets up a module: a function that declares its values and gives an object of
them is called, and the object is put into the container. -/
def emit (options : Options) (m : Module) : Js.Statement :=
  let setting : Emit.Setting := ⟨m.name, options.directBlocks⟩
  let body := m.orderedDeclarations.map (Emit.declaration options setting)
  let helper := if Js.statementsUse Emit.bindName body then [Emit.bindHelper] else []
  let exports := Js.Expr.object (m.declaredNames.map fun name =>
    (name, Js.Expr.name (Js.identifier name)))
  .assign (Js.moduleObject m.name)
    (.call (.paren (.function [] (helper ++ body ++ [.give exports]))) [])

/-- The program made of the modules, which runs the entry module if there is one. -/
def emitProgram (options : Options) (header : List String) (modules : List Module) :
    Js.Program where
  header := header
  body := modules.map (emit options) ++
    match options.entryModule with
    | some name => [.run (.call (.property (Js.moduleObject name) "main") [])]
    | none => []
  browserNamespace := options.browserNamespace

end Module

end PureJs
