import PureJs.Problem
import PureJs.Syntax.Module

/-! What the names in a program refer to. -/

namespace PureJs

/-- A place where an expression names a value, with the local names that can be used there. -/
structure Occurrence where
  place : Position
  name : String
  qualifier : Option String
  resolved : Option String
  locals : List String
  deriving DecidableEq, Repr

instance lawfulKeys : LawfulBEq (String × String) := inferInstance

namespace Expr

mutual

/-- The names that an expression uses, in the order of the source. -/
def occurrences (locals : List String) : Expr → List Occurrence
  | literal _ _ => []
  | array _ items => listOccurrences locals items
  | var place name qualifier resolved => [⟨place, name, qualifier, resolved, locals⟩]
  | app _ function argument => occurrences locals function ++ occurrences locals argument
  | lambda _ params body => occurrences (params ++ locals) body
  | cond _ condition yes no =>
    occurrences locals condition ++ occurrences locals yes ++ occurrences locals no
  | binary _ _ left right => occurrences locals left ++ occurrences locals right
  | negate _ operand => occurrences locals operand
  | block _ statements => statementOccurrences locals statements

def listOccurrences (locals : List String) : List Expr → List Occurrence
  | [] => []
  | e :: rest => occurrences locals e ++ listOccurrences locals rest

/-- The names that statements use; each statement sees the names of those before it. -/
def statementOccurrences (locals : List String) : List Statement → List Occurrence
  | [] => []
  | .bind _ name e :: rest | .define _ name e :: rest =>
    occurrences locals e ++ statementOccurrences (name :: locals) rest
  | .run _ e :: rest => occurrences locals e ++ statementOccurrences locals rest

end

mutual

/-- The expression with what its names refer to; a name that refers to nothing stays as it is. -/
def resolveWith (lookup : Occurrence → Except Problem (Option String)) (locals : List String) :
    Expr → Expr
  | literal place value => literal place value
  | array place items => array place (resolveList lookup locals items)
  | var place name qualifier resolved =>
    match lookup ⟨place, name, qualifier, resolved, locals⟩ with
    | .ok found => var place name qualifier found
    | .error _ => var place name qualifier resolved
  | app place function argument =>
    app place (resolveWith lookup locals function) (resolveWith lookup locals argument)
  | lambda place params body => lambda place params (resolveWith lookup (params ++ locals) body)
  | cond place condition yes no =>
    cond place (resolveWith lookup locals condition) (resolveWith lookup locals yes)
      (resolveWith lookup locals no)
  | binary place op left right =>
    binary place op (resolveWith lookup locals left) (resolveWith lookup locals right)
  | negate place operand => negate place (resolveWith lookup locals operand)
  | block place statements => block place (resolveStatements lookup locals statements)

def resolveList (lookup : Occurrence → Except Problem (Option String)) (locals : List String) :
    List Expr → List Expr
  | [] => []
  | e :: rest => resolveWith lookup locals e :: resolveList lookup locals rest

def resolveStatements (lookup : Occurrence → Except Problem (Option String))
    (locals : List String) : List Statement → List Statement
  | [] => []
  | .bind place name e :: rest =>
    .bind place name (resolveWith lookup locals e) :: resolveStatements lookup (name :: locals) rest
  | .define place name e :: rest =>
    .define place name (resolveWith lookup locals e) ::
      resolveStatements lookup (name :: locals) rest
  | .run place e :: rest =>
    .run place (resolveWith lookup locals e) :: resolveStatements lookup locals rest

end

/-- The values of modules that an expression refers to, as module and name. -/
def references (e : Expr) : List (String × String) :=
  (e.occurrences []).filterMap fun use => use.resolved.map (·, use.name)

end Expr

def Declaration.references : Declaration → List (String × String)
  | value d => d.body.references
  | foreign _ => []

namespace Module

def declares (modules : List Module) (target name : String) : Bool :=
  modules.any fun m => m.name = target && name ∈ m.declaredNames

/-- The modules that `m` imports and that declare the value, each named once. -/
def exporters (modules : List Module) (m : Module) (name : String) : List String :=
  m.importedModules.eraseDups.filter (declares modules · name)

/-- The module that defines what a name in `m` refers to, or nothing for a local name. A name
without a module means the innermost thing of that name: a local one, then one of `m`, then the only
one among the imports. -/
def lookup (modules : List Module) (m : Module) (use : Occurrence) :
    Except Problem (Option String) :=
  match use.qualifier with
  | some target =>
    if target ≠ m.name ∧ target ∉ m.importedModules then .error (.notImported target)
    else if declares modules target use.name then .ok (some target)
    else .error (.unknownValue (target ++ "." ++ use.name))
  | none =>
    if use.name ∈ use.locals then .ok none
    else if use.name ∈ m.declaredNames then .ok (some m.name)
    else match exporters modules m use.name with
      | [] => .error (.unknownValue use.name)
      | [exporter] => .ok (some exporter)
      | several => .error (.ambiguousValue use.name several)

def resolve (modules : List Module) (m : Module) : Module :=
  { m with
    declarations := m.declarations.map fun
      | .value d =>
        .value { d with body := d.body.resolveWith (lookup modules m) d.params }
      | .foreign d => .foreign d }

def nameFindings (modules : List Module) (m : Module) : Declaration → List Finding
  | .value d =>
    (d.body.occurrences d.params).filterMap fun use =>
      match lookup modules m use with
      | .ok _ => none
      | .error problem =>
        some ⟨problem, some (m.file, use.place), [.valueDeclaration d.name, .module m.name]⟩
  | .foreign _ => []

end Module

end PureJs
