import PureJs.Program.Scope

/-! Functions that call themselves in tail position only. -/

namespace PureJs

namespace Expr

def isValue (module name : String) : Expr → Bool
  | var _ written _ resolved => resolved = some module && written = name
  | _ => false

def mentions (module name : String) (e : Expr) : Bool := (module, name) ∈ e.references

end Expr

namespace ValueDeclaration

/-- The arguments, if the expression calls the declaration with as many as it has parameters. -/
def selfCall? (module : String) (d : ValueDeclaration) (e : Expr) : Option (List Expr) :=
  let (head, args) := e.unapply
  if head.isValue module d.name && args.length = d.params.length then some args else none

/-- In the expression, which stands in tail position, the declaration is mentioned as the head of
full calls in tail position only. -/
def tailCallsOnly (module : String) (d : ValueDeclaration) : Expr → Bool
  | .cond _ condition yes no =>
    !condition.mentions module d.name && tailCallsOnly module d yes && tailCallsOnly module d no
  | e =>
    match d.selfCall? module e with
    | some args => !args.any (·.mentions module d.name)
    | none => !e.mentions module d.name

/-- The expression, which stands in tail position, has a full call of the declaration in tail
position. -/
def hasTailCall (module : String) (d : ValueDeclaration) : Expr → Bool
  | .cond _ _ yes no => hasTailCall module d yes || hasTailCall module d no
  | e => (d.selfCall? module e).isSome

/-- The declaration has parameters and calls itself, and never but in tail position. -/
def isTailRecursive (module : String) (d : ValueDeclaration) : Bool :=
  !d.params.isEmpty && d.tailCallsOnly module d.body && d.hasTailCall module d.body

end ValueDeclaration

end PureJs
