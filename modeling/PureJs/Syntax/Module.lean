import PureJs.Syntax.Expr

/-! Modules and what they declare. -/

namespace PureJs

structure Import where
  module : String
  place : Position
  implicit : Bool
  deriving DecidableEq, Repr

structure ValueDeclaration where
  place : Position
  name : String
  params : List String
  body : Expr

structure ForeignDeclaration where
  place : Position
  name : String
  javascript : String
  type : String
  deriving DecidableEq, Repr

inductive Declaration
  | value (declaration : ValueDeclaration)
  | foreign (declaration : ForeignDeclaration)

namespace Declaration

def name : Declaration → String
  | value d => d.name
  | foreign d => d.name

def place : Declaration → Position
  | value d => d.place
  | foreign d => d.place

def value? : Declaration → Option ValueDeclaration
  | value d => some d
  | foreign _ => none

def foreign? : Declaration → Option ForeignDeclaration
  | value _ => none
  | foreign d => some d

def mapBody (f : Expr → Expr) : Declaration → Declaration
  | value d => value { d with body := f d.body }
  | foreign d => foreign d

end Declaration

/-- A type given to a value; the text of the type is kept, its meaning is not looked at. -/
structure Signature where
  place : Position
  name : String
  type : String
  deriving DecidableEq, Repr

structure Module where
  name : String
  file : String
  place : Position
  imports : List Import
  declarations : List Declaration
  signatures : List Signature

namespace Module

def declaredNames (m : Module) : List String := m.declarations.map Declaration.name

def importedModules (m : Module) : List String := m.imports.map Import.module

/-- The text of the type of a value: that of its signature, or else that of its foreign import. -/
def typeOf? (m : Module) (name : String) : Option String :=
  ((m.signatures.find? (·.name = name)).map Signature.type).or
    (m.declarations.findSome? fun d =>
      d.foreign?.bind fun f => if f.name = name then some f.type else none)

def mapBodies (f : Expr → Expr) (m : Module) : Module :=
  { m with declarations := m.declarations.map (Declaration.mapBody f) }

end Module

end PureJs
