import PureJs.Graph.DepthFirst
import PureJs.Program.Scope

/-! Dropping what the program does not need. -/

namespace PureJs.Module

def keys (modules : List Module) : List (String × String) :=
  modules.flatMap fun m => m.declaredNames.map (m.name, ·)

def entries (modules : List Module) : List (String × Declaration) :=
  modules.flatMap fun m => m.declarations.map (m.name, ·)

def dependencies (modules : List Module) (key : String × String) : List (String × String) :=
  match (entries modules).reverse.find? fun entry => (entry.1, entry.2.name) = key with
  | some entry => entry.2.references.filter (· ∈ keys modules)
  | none => []

/-- The declarations that are needed by the roots: all of the root modules, and the extra ones. -/
def live (modules : List Module) (roots : List String) (extra : List (String × String)) :
    List (String × String) :=
  let starts := (keys modules).filter (·.1 ∈ roots) ++ extra.filter (· ∈ keys modules)
  (DepthFirst.walk id (dependencies modules) (keys modules).length starts).entered

def keepLive (alive : List (String × String)) (m : Module) : Module :=
  { m with
    declarations := m.declarations.filter fun d => (m.name, d.name) ∈ alive
    signatures := m.signatures.filter fun s => (m.name, s.name) ∈ alive }

/-- The modules without what the roots do not need; a module of which nothing is left goes too,
unless it is a root. -/
def eliminateDead (roots : List String) (extra : List (String × String)) (modules : List Module) :
    List Module :=
  let alive := live modules roots extra
  (modules.map (keepLive alive)).filter fun m => !m.declarations.isEmpty || m.name ∈ roots

end PureJs.Module
