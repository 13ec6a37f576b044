import PureJs.Problem
import PureJs.Syntax.Module

/-! Ordering modules so that each one follows what it imports. -/

namespace PureJs.Module

def lookup? (modules : List Module) (name : String) : Option Module :=
  modules.reverse.find? (·.name = name)

structure ImportCycle where
  path : List String
  module : Module

def ImportCycle.finding (cycle : ImportCycle) : Finding :=
  .inFile cycle.module.file cycle.module.place (.importCycle cycle.path)

/-- The cycle that closes when the chain of imports `path` comes to `m`. -/
def cycleAt (path : List String) (m : Module) : ImportCycle :=
  ⟨path.dropWhile (· ≠ m.name) ++ [m.name], m⟩

/-- Puts what `m` imports and then `m` itself in front of the modules that are in order already,
latest first. `path` names the modules that led here. The depth is bounded by the number of modules:
each level adds a name to the path. -/
def arrange (modules : List Module) (fuel : Nat) (path : List String) (ordered : List Module)
    (m : Module) : Except ImportCycle (List Module) :=
  if m.name ∈ ordered.map Module.name then .ok ordered
  else if m.name ∈ path then .error (cycleAt path m)
  else match fuel with
    | 0 => .error (cycleAt path m)
    | fuel + 1 => do
      let ordered ← m.imports.foldlM (fun ordered entry =>
        match lookup? modules entry.module with
        | none => .ok ordered
        | some imported => arrange modules fuel (path ++ [m.name]) ordered imported) ordered
      pure (m :: ordered)

/-- The modules in dependency order. Modules that do not depend on one another stay as they are. -/
def sort (modules : List Module) : Except ImportCycle (List Module) := do
  let ordered ← modules.foldlM (arrange modules modules.length []) []
  pure ordered.reverse

end PureJs.Module
