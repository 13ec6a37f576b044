import PureJs.Program.Options
import PureJs.Program.Order
import PureJs.Program.Scope

/-! Checking a program: its modules, their imports and declarations, and every name. -/

namespace PureJs

def preludeName : String := "Prelude"

namespace Module

/-- The modules with an import of the Prelude in front of the others, wherever it is not written. -/
def addPrelude (options : Options) (modules : List Module) : List Module :=
  if options.noPrelude || !modules.any (·.name = preludeName) then modules
  else modules.map fun m =>
    if m.name = preludeName ∨ preludeName ∈ m.importedModules then m
    else { m with imports := ⟨preludeName, m.place, true⟩ :: m.imports }

def finding (m : Module) (place : Position) (problem : Problem) : Finding :=
  ⟨problem, some (m.file, place), [.module m.name]⟩

def repeated {α : Type} (key : α → String) (known : List String) : List α → List α
  | [] => []
  | entry :: rest =>
    if key entry ∈ known then entry :: repeated key known rest
    else repeated key (key entry :: known) rest

def repeatedModules (modules : List Module) : List Finding :=
  (repeated Module.name [] modules).map fun m =>
    .inFile m.file m.place (.repeatedModule m.name)

def unknownImports (modules : List Module) : List Finding :=
  modules.flatMap fun m =>
    (m.imports.filter fun entry => entry.module ∉ modules.map Module.name).map fun entry =>
      m.finding entry.place (.unknownModule entry.module)

/-- What is wrong with the declarations of a module from one on, when the names in `known` are
declared before it. -/
def declarationFindings (m : Module) (known : List String) : List Declaration → List Finding
  | [] => []
  | d :: rest =>
    (if d.name ∈ known then [m.finding d.place (.repeatedValue d.name)] else []) ++
    (match d with
      | .value v =>
        if v.params.Nodup then [] else [m.finding v.place (.repeatedParameter v.name)]
      | .foreign _ => []) ++
    declarationFindings m (d.name :: known) rest

/-- What is wrong with the signatures of a module from one on, when the names in `known` have
signatures before it. -/
def signatureFindings (m : Module) (known : List String) : List Signature → List Finding
  | [] => []
  | s :: rest =>
    (if s.name ∈ known then [m.finding s.place (.repeatedSignature s.name)] else []) ++
    (if m.declarations.any (fun d => d.value?.any (·.name = s.name)) then []
      else [m.finding s.place (.signatureWithoutValue s.name)]) ++
    signatureFindings m (s.name :: known) rest

/-- What is wrong inside a module: with its declarations, its signatures and its names. -/
def findings (modules : List Module) (m : Module) : List Finding :=
  declarationFindings m [] m.declarations ++ signatureFindings m [] m.signatures ++
    m.declarations.flatMap (nameFindings modules m)

/-- A refused program, with its modules as far as the check has worked on them. -/
structure Refusal where
  rejection : Rejection
  modules : List Module

/-- The modules of a program in dependency order, with what their names refer to. The check ends
at the first of these that is wrong: the names of the modules, their imports, the order of the
imports, and all that is inside the modules. -/
def check (options : Options) (modules : List Module) : Except Refusal (List Module) :=
  let refuse (findings : List Finding) (modules : List Module) :=
    Except.error ⟨⟨findings, options.verboseErrors⟩, modules⟩
  if repeatedModules modules ≠ [] then refuse (repeatedModules modules) modules
  else
    let modules := addPrelude options modules
    if unknownImports modules ≠ [] then refuse (unknownImports modules) modules
    else match sort modules with
      | .error cycle => refuse [cycle.finding] modules
      | .ok ordered =>
        if ordered.flatMap (findings modules) ≠ [] then
          refuse (ordered.flatMap (findings modules)) (modules.map (resolve modules))
        else .ok (ordered.map (resolve modules))

end Module

end PureJs
