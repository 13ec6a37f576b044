import PureJs.Emit
import PureJs.Externs
import PureJs.Js.Printer
import PureJs.Program.Check
import PureJs.Program.Fold
import PureJs.Program.Liveness
import PureJs.Syntax.ModuleParser

/-! From source texts to JavaScript. -/

namespace PureJs

structure Compiled where
  javascript : String
  externs : String
  notes : List String

/-- The name of the value that an entry module has to declare. -/
def entryName : String := "main"

def unknownModules (modules : List Module) (flag : String) (names : List String) : List Finding :=
  (names.filter (· ∉ modules.map Module.name)).map fun name =>
    ⟨.unknownModuleForFlag name flag, none, []⟩

def entryFindings (modules : List Module) (name : String) : List Finding :=
  match modules.find? (·.name = name) with
  | none => [⟨.entryModuleMissing name, none, []⟩]
  | some m =>
    if m.declarations.any (fun d => d.value?.any (·.name = entryName)) then []
    else [.inFile m.file m.place (.entryModuleWithoutMain name)]

def optionFindings (options : Options) (modules : List Module) : List Finding :=
  unknownModules modules "--module" options.rootModules ++
    unknownModules modules "--codegen" options.outputModules ++
    options.entryModule.elim [] (entryFindings modules)

variable [Simplifier]

def optimized (options : Options) (modules : List Module) : List Module :=
  if options.noOptimizations then modules else modules.map Module.optimize

/-- The modules without dead code, if there are root modules; the entry is kept alive. -/
def withoutDeadCode (options : Options) (modules : List Module) : List Module :=
  if options.rootModules.isEmpty then modules
  else Module.eliminateDead options.rootModules
    (options.entryModule.toList.map (·, entryName)) modules

def selected (options : Options) (modules : List Module) : List Module :=
  if options.outputModules.isEmpty then modules
  else modules.filter (·.name ∈ options.outputModules)

def compileNotes (options : Options) (kept output : List Module) : List String :=
  (if options.rootModules.isEmpty then []
    else [s!"dead code elimination kept {kept.length} module(s)"]) ++
  ["generating code for " ++
    if output.isEmpty then "no modules" else ", ".intercalate (output.map Module.name)]

def compileModules (options : Options) (header : List String) (modules : List Module) :
    Except Rejection Compiled :=
  match Module.check options modules with
  | .error refusal => .error refusal.rejection
  | .ok ordered =>
    if optionFindings options ordered ≠ [] then
      .error ⟨optionFindings options ordered, options.verboseErrors⟩
    else
      let kept := withoutDeadCode options (optimized options ordered)
      let output := selected options kept
      .ok {
        javascript := (Module.emitProgram options header output).text
        externs := Module.externsOf output
        notes := compileNotes options kept output }

/-- A source text with the name of the file that it is from, if it is from one. -/
structure SourceUnit where
  origin : Option String
  text : String

def SourceUnit.file (unit : SourceUnit) : String := unit.origin.getD unnamedFile

inductive SourceFault
  | rejected (rejection : Rejection)
  | numeral (fault : Text.NumeralFault)
  | exhausted

def ParseFault.inFile (file : String) : ParseFault → SourceFault
  | .malformed problem place => .rejected ⟨[.inFile file place problem], false⟩
  | .numeral fault => .numeral fault
  | .exhausted => .exhausted

/-- The modules of the source texts, in order; the first text with a fault ends the reading. -/
def parseUnits : List SourceUnit → Except SourceFault (List Module)
  | [] => .ok []
  | unit :: rest => do
    let modules ← match Module.ofText unit.file unit.text.toList with
      | .ok modules => pure modules
      | .error fault => throw (fault.inFile unit.file)
    let others ← parseUnits rest
    pure (modules ++ others)

inductive Stage
  | read
  | parse
  | compile
  | write
  deriving DecidableEq, Repr

def Stage.label : Stage → String
  | read => "read"
  | parse => "parse"
  | compile => "compile"
  | write => "write"

inductive CompileFault
  | rejected (stage : Stage) (rejection : Rejection)
  | numeral (fault : Text.NumeralFault)
  | exhausted

def compileSources (options : Options) (header : List String) (units : List SourceUnit) :
    List String × Except CompileFault Compiled :=
  match parseUnits units with
  | .error (.rejected rejection) => ([], .error (.rejected .parse rejection))
  | .error (.numeral fault) => ([], .error (.numeral fault))
  | .error .exhausted => ([], .error .exhausted)
  | .ok modules =>
    let parsed := s!"parsed {modules.length} module(s)"
    match compileModules options header modules with
    | .error rejection => ([parsed], .error (.rejected .compile rejection))
    | .ok compiled => (parsed :: compiled.notes, .ok compiled)

def headerLines (withHeader : Bool) (version : String) : List String :=
  if withHeader then ["Generated by psc version " ++ version] else []

end PureJs
