import PureJs.Host.Path
import PureJs.Json.Parser
import PureJs.Program.Options
import PureJs.Run.Fault

/-! Configuration files: defaults for the flags of a project. -/

namespace PureJs

structure Config where
  noPrelude : Bool
  noLoops : Bool
  noDirectBlocks : Bool
  noOptimizations : Bool
  verboseErrors : Bool
  noHeader : Bool
  entryModule : Option String
  browserNamespace : String
  rootModules : List String
  outputModules : List String
  output : Option String
  externs : Option String
  path : Option String
  deriving DecidableEq, Repr

inductive ConfigProblem
  | unreadable (reason : String)
  | malformed (message : String)
  | notObject
  | notSwitch (key : String)
  | notString (key : String)
  | notModules (key : String)
  deriving DecidableEq, Repr

def ConfigProblem.reason : ConfigProblem → String
  | unreadable reason => reason
  | malformed message => message
  | notObject => "expected a JSON object"
  | notSwitch key => s!"'{key}' must be true or false"
  | notString key => s!"'{key}' must be a string"
  | notModules key => s!"'{key}' must be a list of module names"

structure ConfigFault where
  path : String
  problem : ConfigProblem
  deriving DecidableEq, Repr

def ConfigFault.message (fault : ConfigFault) : String :=
  s!"Invalid configuration file {fault.path}: {fault.problem.reason}"

namespace Config

def default : Config where
  noPrelude := false
  noLoops := false
  noDirectBlocks := false
  noOptimizations := false
  verboseErrors := false
  noHeader := false
  entryModule := none
  browserNamespace := Options.defaultNamespace
  rootModules := []
  outputModules := []
  output := none
  externs := none
  path := none

def knownKeys : List String :=
  ["no_prelude", "no_tco", "no_magic_do", "no_opts", "verbose_errors", "no_prefix", "main",
    "browser_namespace", "output", "externs", "modules", "codegen"]

def switch (members : List (String × Json)) (key : String) : Except ConfigProblem Bool :=
  match members.lookup key with
  | none => .ok false
  | some (.bool value) => .ok value
  | some _ => .error (.notSwitch key)

def text? (members : List (String × Json)) (key : String) : Except ConfigProblem (Option String) :=
  match members.lookup key with
  | none | some .null => .ok none
  | some (.string value) => .ok (some value)
  | some _ => .error (.notString key)

def string? : Json → Option String
  | .string value => some value
  | _ => none

def modules (members : List (String × Json)) (key : String) :
    Except ConfigProblem (List String) :=
  match members.lookup key with
  | none => .ok []
  | some (.array items) =>
    match items.mapM string? with
    | some names => .ok names
    | none => .error (.notModules key)
  | some _ => .error (.notModules key)

/-- The configuration given by the members of an object. The switches are looked at first, then the
texts, then the lists. -/
def ofMembers (path : String) (members : List (String × Json)) : Except ConfigProblem Config := do
  let noPrelude ← switch members "no_prelude"
  let noLoops ← switch members "no_tco"
  let noDirectBlocks ← switch members "no_magic_do"
  let noOptimizations ← switch members "no_opts"
  let verboseErrors ← switch members "verbose_errors"
  let noHeader ← switch members "no_prefix"
  let entryModule ← text? members "main"
  let browserNamespace ← text? members "browser_namespace"
  let output ← text? members "output"
  let externs ← text? members "externs"
  let rootModules ← modules members "modules"
  let outputModules ← modules members "codegen"
  pure {
    noPrelude := noPrelude
    noLoops := noLoops
    noDirectBlocks := noDirectBlocks
    noOptimizations := noOptimizations
    verboseErrors := verboseErrors
    noHeader := noHeader
    entryModule := entryModule
    browserNamespace := browserNamespace.getD Options.defaultNamespace
    rootModules := rootModules
    outputModules := outputModules
    output := output
    externs := externs
    path := some path }

def unknownKeys (members : List (String × Json)) : List String :=
  ((members.map Prod.fst).filter (· ∉ knownKeys)).eraseDups.mergeSort fun a b => !(b < a)

variable {m : Type → Type} [Monad m] [Host m]

def ofMembersWarning (path : String) (members : List (String × Json)) :
    m (Except ConfigFault Config) := do
  match ofMembers path members with
  | .error problem => pure (.error ⟨path, problem⟩)
  | .ok config =>
    let unknown := unknownKeys members
    if !unknown.isEmpty then
      logWarning (s!"ignoring unknown keys in {path}: " ++ ", ".intercalate unknown)
    pure (.ok config)

def fileNames : List String := [".pscrc.json", "psc.config.json"]

def firstFile? : List String → m (Option String)
  | [] => pure none
  | path :: rest => do
    if ← Host.isFile path then pure (some path) else firstFile? rest

def find? (start : String) : m (Option String) := do
  let names := Path.fromRoot (← Host.currentDirectory) start
  firstFile? ((Path.ancestors names).flatMap fun way =>
    fileNames.map fun name => Path.ofNames (way ++ [name]))

def loadFile (debug : Bool) (path : String) : ExceptT Crash m (Except ConfigFault Config) := do
  let refuse (problem : ConfigProblem) : ExceptT Crash m (Except ConfigFault Config) :=
    pure (.error ⟨path, problem⟩)
  match ← Host.readFile path with
  | .error fault => refuse (.unreadable (← fault.reason))
  | .ok bytes =>
    let source ← match readableText bytes with
      | .error fault => throw (Crash.notUtf8 fault)
      | .ok text => pure text.toList
    match Json.parse source with
    | .error (.numeral fault) => throw (.numeral fault)
    | .error (.malformed mistake rest) => refuse (.malformed (mistake.messageAt source rest))
    | .ok (.object members) =>
      let result ← ofMembersWarning path members
      if result.isOk then logDebug debug ("loaded configuration from " ++ path)
      pure result
    | .ok _ => refuse .notObject

def load (debug : Bool) (path : Option String) (start : String) :
    ExceptT Crash m (Except ConfigFault Config) := do
  let path ← match path with
    | some path => pure (some path)
    | none => find? start
  match path with
  | some path => loadFile debug path
  | none => pure (.ok default)

end Config

end PureJs
