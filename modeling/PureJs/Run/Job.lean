import PureJs.CommandLine.Reading
import PureJs.Run.Config

/-! What a run is to do. -/

namespace PureJs

structure Job where
  files : List String
  options : Options
  useInput : Bool
  output : Option String
  externs : Option String
  withHeader : Bool
  deriving DecidableEq, Repr

namespace Job

def preferGiven (given configured : Option String) : Option String :=
  match given with
  | none | some "" => configured
  | some text => some text

/-- The names that were given, if there are any, or else those that were configured. A blank is no
name. -/
def preferNames (given : List CommandLine.Value) (configured : List String) :
    Except JobFault (List String) :=
  if given.isEmpty then .ok configured
  else match given.mapM CommandLine.Value.text? with
    | some names => .ok names
    | none => .error .blankModule

/-- The job that the command line asks for; what it leaves open is as configured. -/
def ofArguments (args : CommandLine.Arguments) (config : Config) :
    Except JobFault Job := do
  let entryModule ← match args.entryModule with
    | some name => (Options.resolveEntry true (some name)).mapError JobFault.entry
    | none => pure config.entryModule
  let rootModules ← preferNames args.rootModules config.rootModules
  let outputModules ← preferNames args.outputModules config.outputModules
  let options : Options := {
    noPrelude := args.noPrelude || config.noPrelude
    noLoops := args.noLoops || config.noLoops
    noDirectBlocks := args.noDirectBlocks || config.noDirectBlocks
    entryModule := entryModule
    noOptimizations := args.noOptimizations || config.noOptimizations
    verboseErrors := args.verboseErrors || config.verboseErrors
    browserNamespace :=
      (preferGiven args.browserNamespace (some config.browserNamespace)).getD ""
    rootModules := rootModules
    outputModules := outputModules }
  pure {
    files := args.files
    options := options.distinctModules
    useInput := args.stdin
    output := preferGiven args.output config.output
    externs := preferGiven args.externs config.externs
    withHeader := !(args.noHeader || config.noHeader) }

def warning? (job : Job) : Option String :=
  if job.useInput && !job.files.isEmpty then
    some s!"reading from standard input; ignoring {job.files.length} input file(s)"
  else none

end Job

end PureJs
