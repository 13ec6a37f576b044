import PureJs.Run.Input
import PureJs.Run.Job
import PureJs.Run.Output

/-! A run from the command line to the exit code. -/

namespace PureJs

def programVersion : String := "0.5.0"

def exitSuccess : UInt32 := 0

def exitFailure : UInt32 := 1

def exitUsage : UInt32 := 2

variable [Simplifier] {m : Type → Type} [Monad m] [Host m]

def failIn (debug : Bool) (stage : Stage) (message : String) : m UInt32 := do
  logDebug debug (stage.label ++ " stage failed")
  Host.err (message ++ "\n")
  pure exitFailure

def Job.run (debug : Bool) (version : String) (job : Job) : ExceptT Crash m UInt32 := do
  match ← resolveInputs debug job.useInput job.options.noPrelude job.files with
  | .error fault => failIn debug .read fault.message
  | .ok units =>
    logDebug debug s!"inputs read: {units.length} unit(s)"
    let (notes, outcome) :=
      compileSources job.options (headerLines job.withHeader version) units
    notes.forM (logDebug debug)
    match outcome with
    | .error (.rejected stage rejection) => failIn debug stage rejection.message
    | .error (.numeral fault) => throw (.numeral fault)
    | .error .exhausted => throw .exhausted
    | .ok compiled =>
      match ← route debug compiled.javascript (some compiled.externs) job.output job.externs with
      | .error fault => failIn debug .write fault.message
      | .ok () =>
        logDebug debug "outputs written"
        pure exitSuccess

def CommandLine.Exit.finish : CommandLine.Exit → m UInt32
  | .help => do
    Host.out "usage: psc [FILE ...] [-o OUTPUT] [-e EXTERNS] [options]\n"
    pure exitSuccess
  | .version => do
    Host.out s!"psc {programVersion}\n"
    pure exitSuccess
  | .usage error => do
    Host.err s!"psc: error: {error.message}\n"
    pure exitUsage

def readArguments (words : List String) : Except CommandLine.Exit CommandLine.Arguments := do
  let args ← CommandLine.read words
  if args.entryModule = some "" then throw (.usage .emptyEntryModule)
  pure args

def configPath (args : CommandLine.Arguments) : Except Crash (Option String) :=
  match args.config with
  | none => .ok none
  | some (.text path) => .ok (some path)
  | some .blank => .error .blankPath

def runProgram (words : List String) : ExceptT Crash m UInt32 := do
  match readArguments words with
  | .error exit => exit.finish
  | .ok args =>
    match ← Config.load args.debug (← configPath args) "." with
    | .error fault =>
      Host.err (fault.message ++ "\n")
      pure exitFailure
    | .ok config =>
      let job ← (Job.ofArguments args config).mapError Crash.job
      job.warning?.forM logWarning
      job.run args.debug programVersion

end PureJs
