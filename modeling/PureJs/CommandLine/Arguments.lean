import PureJs.CommandLine.Flag
import PureJs.Program.Options
import PureJs.Text.Quoted

/-! The flags and files of a command line, and what can be wrong with them. -/

namespace PureJs.CommandLine

inductive Value
  | text (text : String)
  /-- two dashes attached to the flag: they separate it from nothing, and leave no value -/
  | blank
  deriving DecidableEq, Repr

def Value.ofAttached (chars : List Char) : Value :=
  if chars = ['-', '-'] then .blank else .text (String.ofList chars)

def Value.text? : Value → Option String
  | .text value => some value
  | .blank => none

/-- What a command line asks for. A blank takes back a text that was given before it, and leaves the
entry module the usual one; where a module or the configuration file has to be named, it is kept. -/
structure Arguments where
  files : List String
  stdin : Bool
  output : Option String
  externs : Option String
  noHeader : Bool
  noPrelude : Bool
  noLoops : Bool
  noDirectBlocks : Bool
  entryModule : Option String
  noOptimizations : Bool
  verboseErrors : Bool
  browserNamespace : Option String
  rootModules : List Value
  outputModules : List Value
  config : Option Value
  debug : Bool
  deriving DecidableEq, Repr

def Arguments.empty : Arguments where
  files := []
  stdin := false
  output := none
  externs := none
  noHeader := false
  noPrelude := false
  noLoops := false
  noDirectBlocks := false
  entryModule := none
  noOptimizations := false
  verboseErrors := false
  browserNamespace := none
  rootModules := []
  outputModules := []
  config := none
  debug := false

inductive UsageError
  | ambiguous (word : String) (candidates : List String)
  | missingValue (flag : Flag)
  | surplusValue (flag : Flag) (value : String)
  | unrecognized (words : List String)
  | emptyEntryModule
  deriving DecidableEq, Repr

def UsageError.message : UsageError → String
  | ambiguous word candidates =>
    s!"ambiguous option: {word} could match " ++ ", ".intercalate candidates
  | missingValue flag => s!"argument {flag.label}: expected one argument"
  | surplusValue flag value =>
    s!"argument {flag.label}: ignored explicit argument {Text.quoted value}"
  | unrecognized words => "unrecognized arguments: " ++ " ".intercalate words
  | emptyEntryModule => s!"argument {Flag.entryModule.label}: expected a module name"

inductive Exit
  | help
  | version
  | usage (error : UsageError)
  deriving DecidableEq, Repr

def Arguments.set (args : Arguments) (flag : Flag) (value : Option Value) :
    Except Exit Arguments :=
  let text := value.bind Value.text?
  match flag with
  | .help => .error .help
  | .version => .error .version
  | .stdin => .ok { args with stdin := true }
  | .output => .ok { args with output := text }
  | .externs => .ok { args with externs := text }
  | .noHeader => .ok { args with noHeader := true }
  | .noPrelude => .ok { args with noPrelude := true }
  | .noLoops => .ok { args with noLoops := true }
  | .noDirectBlocks => .ok { args with noDirectBlocks := true }
  | .entryModule => .ok { args with entryModule := some (text.getD Options.defaultEntryModule) }
  | .noOptimizations => .ok { args with noOptimizations := true }
  | .verboseErrors => .ok { args with verboseErrors := true }
  | .browserNamespace => .ok { args with browserNamespace := text }
  | .rootModule => .ok { args with rootModules := args.rootModules ++ value.toList }
  | .outputModule => .ok { args with outputModules := args.outputModules ++ value.toList }
  | .config => .ok { args with config := value }
  | .debug => .ok { args with debug := true }

end PureJs.CommandLine
