/-! The flags of the command line. -/

namespace PureJs.CommandLine

inductive Flag
  | help
  | version
  | stdin
  | output
  | externs
  | noHeader
  | noPrelude
  | noLoops
  | noDirectBlocks
  | entryModule
  | noOptimizations
  | verboseErrors
  | browserNamespace
  | rootModule
  | outputModule
  | config
  | debug
  deriving DecidableEq, Repr

inductive Arity
  | none
  | one
  | atMostOne
  deriving DecidableEq, Repr

namespace Flag

def all : List Flag :=
  [help, version, stdin, output, externs, noHeader, noPrelude, noLoops, noDirectBlocks, entryModule,
    noOptimizations, verboseErrors, browserNamespace, rootModule, outputModule, config, debug]

def names : Flag → List String
  | help => ["-h", "--help"]
  | version => ["--version"]
  | stdin => ["-s", "--stdin"]
  | output => ["-o", "--output"]
  | externs => ["-e", "--externs"]
  | noHeader => ["-p", "--no-prefix"]
  | noPrelude => ["--no-prelude"]
  | noLoops => ["--no-tco"]
  | noDirectBlocks => ["--no-magic-do"]
  | entryModule => ["--main"]
  | noOptimizations => ["--no-opts"]
  | verboseErrors => ["-v", "--verbose-errors"]
  | browserNamespace => ["--browser-namespace"]
  | rootModule => ["-m", "--module"]
  | outputModule => ["--codegen"]
  | config => ["--config"]
  | debug => ["--debug"]

def arity : Flag → Arity
  | output | externs | browserNamespace | rootModule | outputModule | config => .one
  | entryModule => .atMostOne
  | _ => .none

def spellings : List (String × Flag) :=
  all.flatMap fun flag => flag.names.map (·, flag)

def ofName? (name : String) : Option Flag := spellings.lookup name

def label (flag : Flag) : String := "/".intercalate flag.names

end Flag

end PureJs.CommandLine
