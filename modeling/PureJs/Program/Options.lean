/-! What can be chosen about a compilation. -/

namespace PureJs

structure Options where
  noPrelude : Bool
  noLoops : Bool
  noDirectBlocks : Bool
  entryModule : Option String
  noOptimizations : Bool
  verboseErrors : Bool
  browserNamespace : String
  rootModules : List String
  outputModules : List String
  deriving DecidableEq, Repr

namespace Options

def defaultNamespace : String := "PS"

def defaultEntryModule : String := "Main"

def default : Options where
  noPrelude := false
  noLoops := false
  noDirectBlocks := false
  entryModule := none
  noOptimizations := false
  verboseErrors := false
  browserNamespace := defaultNamespace
  rootModules := []
  outputModules := []

def distinctModules (options : Options) : Options :=
  { options with
    rootModules := options.rootModules.eraseDups
    outputModules := options.outputModules.eraseDups }

def loops (options : Options) : Bool := !(options.noOptimizations || options.noLoops)

def directBlocks (options : Options) : Bool := !(options.noOptimizations || options.noDirectBlocks)

inductive EntryFault
  | emptyName
  deriving DecidableEq, Repr

def EntryFault.message : EntryFault → String
  | .emptyName => "the entry module name must not be empty"

/-- The entry module of a flag: none without the flag, the usual one if the flag has no value, and
else the value, which must not be empty. -/
def resolveEntry (given : Bool) (value : Option String) : Except EntryFault (Option String) :=
  if !given then .ok none
  else match value with
    | none => .ok (some defaultEntryModule)
    | some "" => .error .emptyName
    | some name => .ok (some name)

end Options

end PureJs
