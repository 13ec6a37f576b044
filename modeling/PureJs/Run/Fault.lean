import PureJs.Compile
import PureJs.Host.Basic

/-! The ways in which a run fails, and what it writes to its log. -/

namespace PureJs

structure InputFault where
  path : Option String
  reason : String
  deriving DecidableEq, Repr

def InputFault.message (fault : InputFault) : String :=
  let name := match fault.path with
    | some "" | none => unnamedFile
    | some path => path
  s!"Unable to read {name}: {fault.reason}"

structure OutputFault where
  path : String
  reason : String
  deriving DecidableEq, Repr

def OutputFault.message (fault : OutputFault) : String :=
  s!"Unable to write {fault.path}: {fault.reason}"

inductive JobFault
  | entry (fault : Options.EntryFault)
  | blankModule
  deriving DecidableEq, Repr

def JobFault.message : JobFault → String
  | entry fault => fault.message
  | blankModule => "unhashable type: 'list'"

inductive Crash
  | nullByte
  | blankPath
  | notUtf8 (fault : Text.Utf8Fault)
  | numeral (fault : Text.NumeralFault)
  | job (fault : JobFault)
  | exhausted

def Crash.message : Crash → String
  | nullByte => FileFault.nullByte.message
  | blankPath => "expected str, bytes or os.PathLike object, not list"
  | notUtf8 fault => fault.message
  | numeral fault => fault.message
  | job fault => fault.message
  | exhausted => "the program is nested too deeply"

/-- The reason that is given for a fault; a null byte ends the run instead. -/
def FileFault.reason : FileFault → Except Crash String
  | nullByte => .error .nullByte
  | fault => .ok fault.message

variable {m : Type → Type} [Monad m] [Host m]

instance {ε : Type} : Host (ExceptT ε m) where
  readFile path := ExceptT.lift (Host.readFile path)
  writeFile path text := ExceptT.lift (Host.writeFile path text)
  makeDirectory path := ExceptT.lift (Host.makeDirectory path)
  isFile path := ExceptT.lift (Host.isFile path)
  isDirectory path := ExceptT.lift (Host.isDirectory path)
  currentDirectory := ExceptT.lift Host.currentDirectory
  input := ExceptT.lift Host.input
  out text := ExceptT.lift (Host.out text)
  err text := ExceptT.lift (Host.err text)

/-- A line of the log that is written only when it is asked for. -/
def logDebug (debug : Bool) (line : String) : m Unit :=
  if debug then Host.err ("DEBUG: " ++ line ++ "\n") else pure ()

def logWarning (line : String) : m Unit := Host.err ("WARNING: " ++ line ++ "\n")

end PureJs
