import PureJs.Text.Lines
import PureJs.Text.Utf8

/-! What a run needs of the machine that it runs on. -/

namespace PureJs

inductive FileFault
  | missing
  | isDirectory
  | notDirectory
  | alreadyThere
  | nameTooLong
  | nullByte
  | other (reason : String)
  deriving DecidableEq, Repr

def FileFault.message : FileFault → String
  | missing => "No such file or directory"
  | isDirectory => "Is a directory"
  | notDirectory => "Not a directory"
  | alreadyThere => "File exists"
  | nameTooLong => "File name too long"
  | nullByte => "embedded null byte"
  | other reason => reason

/-- A machine with files and standard streams. Relative paths start from its current directory. -/
class Host (m : Type → Type) where
  readFile : String → m (Except FileFault (List UInt8))
  writeFile : String → String → m (Except FileFault Unit)
  makeDirectory : String → m (Except FileFault Unit)
  isFile : String → m Bool
  isDirectory : String → m Bool
  currentDirectory : m String
  input : m (List UInt8)
  out : String → m Unit
  err : String → m Unit

def readableText (bytes : List UInt8) : Except Text.Utf8Fault String :=
  (Text.decodeUtf8 bytes).map fun chars => String.ofList (Text.unifyLineEnds chars)

end PureJs
