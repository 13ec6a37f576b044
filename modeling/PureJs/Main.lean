import PureJs.Run.Basic

/-! The command line program. -/

open PureJs

namespace PureJs

def FileFault.ofError : IO.Error → FileFault
  | .noFileOrDirectory .. | .noSuchThing .. => .missing
  | .alreadyExists .. => .alreadyThere
  | .inappropriateType _ _ details =>
    if details = FileFault.isDirectory.message then .isDirectory else .notDirectory
  | error => .other (toString error)

def attempt {α : Type} (action : IO α) : IO (Except FileFault α) := do
  match ← action.toBaseIO with
  | .ok value => pure (.ok value)
  | .error error => pure (.error (.ofError error))

/-- What the path leads to is there, and it is a directory if that is asked for, and else none. -/
def leadsTo (directory : Bool) (path : String) : IO Bool := do
  match ← (IO.FS.realPath path).toBaseIO with
  | .error _ => pure false
  | .ok found =>
    if ← found.pathExists then
      let isDirectory ← found.isDir
      pure (isDirectory == directory)
    else pure false

partial def readAll (stream : IO.FS.Stream) (bytes : ByteArray) : IO ByteArray := do
  let more ← stream.read 65536
  if more.isEmpty then pure bytes else readAll stream (bytes ++ more)

instance : Host IO where
  readFile path := attempt do
    if '\x00' ∈ path.toList then throw (IO.userError FileFault.nullByte.message)
    let bytes ← IO.FS.readBinFile path
    pure bytes.toList
  writeFile path text := attempt (IO.FS.writeFile path text)
  makeDirectory path := attempt (IO.FS.createDir path)
  isFile := leadsTo false
  isDirectory := leadsTo true
  currentDirectory := do
    let directory ← IO.currentDir
    pure directory.toString
  input := do
    let bytes ← readAll (← IO.getStdin) .empty
    pure bytes.toList
  out text := do
    let stream ← IO.getStdout
    stream.putStr text
  err text := do
    let stream ← IO.getStderr
    stream.putStr text

end PureJs

def main (words : List String) : IO UInt32 := do
  match ← (runProgram words).run with
  | .ok code => pure code
  | .error crash =>
    let stream ← IO.getStderr
    stream.putStrLn crash.message
    pure exitFailure
