import PureJs.Host.Path
import PureJs.Run.Fault

/-! Where the results of a run go. -/

namespace PureJs

variable {m : Type → Type} [Monad m] [Host m]

def isThere (path : String) : m Bool := do
  if ← Host.isFile path then pure true else Host.isDirectory path

def ensureDirectory (path : String) : m (Except FileFault Unit) := do
  match ← Host.makeDirectory path with
  | .ok () => pure (.ok ())
  | .error fault =>
    if ← Host.isDirectory path then pure (.ok ()) else pure (.error fault)

/-- Makes a directory and those above it that are missing. The number of levels is bounded by
`depth`. -/
def ensureDirectories : Nat → String → m (Except FileFault Unit)
  | 0, path => ensureDirectory path
  | depth + 1, path => do
    let (head, tail) := match Path.split path with
      | (head, "") => Path.split head
      | parts => parts
    if head = "" ∨ tail = "" then ensureDirectory path
    else if ← isThere head then ensureDirectory path
    else
      match ← ensureDirectories depth head with
      | .ok () | .error .alreadyThere => if tail = "." then pure (.ok ()) else ensureDirectory path
      | .error fault => pure (.error fault)

def makeParents (path : String) : ExceptT Crash m (Except OutputFault Unit) := do
  let parent := Path.parent path
  if parent = "" then pure (.ok ())
  else
    match ← ensureDirectories parent.length parent with
    | .ok () => pure (.ok ())
    | .error fault => pure (.error ⟨path, ← fault.reason⟩)

def writeResult (debug : Bool) (path text : String) :
    ExceptT Crash m (Except OutputFault Unit) := do
  match ← makeParents path with
  | .error fault => pure (.error fault)
  | .ok () =>
    match ← Host.writeFile path text with
    | .error fault => pure (.error ⟨path, ← fault.reason⟩)
    | .ok () =>
      logDebug debug ("wrote " ++ path)
      pure (.ok ())

/-- Writes the code to a file, or to standard output without one, and then the externs to a file, if
there are both. -/
def route (debug : Bool) (javascript : String) (externs output externsPath : Option String) :
    ExceptT Crash m (Except OutputFault Unit) := do
  let written ← match output with
    | some path => writeResult debug path javascript
    | none => do
      Host.out (javascript ++ "\n")
      pure (.ok ())
  match written, externs, externsPath with
  | .ok (), some text, some path => writeResult debug path text
  | _, _, _ => pure written

end PureJs
