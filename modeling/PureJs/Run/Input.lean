import PureJs.Prelude
import PureJs.Run.Fault

/-! The source texts of a run. -/

namespace PureJs

variable {m : Type → Type} [Monad m] [Host m]

def readSource (path : String) : ExceptT Crash m (Except InputFault String) := do
  match ← Host.readFile path with
  | .error fault => pure (.error ⟨some path, ← fault.reason⟩)
  | .ok bytes =>
    match readableText bytes with
    | .error fault => pure (.error ⟨some path, fault.message⟩)
    | .ok text => pure (.ok text)

/-- The texts of source files in order; the first file that cannot be read is the last one that is
opened. -/
def readSources (debug : Bool) : List String →
    ExceptT Crash m (Except InputFault (List SourceUnit))
  | [] => pure (.ok [])
  | path :: rest => do
    match ← readSource path with
    | .error fault => pure (.error fault)
    | .ok text =>
      logDebug debug ("read " ++ path)
      match ← readSources debug rest with
      | .error fault => pure (.error fault)
      | .ok units => pure (.ok (⟨some path, text⟩ :: units))

/-- The source texts: standard input alone, or the files, with the Prelude in front of them unless
it is kept out. -/
def resolveInputs (debug useInput noPrelude : Bool) (paths : List String) :
    ExceptT Crash m (Except InputFault (List SourceUnit)) := do
  if useInput then
    match readableText (← Host.input) with
    | .error fault => pure (.error ⟨none, fault.message⟩)
    | .ok text =>
      logDebug debug s!"read {text.length} characters from standard input"
      pure (.ok [⟨none, text⟩])
  else
    match ← readSources debug paths with
    | .error fault => pure (.error fault)
    | .ok units => pure (.ok (if noPrelude then units else Prelude.unit :: units))

end PureJs
