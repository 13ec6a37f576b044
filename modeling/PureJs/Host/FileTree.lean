import PureJs.Host.Basic
import PureJs.Host.Path

/-! A tree of files and directories, and how paths lead through it. -/

namespace PureJs

inductive Entry
  | file (content : List UInt8)
  | directory
  deriving DecidableEq, Repr

inductive Trouble
  | refused (reason : String)
  /-- a file is opened, and only so many bytes get into it -/
  | brokenOff (count : Nat) (reason : String)
  deriving DecidableEq, Repr

def Trouble.fault : Trouble → FileFault
  | refused reason | brokenOff _ reason => .other reason

/-- What there is below the root, by the names on the way to it, and what goes wrong with the
changes to come, one after the other. -/
structure FileTree where
  entries : List (List String × Entry)
  troubles : List (Option Trouble) := []
  deriving DecidableEq, Repr

namespace FileTree

def empty : FileTree where
  entries := []

def get? (tree : FileTree) (way : List String) : Option Entry :=
  if way.isEmpty then some .directory else tree.entries.lookup way

def insert (way : List String) (entry : Entry) (tree : FileTree) : FileTree :=
  { tree with entries := (way, entry) :: tree.entries.filter (·.1 ≠ way) }

def trouble? (tree : FileTree) : Option Trouble := tree.troubles.head?.join

def pastTrouble (tree : FileTree) : FileTree := { tree with troubles := tree.troubles.tail }

def nameLimit : Nat := 255

def pathLimit : Nat := 4095

def step (tree : FileTree) (way : List String) (name : String) : Except FileFault (List String) :=
  if tree.get? way ≠ some .directory then .error .notDirectory
  else if name = "" ∨ name = "." then .ok way
  else if name = ".." then .ok way.dropLast
  else if nameLimit < name.utf8ByteSize then .error .nameTooLong
  else if (tree.get? (way ++ [name])).isNone then .error .missing
  else .ok (way ++ [name])

def checkPath (path : String) : Except FileFault Unit :=
  if '\x00' ∈ path.toList then .error .nullByte
  else if path = "" then .error .missing
  else if pathLimit < path.utf8ByteSize then .error .nameTooLong
  else .ok ()

def origin (current : List String) (path : String) : List String :=
  if Path.isAbsolute path then [] else current

def find (tree : FileTree) (current : List String) (path : String) :
    Except FileFault (List String) := do
  checkPath path
  (Path.parts path).foldlM tree.step (origin current path)

def entryAt? (tree : FileTree) (current : List String) (path : String) : Option Entry :=
  match tree.find current path with
  | .ok way => tree.get? way
  | .error _ => none

/-- The directory that a new entry is to be made in, and its name. -/
def findParent (tree : FileTree) (current : List String) (path : String) :
    Except FileFault (List String × String) := do
  checkPath path
  let parts := Path.parts path
  let way ← parts.dropLast.foldlM tree.step (origin current path)
  if tree.get? way ≠ some .directory then throw .notDirectory
  pure (way, parts.getLastD "")

def readFile (tree : FileTree) (current : List String) (path : String) :
    Except FileFault (List UInt8) := do
  let way ← tree.find current path
  match tree.get? way with
  | some (.file content) => pure content
  | some .directory => throw .isDirectory
  | none => throw .missing

def openFile (tree : FileTree) (current : List String) (path : String) :
    Except FileFault (List String) := do
  let (way, name) ← tree.findParent current path
  if name = "" ∨ name = "." ∨ name = ".." then throw .isDirectory
  if nameLimit < name.utf8ByteSize then throw .nameTooLong
  if tree.get? (way ++ [name]) = some .directory then throw .isDirectory
  pure (way ++ [name])

/-- A file is made or emptied when it is opened, and then it is filled. -/
def writeFile (tree : FileTree) (current : List String) (path : String) (content : List UInt8) :
    Except FileFault Unit × FileTree :=
  match tree.openFile current path with
  | .error fault => (.error fault, tree)
  | .ok way =>
    match tree.trouble? with
    | none => (.ok (), tree.pastTrouble.insert way (.file content))
    | some (.refused reason) => (.error (.other reason), tree.pastTrouble)
    | some (.brokenOff count reason) =>
      (.error (.other reason), tree.pastTrouble.insert way (.file (content.take count)))

def withoutSlashes (path : String) : String :=
  let stripped := path.toList.reverse.dropWhile (· = '/')
  if stripped.isEmpty then path else String.ofList stripped.reverse

def openDirectory (tree : FileTree) (current : List String) (path : String) :
    Except FileFault (List String) := do
  checkPath path
  let (way, name) ← tree.findParent current (withoutSlashes path)
  if name = "" ∨ name = "." ∨ name = ".." then throw .alreadyThere
  if nameLimit < name.utf8ByteSize then throw .nameTooLong
  if (tree.get? (way ++ [name])).isSome then throw .alreadyThere
  pure (way ++ [name])

def makeDirectory (tree : FileTree) (current : List String) (path : String) :
    Except FileFault Unit × FileTree :=
  match tree.openDirectory current path with
  | .error fault => (.error fault, tree)
  | .ok way =>
    match tree.trouble? with
    | none => (.ok (), tree.pastTrouble.insert way .directory)
    | some trouble => (.error trouble.fault, tree.pastTrouble)

end FileTree

end PureJs
