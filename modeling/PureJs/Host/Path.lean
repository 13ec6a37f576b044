/-! Paths as texts: their parts, and the directories that they go through. -/

namespace PureJs.Path

def parts (path : String) : List String :=
  (path.toList.splitOn '/').map String.ofList

/-- What a path has up to its last slash, without the slashes at the end of that, and the name after
it. A path with nothing but slashes in front keeps them. -/
def split (path : String) : String × String :=
  let reversed := path.toList.reverse
  let name := reversed.takeWhile (· ≠ '/')
  let parent := reversed.dropWhile (· ≠ '/')
  let stripped := parent.dropWhile (· = '/')
  let kept := if stripped.isEmpty then parent else stripped
  (String.ofList kept.reverse, String.ofList name.reverse)

def parent (path : String) : String := (split path).1

def isAbsolute (path : String) : Bool := path.toList.head? = some '/'

def follow (way : List String) (name : String) : List String :=
  if name = "" ∨ name = "." then way
  else if name = ".." then way.tail
  else name :: way

/-- The way that names lead, when each name for the directory above takes back the one before it. -/
def simplify (names : List String) : List String := (names.foldl follow []).reverse

/-- The names on the way from the root to a path, as it is written, from a current directory. -/
def fromRoot (current path : String) : List String :=
  simplify (parts (if isAbsolute path then path else current ++ "/" ++ path))

def ofNames (names : List String) : String := "/" ++ "/".intercalate names

/-- The way given by names and the ways to the directories above it, the longest first. -/
def ancestors (names : List String) : List (List String) :=
  (List.range (names.length + 1)).reverse.map names.take

end PureJs.Path
