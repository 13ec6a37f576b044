/-! Places in a source text. -/

namespace PureJs

/-- A line and a column of a text, both counted from one. -/
structure Position where
  line : Nat
  column : Nat
  deriving DecidableEq, Repr, Inhabited

namespace Position

def start : Position := ⟨1, 1⟩

def next (place : Position) (c : Char) : Position :=
  if c = '\n' then ⟨place.line + 1, 1⟩ else ⟨place.line, place.column + 1⟩

def after (place : Position) (text : List Char) : Position := text.foldl next place

end Position

structure Location where
  file : String
  line : Int
  column : Int
  deriving DecidableEq, Repr

def Location.text (place : Location) : String := s!"{place.file}:{place.line}:{place.column}"

def Position.inFile (place : Position) (file : String) : Location :=
  ⟨file, place.line, place.column⟩

def unnamedFile : String := "<stdin>"

end PureJs
