import PureJs.Json.Printer
import PureJs.Source.Position

/-! Reports of what is wrong with a program, for people and for machines. -/

namespace PureJs

inductive DiagnosticKind
  | syntaxError
  | nameError
  | moduleError
  | declarationError
  | entryPointError
  deriving DecidableEq, Repr

def DiagnosticKind.all : List DiagnosticKind :=
  [.syntaxError, .nameError, .moduleError, .declarationError, .entryPointError]

def DiagnosticKind.label : DiagnosticKind → String
  | .syntaxError => "syntax_error"
  | .nameError => "name_error"
  | .moduleError => "module_error"
  | .declarationError => "declaration_error"
  | .entryPointError => "entry_point_error"

structure Diagnostic where
  kind : DiagnosticKind
  message : String
  location : Option Location
  context : List String
  deriving DecidableEq, Repr

namespace Diagnostic

/-- The report on a line of its own; a verbose one has a line for each part of the context. -/
def render (verbose : Bool) (d : Diagnostic) : String :=
  let place := match d.location with
    | some location => " at " ++ location.text
    | none => ""
  let frames := if verbose then d.context.map ("\n  in " ++ ·) else []
  s!"Error{place}: {d.message}" ++ String.join frames

def renderAll (verbose : Bool) (ds : List Diagnostic) : String :=
  "\n".intercalate (ds.map (render verbose))

def toJson (d : Diagnostic) : Json :=
  let location := match d.location with
    | some place => [("location", Json.object [("file", .string place.file),
        ("line", .ofInt place.line), ("column", .ofInt place.column)])]
    | none => []
  let context :=
    if d.context.isEmpty then [] else [("context", Json.array (d.context.map .string))]
  .object ([("kind", .string d.kind.label), ("message", .string d.message)] ++ location ++ context)

def listToJson (ds : List Diagnostic) : Json := .array (ds.map toJson)

end Diagnostic

end PureJs
