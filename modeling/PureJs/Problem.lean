import PureJs.Diagnostic

/-! What can be wrong with a program, as causes, and the diagnostics that report them. -/

namespace PureJs

inductive Found
  | endOfInput
  | token (text : String)
  deriving DecidableEq, Repr

def Found.text : Found → String
  | .endOfInput => "end of input"
  | .token text => s!"'{text}'"

inductive Problem
  | unterminatedComment
  | unterminatedString
  | unexpectedCharacter (c : Char)
  | unexpected (found : Found)
  | expected (what : String) (found : Found)
  | indentedDeclaration (token : String)
  | emptyBlock
  | blockWithoutResult
  | unknownValue (name : String)
  | ambiguousValue (name : String) (modules : List String)
  | notImported (module : String)
  | repeatedModule (module : String)
  | unknownModule (module : String)
  | importCycle (path : List String)
  | repeatedValue (name : String)
  | repeatedParameter (name : String)
  | repeatedSignature (name : String)
  | signatureWithoutValue (name : String)
  | unknownModuleForFlag (module flag : String)
  | entryModuleWithoutMain (module : String)
  | entryModuleMissing (module : String)
  deriving DecidableEq, Repr

namespace Problem

def kind : Problem → DiagnosticKind
  | unterminatedComment | unterminatedString | unexpectedCharacter _ | unexpected _ | expected _ _
  | indentedDeclaration _ | emptyBlock | blockWithoutResult => .syntaxError
  | unknownValue _ | ambiguousValue _ _ => .nameError
  | notImported _ | repeatedModule _ | unknownModule _ | importCycle _
  | unknownModuleForFlag _ _ => .moduleError
  | repeatedValue _ | repeatedParameter _ | repeatedSignature _
  | signatureWithoutValue _ => .declarationError
  | entryModuleWithoutMain _ | entryModuleMissing _ => .entryPointError

def message : Problem → String
  | unterminatedComment => "Unterminated block comment"
  | unterminatedString => "Unterminated string literal"
  | unexpectedCharacter c => s!"Unexpected character '{c}'"
  | unexpected found => s!"Unexpected {found.text}"
  | expected what found => s!"Expected {what}, got {found.text}"
  | indentedDeclaration token => s!"Declarations must start in column 1, got '{token}'"
  | emptyBlock => "Empty 'do' block"
  | blockWithoutResult => "The last statement in a 'do' block must be an expression"
  | unknownValue name => s!"Unknown value '{name}'"
  | ambiguousValue name modules =>
    s!"Ambiguous value '{name}', exported by " ++ ", ".intercalate modules
  | notImported module => s!"Module '{module}' is not imported"
  | repeatedModule module => s!"Module '{module}' is defined more than once"
  | unknownModule module => s!"Unknown module '{module}'"
  | importCycle path => "Cycle in module dependencies: " ++ " -> ".intercalate path
  | repeatedValue name => s!"Value '{name}' is declared more than once"
  | repeatedParameter name => s!"Duplicate parameter name in '{name}'"
  | repeatedSignature name => s!"Duplicate type declaration for '{name}'"
  | signatureWithoutValue name =>
    s!"The type declaration for '{name}' should be followed by its definition"
  | unknownModuleForFlag module flag => s!"Unknown module '{module}' given to {flag}"
  | entryModuleWithoutMain module => s!"Main module '{module}' does not define 'main'"
  | entryModuleMissing module => s!"Main module '{module}' not found"

end Problem

inductive Frame
  | valueDeclaration (name : String)
  | module (name : String)
  deriving DecidableEq, Repr

def Frame.text : Frame → String
  | .valueDeclaration name => "value declaration " ++ name
  | .module name => "module " ++ name

structure Finding where
  problem : Problem
  place : Option (String × Position)
  context : List Frame
  deriving DecidableEq, Repr

namespace Finding

def inFile (file : String) (place : Position) (problem : Problem) : Finding :=
  ⟨problem, some (file, place), []⟩

def diagnostic (finding : Finding) : Diagnostic where
  kind := finding.problem.kind
  message := finding.problem.message
  location := finding.place.map fun place => place.2.inFile place.1
  context := finding.context.map Frame.text

end Finding

/-- Why a program is refused: all that was found, and whether it is to be shown with its context. -/
structure Rejection where
  findings : List Finding
  verbose : Bool
  deriving DecidableEq, Repr

namespace Rejection

def diagnostics (rejection : Rejection) : List Diagnostic :=
  rejection.findings.map Finding.diagnostic

def message (rejection : Rejection) : String :=
  Diagnostic.renderAll rejection.verbose rejection.diagnostics

end Rejection

end PureJs
