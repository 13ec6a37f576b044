import PureJs.Js.Basic
import PureJs.Json.Printer
import PureJs.Text.Blank
import PureJs.Text.Lines

/-! The text of JavaScript programs. Everything inside braces stands four columns further in. -/

namespace PureJs.Js

def pad (level : Nat) : String := String.ofList (List.replicate (4 * level) ' ')

/-- The lines of a given text at a level, without blanks at their ends. -/
def verbatimLines (level : Nat) (text : String) : List String :=
  (Text.lines text.toList).map fun line =>
    String.ofList (Text.trimEnd ((pad level).toList ++ line))

mutual

/-- The text of an expression in a statement at the given level. -/
def Expr.text (level : Nat) : Expr → String
  | .integer value => toString value
  | .number text => text
  | .string value => Json.quote value
  | .bool value => if value then "true" else "false"
  | .array items => "[" ++ ", ".intercalate (listTexts level items) ++ "]"
  | .name text => text
  | .property object name => object.text level ++ "." ++ name
  | .entry object key => object.text level ++ "[" ++ Json.quote key ++ "]"
  | .call callee args =>
    callee.text level ++ "(" ++ ", ".intercalate (listTexts level args) ++ ")"
  | .paren inner => "(" ++ inner.text level ++ ")"
  | .cond condition yes no =>
    condition.text level ++ " ? " ++ yes.text level ++ " : " ++ no.text level
  | .binary op left right => left.text level ++ " " ++ op.text ++ " " ++ right.text level
  | .negate operand => "-" ++ operand.text level
  | .function params body =>
    "function (" ++ ", ".intercalate params ++ ") \x7b\n" ++
      String.join ((bodyLines (level + 1) body).map (· ++ "\n")) ++ pad level ++ "\x7d"
  | .object properties =>
    if properties.isEmpty then "\x7b\x7d"
    else "\x7b\n" ++ ",\n".intercalate (propertyTexts (level + 1) properties) ++ "\n" ++
      pad level ++ "\x7d"
  | .hole => ""

def listTexts (level : Nat) : List Expr → List String
  | [] => []
  | e :: rest => e.text level :: listTexts level rest

def propertyTexts (level : Nat) : List (String × Expr) → List String
  | [] => []
  | (key, e) :: rest =>
    (pad level ++ Json.quote key ++ ": " ++ e.text level) :: propertyTexts level rest

def Statement.lines (level : Nat) : Statement → List String
  | .var name value => [pad level ++ "var " ++ name ++ " = " ++ value.text level ++ ";"]
  | .assign target value => [pad level ++ target.text level ++ " = " ++ value.text level ++ ";"]
  | .give value => [pad level ++ "return " ++ value.text level ++ ";"]
  | .run value => [pad level ++ value.text level ++ ";"]
  | .branch condition yes no =>
    [pad level ++ "if (" ++ condition.text level ++ ") \x7b"] ++ bodyLines (level + 1) yes ++
      [pad level ++ "\x7d else \x7b"] ++ bodyLines (level + 1) no ++ [pad level ++ "\x7d"]
  | .loop label body =>
    [pad level ++ label ++ ": while (true) \x7b"] ++ bodyLines (level + 1) body ++
      [pad level ++ "\x7d"]
  | .again label => [pad level ++ "continue " ++ label ++ ";"]
  | .verbatim text => verbatimLines level text

def bodyLines (level : Nat) : List Statement → List String
  | [] => []
  | s :: rest => s.lines level ++ bodyLines level rest

end

/-- The text of a program: a function of the container for the modules, which is applied to the
exports of a module system, or else to an object of the browser's window. -/
def Program.text (program : Program) : String :=
  let window := "window[" ++ Json.quote program.browserNamespace ++ "]"
  "\n".intercalate (
    program.header.map ("// " ++ ·) ++
    ["(function (" ++ container ++ ") \x7b", pad 1 ++ "\"use strict\";"] ++
    bodyLines 1 program.body ++
    ["\x7d)((typeof module !== \"undefined\" && module.exports) ? module.exports : " ++
      "(typeof window !== \"undefined\") ? " ++ window ++ " = " ++ window ++
      " || \x7b\x7d : (function () \x7b",
    pad 1 ++
      "throw \"psc doesn't know how to export modules in the current environment\";",
    "\x7d)());"])

end PureJs.Js
