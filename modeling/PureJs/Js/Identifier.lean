import PureJs.Js.Basic

/-! Names of the source as names of JavaScript. -/

namespace PureJs.Js

/-- Words that JavaScript keeps for itself, in any of its editions, and names that strict code must
not bind. -/
def reserved : List String := [
  "abstract", "arguments", "boolean", "break", "byte", "case", "catch", "char", "class", "const",
  "continue", "debugger", "default", "delete", "do", "double", "else", "enum", "eval", "export",
  "extends", "false", "final", "finally", "float", "for", "function", "goto", "if", "implements",
  "import", "in", "instanceof", "int", "interface", "let", "long", "native", "new", "null",
  "package", "private", "protected", "public", "return", "short", "static", "super", "switch",
  "synchronized", "this", "throw", "throws", "transient", "true", "try", "typeof", "undefined",
  "var", "void", "volatile", "while", "with", "yield"]

def spellPrimes (name : String) : String :=
  String.ofList (name.toList.flatMap fun c => if c = '\'' then "$prime".toList else [c])

/-- The JavaScript name of a value: primes are spelled out, reserved words are marked. -/
def identifier (name : String) : String :=
  let spelled := spellPrimes name
  if spelled ∈ reserved then "$$" ++ spelled else spelled

def startsPlain (c : Char) : Bool := c.isAlpha || c = '_' || c = '$'

def isPlainName (text : String) : Bool :=
  let name := text.toList
  let name := if name.getLast? = some '\n' then name.dropLast else name
  name.head?.any startsPlain && name.all fun c => startsPlain c || c.isDigit

def isProperty (name : String) : Bool := isPlainName name && name ∉ reserved

def select (object : Expr) (name : String) : Expr :=
  if isProperty name then .property object name else .entry object name

def moduleObject (module : String) : Expr := .entry (.name container) module

end PureJs.Js
