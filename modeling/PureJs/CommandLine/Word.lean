import PureJs.CommandLine.Arguments
import PureJs.Text.Digit

/-! The words of a command line, told apart before any of them takes effect. -/

namespace PureJs.CommandLine

inductive Word
  | plain (text : String)
  | flag (text : String) (flag : Flag) (short : Bool) (attached : Option String)
  | unknown (text : String)
  | separator
  deriving DecidableEq, Repr

namespace Word

def text : Word → String
  | plain text | flag text _ _ _ | unknown text => text
  | separator => "--"

def isFlag : Word → Bool
  | flag .. | unknown _ => true
  | plain _ | separator => false

def isNegativeNumber (chars : List Char) : Bool :=
  let isDecimal (c : Char) := (Text.decimalValue? c).isSome
  match chars with
  | '-' :: number =>
    let number := if number.getLast? = some '\n' then number.dropLast else number
    match number.dropWhile isDecimal with
    | [] => !number.isEmpty
    | '.' :: fraction => !fraction.isEmpty && fraction.all isDecimal
    | _ => false
  | _ => false

def cutAtEquals (chars : List Char) : String × Option String :=
  match chars.dropWhile (· ≠ '=') with
  | _ :: value =>
    (String.ofList (chars.takeWhile (· ≠ '=')), some (String.ofList value))
  | [] => (String.ofList chars, none)

/-- The flags that a word can be short for: with two dashes, all that begin like the part of the
word before an equals sign; with one, the flag of one letter that the rest of the word is attached
to. -/
def candidates (chars : List Char) : List (String × Flag × Option String) :=
  if chars.take 2 = ['-', '-'] then
    let (name, attached) := cutAtEquals chars
    (Flag.spellings.filter fun entry => name.toList.isPrefixOf entry.1.toList).map
      fun entry => (entry.1, entry.2, attached)
  else
    (Flag.spellings.filter fun entry => entry.1.toList = chars.take 2).map
      fun entry => (entry.1, entry.2, some (String.ofList (chars.drop 2)))

def ofFlag (text name : String) (flag : Flag) (attached : Option String) : Word :=
  .flag text flag (name.toList.take 2 ≠ ['-', '-']) attached

def classify (text : String) : Except UsageError Word :=
  let chars := text.toList
  if chars.head? ≠ some '-' then .ok (.plain text)
  else match Flag.ofName? text with
    | some found => .ok (ofFlag text text found none)
    | none =>
      if chars.length = 1 then .ok (.plain text)
      else match cutAtEquals chars with
        | (name, some attached) =>
          match Flag.ofName? name with
          | some found => .ok (ofFlag text name found (some attached))
          | none => abbreviated text chars
        | (_, none) => abbreviated text chars
where
  abbreviated (text : String) (chars : List Char) : Except UsageError Word :=
    match candidates chars with
    | [(name, found, attached)] => .ok (ofFlag text name found attached)
    | [] =>
      if isNegativeNumber chars ∨ ' ' ∈ chars then .ok (.plain text) else .ok (.unknown text)
    | several => .error (.ambiguous text (several.map (·.1)))

def classifyAll : List String → Except UsageError (List Word)
  | [] => .ok []
  | "--" :: rest => .ok (.separator :: rest.map .plain)
  | text :: rest => do
    let word ← classify text
    let others ← classifyAll rest
    pure (word :: others)

end Word

end PureJs.CommandLine
