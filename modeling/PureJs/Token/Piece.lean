import PureJs.Problem
import PureJs.Text.Digit
import PureJs.Text.Letter
import PureJs.Text.Numeric
import PureJs.Text.Uppercase
import PureJs.Token.Basic

/-! Cutting a source text into pieces: lexemes, and the gaps of blanks and comments between them. -/

namespace PureJs

inductive Piece
  | gap (text : List Char)
  | lexeme (kind : TokenKind) (text : List Char)
  deriving DecidableEq, Repr

namespace Piece

def text : Piece → List Char
  | gap text | lexeme _ text => text

def isSpace (c : Char) : Bool := c = ' ' || c = '\t' || c = '\r' || c = '\n'

def blockComment? : List Char → Option (List Char)
  | [] => none
  | '-' :: '\x7d' :: _ => some ['-', '\x7d']
  | c :: rest => (blockComment? rest).map (c :: ·)

/-- A string literal up to its closing quote, from after its opening quote on. A backslash takes
the next character with it, whatever that is; a line feed ends the search. -/
def stringLiteral? : List Char → Option (List Char)
  | [] => none
  | '"' :: _ => some ['"']
  | '\n' :: _ => none
  | '\\' :: [] => none
  | '\\' :: c :: rest => (stringLiteral? rest).map fun body => '\\' :: c :: body
  | c :: rest => (stringLiteral? rest).map (c :: ·)

/-- The digits in front of a text, and the point and digits that follow them, if there are any. -/
def numeral (text : List Char) : TokenKind × List Char :=
  let whole := text.takeWhile Text.isDigit
  match text.dropWhile Text.isDigit with
  | '.' :: rest =>
    let fraction := rest.takeWhile Text.isDigit
    if fraction.isEmpty then (.integer, whole) else (.number, whole ++ '.' :: fraction)
  | _ => (.integer, whole)

def startsName (c : Char) : Bool := Text.isLetter c || c = '_'

def continuesName (c : Char) : Bool :=
  Text.isLetter c || Text.isNumeric c || c = '_' || c = '\''

/-- What follows a capitalised part of a dotted name: further capitalised parts, and perhaps a part
that is not capitalised, which is the last one and makes the name a qualified one. -/
def dottedName (text : List Char) : TokenKind × List Char :=
  match text with
  | '.' :: c :: rest =>
    if startsName c then
      let segment := c :: rest.takeWhile continuesName
      if Text.isCapital c then
        let (kind, more) := dottedName (rest.dropWhile continuesName)
        (kind, '.' :: segment ++ more)
      else (.qualified, '.' :: segment)
    else (.proper, [])
  | _ => (.proper, [])
termination_by text.length
decreasing_by
  exact Nat.lt_succ_of_le (Nat.le_succ_of_le (List.dropWhile_sublist continuesName).length_le)

def name (text : List Char) : TokenKind × List Char :=
  let segment := text.takeWhile continuesName
  if text.head?.any Text.isCapital then
    let (kind, more) := dottedName (text.dropWhile continuesName)
    (kind, segment ++ more)
  else match Keyword.ofText? (String.ofList segment) with
    | some word => (.keyword word, segment)
    | none => (.identifier, segment)

def mark? (text : List Char) : Option Mark := Mark.all.find? (·.chars.isPrefixOf text)

def first (c : Char) (rest : List Char) : Except Problem Piece :=
  if isSpace c then .ok (.gap (c :: rest.takeWhile isSpace))
  else if c = '-' ∧ rest.head? = some '-' then .ok (.gap (c :: rest.takeWhile (· ≠ '\n')))
  else if c = '\x7b' ∧ rest.head? = some '-' then
    match blockComment? rest.tail with
    | some body => .ok (.gap (c :: '-' :: body))
    | none => .error .unterminatedComment
  else if c = '"' then
    match stringLiteral? rest with
    | some body => .ok (.lexeme .string (c :: body))
    | none => .error .unterminatedString
  else if Text.isDigit c then
    let (kind, text) := numeral (c :: rest)
    .ok (.lexeme kind text)
  else if startsName c then
    let (kind, text) := name (c :: rest)
    .ok (.lexeme kind text)
  else match mark? (c :: rest) with
    | some mark => .ok (.lexeme (.mark mark) mark.chars)
    | none => .error (.unexpectedCharacter c)

/-- The pieces of a text in order, and what keeps the text from being cut further, if anything
does. -/
def ofText (text : List Char) : List Piece × Option Problem :=
  match text with
  | [] => ([], none)
  | c :: rest =>
    match first c rest with
    | .error problem => ([], some problem)
    | .ok piece =>
      let (others, problem) := ofText (rest.drop (piece.text.length - 1))
      (piece :: others, problem)
termination_by text.length
decreasing_by
  exact Nat.lt_succ_of_le (List.drop_sublist _ rest).length_le

/-- The characters that the inside of a string literal stands for, up to its closing quote. -/
def unescape : List Char → List Char
  | [] => []
  | '"' :: _ => []
  | '\\' :: 'n' :: rest => '\n' :: unescape rest
  | '\\' :: 't' :: rest => '\t' :: unescape rest
  | '\\' :: 'r' :: rest => '\r' :: unescape rest
  | '\\' :: c :: rest => c :: unescape rest
  | c :: rest => c :: unescape rest

/-- The value of a lexeme: what a string literal stands for, and else the lexeme as it is. -/
def value (kind : TokenKind) (text : List Char) : String :=
  match kind with
  | .string => String.ofList (unescape (text.drop 1))
  | _ => String.ofList text

end Piece

end PureJs
