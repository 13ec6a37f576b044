import PureJs.Json.Basic
import PureJs.Text.Hex
import PureJs.Text.Numeral

/-! Reading JSON. A fault carries the rest of the text from where it is reported, which gives its
place. -/

namespace PureJs.Json

inductive Mistake
  | byteOrderMark
  | expectingValue
  | expectingKey
  | expectingColon
  | expectingComma
  | unterminatedString
  | controlCharacter
  | invalidEscape
  | invalidUnicodeEscape
  | extraData
  deriving DecidableEq, Repr

def Mistake.message : Mistake → String
  | .byteOrderMark => "Unexpected UTF-8 BOM (decode using utf-8-sig)"
  | .expectingValue => "Expecting value"
  | .expectingKey => "Expecting property name enclosed in double quotes"
  | .expectingColon => "Expecting ':' delimiter"
  | .expectingComma => "Expecting ',' delimiter"
  | .unterminatedString => "Unterminated string starting at"
  | .controlCharacter => "Invalid control character at"
  | .invalidEscape => "Invalid \\escape"
  | .invalidUnicodeEscape => "Invalid \\uXXXX escape"
  | .extraData => "Extra data"

/-- Why a text gives no value: it is not JSON from a place on, or it writes a whole number that is
too long to convert. -/
inductive Fault
  | malformed (mistake : Mistake) (rest : List Char)
  | numeral (fault : Text.NumeralFault)

/-- The message about a mistake that leaves `rest` of the text: line, column and character count
are those of the first character of `rest`. -/
def Mistake.messageAt (mistake : Mistake) (text rest : List Char) : String :=
  let before := text.take (text.length - rest.length)
  let line := before.count '\n' + 1
  let column := (before.reverse.takeWhile (· ≠ '\n')).length + 1
  s!"{mistake.message}: line {line} column {column} (char {before.length})"

def isSpace (c : Char) : Bool := c = ' ' || c = '\t' || c = '\n' || c = '\r'

def skipSpace (text : List Char) : List Char := text.dropWhile isSpace

def codeUnit? : List Char → Option (Nat × List Char)
  | a :: b :: c :: d :: next :: rest => do
    let a ← Text.hexValue? a
    let b ← Text.hexValue? b
    let c ← Text.hexValue? c
    let d ← Text.hexValue? d
    pure (((a * 16 + b) * 16 + c) * 16 + d, next :: rest)
  | _ => none

def escaped? : Char → Option Char
  | '"' => some '"'
  | '\\' => some '\\'
  | '/' => some '/'
  | 'b' => some '\x08'
  | 'f' => some '\x0c'
  | 'n' => some '\n'
  | 'r' => some '\r'
  | 't' => some '\t'
  | _ => none

/-- A code unit by itself; half of a surrogate pair is no character. -/
def ofCodeUnit (unit : Nat) : Char :=
  if 0xD800 ≤ unit ∧ unit < 0xE000 then '\uFFFD' else Char.ofNat unit

/-- The character of an escape whose code unit and rest are given: a high surrogate takes in the
low one that is escaped right after it. -/
def unicodeEscape (unit : Nat) (rest : List Char) : Except Fault (Char × List Char) :=
  match rest with
  | '\\' :: 'u' :: digits =>
    if 0xD800 ≤ unit ∧ unit < 0xDC00 ∧ 5 ≤ digits.length then
      match codeUnit? digits with
      | none => .error (.malformed .invalidUnicodeEscape ('u' :: digits))
      | some (low, after) =>
        if 0xDC00 ≤ low ∧ low < 0xE000 then
          .ok (Char.ofNat (0x10000 + (unit - 0xD800) * 0x400 + (low - 0xDC00)), after)
        else .ok (ofCodeUnit unit, rest)
    else .ok (ofCodeUnit unit, rest)
  | _ => .ok (ofCodeUnit unit, rest)

/-- The characters of a string and what follows its closing quote. `start` is the text from the
opening quote on; `fuel` bounds the number of characters. -/
def stringBody (start : List Char) : Nat → List Char → List Char →
    Except Fault (String × List Char)
  | 0, _, _ | _ + 1, _, [] => .error (.malformed .unterminatedString start)
  | _ + 1, read, '"' :: rest => .ok (String.ofList read.reverse, rest)
  | _ + 1, _, '\\' :: [] => .error (.malformed .unterminatedString start)
  | fuel + 1, read, '\\' :: 'u' :: digits =>
    match codeUnit? digits with
    | none => .error (.malformed .invalidUnicodeEscape ('u' :: digits))
    | some (unit, rest) =>
      match unicodeEscape unit rest with
      | .error fault => .error fault
      | .ok (c, rest) => stringBody start fuel (c :: read) rest
  | fuel + 1, read, '\\' :: letter :: rest =>
    match escaped? letter with
    | none => .error (.malformed .invalidEscape ('\\' :: letter :: rest))
    | some c => stringBody start fuel (c :: read) rest
  | fuel + 1, read, c :: rest =>
    if c.toNat ≤ 0x1F then .error (.malformed .controlCharacter (c :: rest))
    else stringBody start fuel (c :: read) rest

def readString (rest : List Char) : Except Fault (String × List Char) :=
  stringBody ('"' :: rest) (rest.length + 1) [] rest

def digits (text : List Char) : List Char := text.takeWhile Char.isDigit

/-- The whole part of a number in front of a text: no digit may follow a leading zero. -/
def wholePart? (text : List Char) : Option (List Char) :=
  let (sign, unsigned) := match text with
    | '-' :: rest => (['-'], rest)
    | _ => ([], text)
  match unsigned with
  | '0' :: _ => some (sign ++ ['0'])
  | _ => if (digits unsigned).isEmpty then none else some (sign ++ digits unsigned)

def fraction (text : List Char) : List Char :=
  match text with
  | '.' :: rest => if (digits rest).isEmpty then [] else '.' :: digits rest
  | _ => []

def exponent (text : List Char) : List Char :=
  match text with
  | mark :: rest =>
    if mark = 'e' ∨ mark = 'E' then
      let sign := rest.take 1 |>.filter fun c => c = '+' ∨ c = '-'
      let power := digits (rest.drop sign.length)
      if power.isEmpty then [] else mark :: sign ++ power
    else []
  | [] => []

def readNumber (text : List Char) : Except Fault (Json × List Char) :=
  match wholePart? text with
  | none => .error (.malformed .expectingValue text)
  | some whole =>
    let rest := text.drop whole.length
    let point := fraction rest
    let power := exponent (rest.drop point.length)
    let written := whole ++ point ++ power
    let value := Json.number (String.ofList written)
    if point.isEmpty ∧ power.isEmpty then
      match Text.readNumeral (String.ofList (whole.filter (· ≠ '-'))) with
      | .error fault => .error (.numeral fault)
      | .ok _ => .ok (value, text.drop written.length)
    else .ok (value, text.drop written.length)

def constants : List (List Char × Json) :=
  [("null".toList, .null), ("true".toList, .bool true), ("false".toList, .bool false),
    ("NaN".toList, .number "NaN"), ("Infinity".toList, .number "Infinity"),
    ("-Infinity".toList, .number "-Infinity")]

def constant? (text : List Char) : Option (Json × List Char) :=
  (constants.find? fun entry => entry.1.isPrefixOf text).map
    fun entry => (entry.2, text.drop entry.1.length)

mutual

def readValue : Nat → List Char → Except Fault (Json × List Char)
  | 0, text => .error (.malformed .expectingValue text)
  | fuel + 1, text =>
    match text with
    | '"' :: rest => do
      let (text, rest) ← readString rest
      pure (.string text, rest)
    | '\x7b' :: rest =>
      match skipSpace rest with
      | '\x7d' :: rest => .ok (.object [], rest)
      | rest => do
        let (members, rest) ← readMembers fuel [] rest
        pure (.object members, rest)
    | '[' :: rest =>
      match skipSpace rest with
      | ']' :: rest => .ok (.array [], rest)
      | rest => do
        let (items, rest) ← readItems fuel rest
        pure (.array items, rest)
    | _ =>
      match constant? text with
      | some found => .ok found
      | none => readNumber text

def readItems : Nat → List Char → Except Fault (List Json × List Char)
  | 0, text => .error (.malformed .expectingValue text)
  | fuel + 1, text => do
    let (item, rest) ← readValue fuel text
    match skipSpace rest with
    | ']' :: rest => pure ([item], rest)
    | ',' :: rest =>
      let (others, rest) ← readItems fuel (skipSpace rest)
      pure (item :: others, rest)
    | rest => .error (.malformed .expectingComma rest)

/-- The members of an object from a key on, up to its end, after those read already. Of two values
under one key the last stays. -/
def readMembers : Nat → List (String × Json) → List Char →
    Except Fault (List (String × Json) × List Char)
  | 0, _, text => .error (.malformed .expectingKey text)
  | fuel + 1, known, text => do
    let .cons '"' rest := text | .error (.malformed .expectingKey text)
    let (key, rest) ← readString rest
    let .cons ':' rest := skipSpace rest | .error (.malformed .expectingColon (skipSpace rest))
    let (member, rest) ← readValue fuel (skipSpace rest)
    let known := insertMember key member known
    match skipSpace rest with
    | '\x7d' :: rest => pure (known, rest)
    | ',' :: rest => readMembers fuel known (skipSpace rest)
    | rest => .error (.malformed .expectingComma rest)

end

def parse (text : List Char) : Except Fault Json := do
  if text.head? = some '\uFEFF' then throw (.malformed .byteOrderMark text)
  let (result, rest) ← readValue (2 * text.length + 2) (skipSpace text)
  match skipSpace rest with
  | [] => pure result
  | rest => throw (.malformed .extraData rest)

end PureJs.Json
