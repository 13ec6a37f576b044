/-! Strict reading of UTF-8: the first fault is reported with the bytes it spans. -/

namespace PureJs.Text

inductive Utf8Reason
  | invalidStart
  | invalidContinuation
  | unexpectedEnd
  deriving DecidableEq, Repr

def Utf8Reason.message : Utf8Reason → String
  | .invalidStart => "invalid start byte"
  | .invalidContinuation => "invalid continuation byte"
  | .unexpectedEnd => "unexpected end of data"

structure Utf8Fault where
  byte : UInt8
  position : Nat
  width : Nat
  reason : Utf8Reason
  deriving DecidableEq, Repr

def byteText (byte : UInt8) : String :=
  let digits := Nat.toDigits 16 byte.toNat
  "0x" ++ String.ofList (if digits.length < 2 then '0' :: digits else digits)

def Utf8Fault.message (fault : Utf8Fault) : String :=
  "'utf-8' codec can't decode " ++
    (if fault.width = 1 then s!"byte {byteText fault.byte} in position {fault.position}"
      else s!"bytes in position {fault.position}-{fault.position + fault.width - 1}") ++
    ": " ++ fault.reason.message

def isContinuation (byte : UInt8) : Bool := 0x80 ≤ byte && byte ≤ 0xBF

/-- The byte may follow the lead byte: overlong forms, surrogates and code points past the last one
are shut out here. -/
def mayFollow (lead second : UInt8) : Bool :=
  isContinuation second &&
    (if lead = 0xE0 then 0xA0 ≤ second
      else if lead = 0xED then second ≤ 0x9F
      else if lead = 0xF0 then 0x90 ≤ second
      else if lead = 0xF4 then second ≤ 0x8F
      else true)

def characterWidth? (lead : UInt8) : Option Nat :=
  if lead ≤ 0x7F then some 1
  else if 0xC2 ≤ lead && lead ≤ 0xDF then some 2
  else if 0xE0 ≤ lead && lead ≤ 0xEF then some 3
  else if 0xF0 ≤ lead && lead ≤ 0xF4 then some 4
  else none

def payload (byte : UInt8) : Nat := byte.toNat % 64

def assemble (lead : UInt8) (continuation : List UInt8) : Char :=
  let high := match continuation.length with
    | 0 => lead.toNat
    | 1 => lead.toNat % 32
    | 2 => lead.toNat % 16
    | _ => lead.toNat % 8
  Char.ofNat (continuation.foldl (fun n byte => 64 * n + payload byte) high)

/-- The characters of the bytes from the given place on; `taken` holds the bytes read of an
unfinished character, the latest first, `lead` its first byte, `missing` how many it still needs. -/
def decodeFrom (position : Nat) :
    Option (UInt8 × List UInt8 × Nat) → List UInt8 → Except Utf8Fault (List Char)
  | none, [] => .ok []
  | some (lead, taken, _), [] =>
    .error ⟨lead, position - taken.length - 1, taken.length + 1, .unexpectedEnd⟩
  | none, byte :: rest =>
    match characterWidth? byte with
    | none => .error ⟨byte, position, 1, .invalidStart⟩
    | some 1 => (assemble byte [] :: ·) <$> decodeFrom (position + 1) none rest
    | some width => decodeFrom (position + 1) (some (byte, [], width - 1)) rest
  | some (lead, taken, missing), byte :: rest =>
    let fits := if taken.isEmpty then mayFollow lead byte else isContinuation byte
    if !fits then
      .error ⟨lead, position - taken.length - 1, taken.length + 1, .invalidContinuation⟩
    else if missing ≤ 1 then
      (assemble lead (byte :: taken).reverse :: ·) <$> decodeFrom (position + 1) none rest
    else
      decodeFrom (position + 1) (some (lead, byte :: taken, missing - 1)) rest

def decodeUtf8 (bytes : List UInt8) : Except Utf8Fault (List Char) :=
  decodeFrom 0 none bytes

end PureJs.Text
