import PureJs.Text.Digit
import PureJs.Text.Quoted

/-! Reading a whole number from its digits. Digits of every decimal system are read; characters
that are digits without a decimal value are not, and very long numerals are refused. -/

namespace PureJs.Text

inductive NumeralFault
  | notDecimal (text : String)
  | tooLong (digits : Nat)
  deriving DecidableEq, Repr

def digitLimit : Nat := 4300

def NumeralFault.message : NumeralFault → String
  | .notDecimal text =>
    "invalid literal for int() with base 10: " ++ String.ofList ((quoted text).toList.take 200)
  | .tooLong digits =>
    s!"Exceeds the limit ({digitLimit} digits) for integer string conversion: " ++
      s!"value has {digits} digits; " ++
      "use sys.set_int_max_str_digits() to increase the limit"

def ofDecimals (digits : List Char) : Nat :=
  digits.foldl (fun n c => 10 * n + (decimalValue? c).getD 0) 0

/-- The number written by a numeral. The length is judged by the decimal digits in front, before
any other character is noticed. -/
def readNumeral (text : String) : Except NumeralFault Nat :=
  let digits := text.toList.takeWhile fun c => (decimalValue? c).isSome
  if digitLimit < digits.length then .error (.tooLong digits.length)
  else if digits.length < text.toList.length ∨ text.toList = [] then .error (.notDecimal text)
  else .ok (ofDecimals digits)

end PureJs.Text
