import PureJs.Text.Hex
import PureJs.Text.Printable

/-! A text between quotes for use in a message: whatever could not be seen is escaped. -/

namespace PureJs.Text

/-- The quote that stands around a text: a single one, unless the text holds single quotes and no
double ones. -/
def quoteFor (text : List Char) : Char :=
  if '\'' ∈ text ∧ '"' ∉ text then '"' else '\''

def escapeBetween (quote c : Char) : String :=
  if c = quote ∨ c = '\\' then String.ofList ['\\', c]
  else if c = '\t' then "\\t"
  else if c = '\n' then "\\n"
  else if c = '\r' then "\\r"
  else if isPrintable c then c.toString
  else if c.toNat < 0x100 then "\\x" ++ hex 2 c.toNat
  else if c.toNat < 0x10000 then "\\u" ++ hex 4 c.toNat
  else "\\U" ++ hex 8 c.toNat

def quoted (text : String) : String :=
  let quote := quoteFor text.toList
  quote.toString ++ String.join (text.toList.map (escapeBetween quote)) ++ quote.toString

end PureJs.Text
