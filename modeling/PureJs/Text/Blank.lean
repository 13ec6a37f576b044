import PureJs.Text.Ranges

/-! Blanks of every script, and the two uses made of them: cutting a text into words, and taking
the blanks off its end. -/

namespace PureJs.Text

def blankRanges : List (Nat × Nat) := [
  (0x9, 0xD), (0x1C, 0x20), (0x85, 0x85), (0xA0, 0xA0), (0x1680, 0x1680), (0x2000, 0x200A),
  (0x2028, 0x2029), (0x202F, 0x202F), (0x205F, 0x205F), (0x3000, 0x3000)]

def isBlank (c : Char) : Bool := inRanges blankRanges c.toNat

def words (text : List Char) : List (List Char) :=
  text.splitBy (fun a b => isBlank a == isBlank b) |>.filter fun run => run.any (!isBlank ·)

def trimEnd (text : List Char) : List Char :=
  (text.reverse.dropWhile isBlank).reverse

end PureJs.Text
