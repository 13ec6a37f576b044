/-! Sets of code points given by closed ranges. -/

namespace PureJs.Text

def inRanges (ranges : List (Nat × Nat)) (n : Nat) : Bool :=
  ranges.any fun range => range.1 ≤ n && n ≤ range.2

end PureJs.Text
