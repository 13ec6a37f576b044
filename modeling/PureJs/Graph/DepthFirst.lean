/-! Depth-first walks through a graph whose nodes are told apart by keys. -/

namespace PureJs.DepthFirst

/-- What a walk has seen: the keys of the nodes that it entered, and the nodes that it left, both
with the latest one in front. -/
structure Trail (Node Key : Type) where
  entered : List Key
  left : List Node

variable {Node Key : Type} [DecidableEq Key]

/-- Walks on from a node unless its key was entered before. The depth is bounded by `fuel`, for
which the number of keys is enough: each level enters a key of its own. -/
def visit (key : Node → Key) (next : Node → List Node) :
    Nat → Trail Node Key → Node → Trail Node Key
  | 0, trail, _ => trail
  | fuel + 1, trail, node =>
    if key node ∈ trail.entered then trail
    else
      let inside := (next node).foldl (visit key next fuel)
        { trail with entered := key node :: trail.entered }
      { inside with left := node :: inside.left }

def walk (key : Node → Key) (next : Node → List Node) (size : Nat) (roots : List Node) :
    Trail Node Key :=
  roots.foldl (visit key next size) ⟨[], []⟩

end PureJs.DepthFirst
