import PureJs.Token.Piece

/-! The tokens of a source text, with their places. -/

namespace PureJs.Token

/-- The tokens of pieces of which the first stands at the given place and offset; `line` is the
line on which the token before them starts. -/
def locate (place : Position) (offset line : Nat) : List Piece → List Token
  | [] => [endOfInput place offset]
  | .gap text :: rest => locate (place.after text) (offset + text.length) line rest
  | .lexeme kind text :: rest =>
    { kind := kind
      value := Piece.value kind text
      place := place
      start := offset
      stop := offset + text.length
      opensLine := place.line ≠ line } ::
      locate (place.after text) (offset + text.length) place.line rest

/-- The tokens of a text, the end of the text being the last one. -/
def scan (text : List Char) : Except (Problem × Position) (List Token) :=
  match Piece.ofText text with
  | (pieces, none) => .ok (locate Position.start 0 0 pieces)
  | (pieces, some problem) =>
    .error (problem, Position.start.after (pieces.flatMap Piece.text))

end PureJs.Token
