import PureJs.Proofs.Syntax.Carried
import PureJs.Proofs.Syntax.Chains
import PureJs.Proofs.Token.Spelling

/-!
How an expression without do blocks is written in words, with every part of it that is put together
in parentheses.
-/

namespace PureJs

def Mark.word (sign : Mark) : TokenKind × List Char := (.mark sign, sign.chars)

def Keyword.word (word : Keyword) : TokenKind × List Char := (.keyword word, word.text.toList)

namespace Literal

def word : Literal → TokenKind × List Char
  | integer value => (.integer, Nat.toDigits 10 value.toNat)
  | number text => (.number, text.toList)
  | string value => (.string, '"' :: Piece.quotedBody value.toList)
  | bool true => Keyword.trueWord.word
  | bool false => Keyword.falseWord.word

/-- Integers that are not negative and not longer than the limit, and numbers of digits, a point and
digits. -/
def Writable : Literal → Prop
  | integer value => 0 ≤ value ∧ (Nat.toDigits 10 value.toNat).length ≤ 4300
  | number text => ∃ whole fraction : List Char, text.toList = whole ++ '.' :: fraction ∧
      whole ≠ [] ∧ fraction ≠ [] ∧ ∀ c ∈ whole ++ fraction, Text.isDigit c = true
  | string _ | bool _ => True

end Literal

namespace Expr

def isCompound : Expr → Bool
  | app _ _ _ | lambda _ _ _ | cond _ _ _ _ | binary _ _ _ _ | negate _ _ | block _ _ => true
  | _ => false

def inParens (words : List (TokenKind × List Char)) : List (TokenKind × List Char) :=
  Mark.leftParen.word :: words ++ [Mark.rightParen.word]

def enclose (also : Expr → Bool) (e : Expr) (words : List (TokenKind × List Char)) :
    List (TokenKind × List Char) :=
  if e.isCompound || also e then inParens words else words

def nameWord (name : String) : TokenKind × List Char := (.identifier, name.toList)

mutual

def words (also : Expr → Bool) : Expr → List (TokenKind × List Char)
  | literal _ value => [value.word]
  | array _ items => Mark.leftBracket.word :: itemWords also items ++ [Mark.rightBracket.word]
  | var _ name none _ => [nameWord name]
  | var _ name (some owner) _ => [(.qualified, owner.toList ++ '.' :: name.toList)]
  | app _ function argument =>
    enclose also function (words also function) ++ enclose also argument (words also argument)
  | lambda _ params body =>
    Mark.backslash.word :: params.map nameWord ++
      Mark.arrow.word :: enclose also body (words also body)
  | cond _ condition yes no =>
    Keyword.ifWord.word :: enclose also condition (words also condition) ++
      Keyword.thenWord.word :: enclose also yes (words also yes) ++
        Keyword.elseWord.word :: enclose also no (words also no)
  | binary _ op left right =>
    enclose also left (words also left) ++ op.mark.word :: enclose also right (words also right)
  | negate _ operand => Mark.minus.word :: enclose also operand (words also operand)
  | block _ _ => []

def itemWords (also : Expr → Bool) : List Expr → List (TokenKind × List Char)
  | [] => []
  | [e] => enclose also e (words also e)
  | e :: next :: rest =>
    enclose also e (words also e) ++ Mark.comma.word :: itemWords also (next :: rest)

end

def NameWritable (name : String) : Option String → Prop
  | none => Piece.Bare name.toList
  | some owner => Piece.Dotted owner.toList ∧ LexicalChars name.toList ∧
      name.toList.head?.any Text.isCapital = false

mutual

def Writable : Expr → Prop
  | literal _ value => value.Writable
  | array _ items => ListWritable items
  | var _ name qualifier resolved => NameWritable name qualifier ∧ resolved = none
  | app _ function argument => function.Writable ∧ argument.Writable
  | lambda _ params body =>
    params ≠ [] ∧ (∀ param ∈ params, Piece.Bare param.toList) ∧ body.Writable
  | cond _ condition yes no => condition.Writable ∧ yes.Writable ∧ no.Writable
  | binary _ _ left right => left.Writable ∧ right.Writable
  | negate _ operand => operand.Writable
  | block _ _ => False

def ListWritable : List Expr → Prop
  | [] => True
  | e :: rest => e.Writable ∧ ListWritable rest

end

end Expr

/-! Every word is cut off as it is -/

namespace Piece

theorem mark_alone (sign : Mark) : Alone sign.word.1 sign.word.2 := by
  cases sign <;> exact ⟨_, _, rfl, by decide +kernel⟩

theorem keyword_alone (word : Keyword) : Alone word.word.1 word.word.2 := by
  cases word <;> exact ⟨_, _, rfl, by decide +kernel⟩

end Piece

open Operand in
theorem Mark.readable (sign : Mark) : Readable [sign.word] := by
  have alone := Piece.mark_alone sign
  exact List.forall_mem_singleton.mpr ⟨alone, alone.flat nofun⟩

open Operand in
theorem Keyword.readable (word : Keyword) : Readable [word.word] := by
  have alone := Piece.keyword_alone word
  exact List.forall_mem_singleton.mpr ⟨alone, alone.flat nofun⟩

namespace Expr

open Operand (Readable)

theorem readable_append {front back : List (TokenKind × List Char)} (first : Readable front)
    (second : Readable back) : Readable (front ++ back) :=
  List.forall_mem_append.mpr ⟨first, second⟩

theorem readable_names {names : List String} (each : ∀ name ∈ names, Piece.Bare name.toList) :
    Readable (names.map nameWord) := by
  intro word member
  obtain ⟨name, inside, rfl⟩ := List.mem_map.mp member
  have alone := (each name inside).alone
  exact ⟨alone, alone.flat nofun⟩

theorem literal_readable {value : Literal} (writable : value.Writable) :
    Readable [value.word] := by
  refine List.forall_mem_singleton.mpr ?_
  cases value with
  | integer value =>
    have alone := Piece.decimals_alone value.toNat
    exact ⟨alone, alone.flat nofun⟩
  | number text =>
    obtain ⟨whole, fraction, split, parts⟩ := writable
    have legible : (Atom.number whole fraction).Legible := parts
    rw [Literal.word, split]
    exact ⟨legible.alone, legible.flat⟩
  | string value =>
    have body := Piece.quoted_body value.toList
    have legible : (Atom.string (Piece.quotedBody value.toList)).Legible := ⟨body.1, body.2.1⟩
    exact ⟨legible.alone, legible.flat⟩
  | bool value => cases value <;> exact Keyword.readable _ _ (List.mem_singleton_self _)

theorem name_readable {place : Position} {name : String} {qualifier resolved : Option String}
    (writable : NameWritable name qualifier) (also : Expr → Bool) :
    Readable (words also (.var place name qualifier resolved)) := by
  cases qualifier with
  | none =>
    have named : Piece.Bare name.toList := writable
    exact readable_names (List.forall_mem_singleton.mpr named)
  | some owner =>
    have alone := writable.1.qualified writable.2.1 writable.2.2
    exact List.forall_mem_singleton.mpr ⟨alone, alone.flat nofun⟩

theorem enclose_readable {also : Expr → Bool} {e : Expr} {inner : List (TokenKind × List Char)}
    (readable : Readable inner) : Readable (enclose also e inner) := by
  unfold enclose
  split
  · exact readable_append (readable_append (Mark.readable .leftParen) readable)
      (Mark.readable .rightParen)
  · exact readable

mutual

theorem words_readable (also : Expr → Bool) {e : Expr} (writable : e.Writable) :
    Readable (e.words also) := by
  cases e with
  | literal place value => exact literal_readable writable
  | array place items =>
    exact readable_append (readable_append (Mark.readable _) (items_readable also writable))
      (Mark.readable _)
  | var place name qualifier resolved => exact name_readable writable.1 also
  | app place function argument =>
    exact readable_append (enclose_readable (words_readable also writable.1))
      (enclose_readable (words_readable also writable.2))
  | lambda place params body =>
    exact readable_append (readable_append (Mark.readable _) (readable_names writable.2.1))
      (readable_append (Mark.readable _) (enclose_readable (words_readable also writable.2.2)))
  | cond place condition yes no =>
    exact readable_append
      (readable_append
        (readable_append (Keyword.readable _) (enclose_readable (words_readable also writable.1)))
        (readable_append (Keyword.readable _)
          (enclose_readable (words_readable also writable.2.1))))
      (readable_append (Keyword.readable _) (enclose_readable (words_readable also writable.2.2)))
  | binary place op left right =>
    exact readable_append (enclose_readable (words_readable also writable.1))
      (readable_append (Mark.readable _) (enclose_readable (words_readable also writable.2)))
  | negate place operand =>
    exact readable_append (Mark.readable _)
      (enclose_readable (words_readable also (e := operand) writable))
  | block place statements => exact writable.elim

theorem items_readable (also : Expr → Bool) {items : List Expr} (writable : ListWritable items) :
    Readable (itemWords also items) := by
  match items with
  | [] => nofun
  | [e] => exact enclose_readable (words_readable also writable.1)
  | e :: next :: rest =>
    exact readable_append (enclose_readable (words_readable also writable.1))
      (readable_append (Mark.readable _) (items_readable also writable.2))

end

end Expr

end PureJs
