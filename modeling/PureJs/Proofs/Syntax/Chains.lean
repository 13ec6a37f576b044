import Mathlib.Data.Nat.Digits.Defs
import PureJs.Proofs.Syntax.Climbing
import PureJs.Proofs.Text.Numeral
import PureJs.Proofs.Token.Blanks
import PureJs.Proofs.Token.Words
import PureJs.Syntax.ModuleParser

/-!
A chain of operators that is written on a line as the body of a value. It is read to its end, as the
only tree in which its operands stand in order and its operators are grouped by precedence.
-/

namespace PureJs

def Text.digit (value : Fin 10) : Char := Char.ofNat (48 + value.val)

theorem Text.digit_value (value : Fin 10) : decimalValue? (digit value) = some value.val := by
  revert value
  decide

theorem Text.of_decimals_digits (digits : List (Fin 10)) :
    ofDecimals (digits.map digit) = Nat.ofDigits 10 (digits.reverse.map Fin.val) := by
  unfold ofDecimals
  induction digits using List.reverseRecOn with
  | nil => rfl
  | append_singleton front last ih =>
    simp [digit_value, Nat.ofDigits_cons, ih, Nat.add_comm]

inductive Atom
  | bare (name : List Char)
  | qualified (owner name : List Char)
  | integer (digits : List (Fin 10))
  | number (whole fraction : List Char)
  | string (body : List Char)
  | bool (value : Bool)

structure Operand where
  minuses : Nat
  head : Atom
  args : List Atom

structure Chain where
  first : Operand
  links : List (Operator × Operand)

namespace Cursor

/-- The cursor in front of tokens that stand in no construct of a module. -/
def outermost (finish : Token) (tokens : List Token) : Cursor where
  tokens := tokens
  finish := finish
  fresh := false
  layout := [1]

end Cursor

namespace Atom

def kind : Atom → TokenKind
  | bare _ => .identifier
  | qualified _ _ => .qualified
  | integer _ => .integer
  | number _ _ => .number
  | string _ => .string
  | bool true => .keyword .trueWord
  | bool false => .keyword .falseWord

def text : Atom → List Char
  | bare name => name
  | qualified owner name => owner ++ '.' :: name
  | integer digits => digits.map Text.digit
  | number whole fraction => whole ++ '.' :: fraction
  | string body => '"' :: body
  | bool true => "true".toList
  | bool false => "false".toList

def word (a : Atom) : TokenKind × List Char := (a.kind, a.text)

def expr (place : Position) : Atom → Expr
  | bare name => .var place (String.ofList name) none none
  | qualified owner name => .var place (String.ofList name) (some (String.ofList owner)) none
  | integer digits =>
    .literal place (.integer (Nat.ofDigits 10 (digits.reverse.map Fin.val) : Nat))
  | number whole fraction => .literal place (.number (String.ofList (whole ++ '.' :: fraction)))
  | string body => .literal place (.string (String.ofList (Piece.unescape body)))
  | bool value => .literal place (.bool value)

/-- The atom can be written on a line. An integer has no more digits than the limit. -/
def Legible : Atom → Prop
  | bare name => Piece.Alone .identifier name
  | qualified owner name => Piece.Alone .qualified (owner ++ '.' :: name) ∧ '.' ∉ name
  | integer digits => digits ≠ [] ∧ digits.length ≤ 4300
  | number whole fraction =>
    whole ≠ [] ∧ fraction ≠ [] ∧ ∀ c ∈ whole ++ fraction, Text.isDigit c = true
  | string body => Piece.Quoted body ∧ '\n' ∉ body
  | bool _ => True

end Atom

namespace Operand

def words (o : Operand) : List (TokenKind × List Char) :=
  List.replicate o.minuses (.mark .minus, ['-']) ++ (o.head :: o.args).map Atom.word

def applied (function : Expr) : Position → List Atom → Expr
  | _, [] => function
  | place, argument :: rest =>
    applied (.app function.place function (argument.expr place)) (place.past argument.text) rest

def signed (o : Operand) : Nat → Position → Expr
  | 0, place => applied (o.head.expr place) (place.past o.head.text) o.args
  | minuses + 1, place => .negate place (o.signed minuses (place.past ['-']))

/-- The tree of an operand that stands at the place. -/
def expr (o : Operand) (place : Position) : Expr := o.signed o.minuses place

def Legible (o : Operand) : Prop := ∀ a ∈ o.head :: o.args, a.Legible

end Operand

namespace Chain

def linkWords (link : Operator × Operand) : List (TokenKind × List Char) :=
  (.mark link.1.mark, link.1.mark.chars) :: link.2.words

def words (chain : Chain) : List (TokenKind × List Char) :=
  chain.first.words ++ chain.links.flatMap linkWords

def linksFrom : Position → List (Operator × Operand) → List Expr.Link
  | _, [] => []
  | place, (op, operand) :: rest =>
    ⟨place, op, operand.expr (place.past op.mark.chars)⟩ ::
      linksFrom (Token.beyond place (linkWords (op, operand))) rest

/-- The operands of the chain as trees and the operators between them, from the place on. -/
def inOrder (chain : Chain) (place : Position) : Expr × List Expr.Link :=
  (chain.first.expr place, linksFrom (Token.beyond place chain.first.words) chain.links)

def Legible (chain : Chain) : Prop :=
  chain.first.Legible ∧ ∀ link ∈ chain.links, link.2.Legible

end Chain

namespace Atom

open Piece

theorem digit_chars (digits : List (Fin 10)) :
    ∀ c ∈ digits.map Text.digit, Text.isDigit c = true := by
  intro c member
  obtain ⟨value, _, rfl⟩ := List.mem_map.mp member
  have every : ∀ value, Text.isDigit (Text.digit value) = true := by decide
  exact every value

theorem numeral_alone {kind : TokenKind} {text : List Char}
    (begins : ∀ c ∈ text.head?, Text.isDigit c = true) (some : text ≠ [])
    (whole : numeral text = (kind, text)) : Alone kind text := by
  obtain ⟨c, tail, rfl⟩ := List.exists_cons_of_ne_nil some
  refine ⟨c, tail, rfl, ?_⟩
  rw [first_digit (begins c rfl), whole]

theorem Legible.alone {a : Atom} (legible : a.Legible) : Alone a.kind a.text := by
  cases a with
  | bare name => exact legible
  | qualified owner name => exact legible.1
  | integer digits =>
    have each := digit_chars digits
    have whole : numeral (digits.map Text.digit ++ []) = _ := numeral_whole each nofun nofun
    rw [List.append_nil] at whole
    exact numeral_alone (fun c next => each c (List.mem_of_mem_head? next))
      (mt List.map_eq_nil_iff.mp legible.1) whole
  | number whole fraction =>
    obtain ⟨someWhole, someFraction, each⟩ := legible
    rw [List.forall_mem_append] at each
    have cut : numeral (whole ++ '.' :: (fraction ++ [])) = _ :=
      numeral_fraction each.1 each.2 someFraction nofun
    rw [List.append_nil] at cut
    refine numeral_alone (fun c next => ?_) (List.append_ne_nil_of_left_ne_nil someWhole _) cut
    obtain ⟨d, rest, rfl⟩ := List.exists_cons_of_ne_nil someWhole
    cases next
    exact each.1 c List.mem_cons_self
  | string body =>
    have closed := legible.1.read []
    rw [List.append_nil] at closed
    refine ⟨'"', body, rfl, ?_⟩
    unfold first
    rw [if_neg (by decide), if_neg fun both => absurd both.1 (by decide),
      if_neg fun both => absurd both.1 (by decide), if_pos rfl, closed]
    rfl
  | bool value =>
    cases value
    · exact ⟨'f', "alse".toList, rfl, by decide +kernel⟩
    · exact ⟨'t', "rue".toList, rfl, by decide +kernel⟩

theorem Legible.flat {a : Atom} (legible : a.Legible) : '\n' ∉ a.text := by
  cases a with
  | string body =>
    exact List.not_mem_cons_of_ne_of_not_mem (by decide) legible.2
  | bool value => cases value <;> decide
  | _ => exact legible.alone.flat (by simp [kind])

theorem Legible.leaf {a : Atom} (legible : a.Legible) {t : Token} (is : t.kind = a.kind)
    (value : t.value = Piece.value a.kind a.text) : (a.expr t.place).Leaf t := by
  have plain : a.kind ≠ .string → t.value = String.ofList a.text :=
    fun other => value.trans (value_plain other a.text)
  cases a with
  | bare name =>
    have leaf := Expr.Leaf.name is
    rwa [plain (by simp [kind])] at leaf
  | qualified owner name =>
    have leaf := Expr.Leaf.qualified is
    have pointed : (qualified owner name).text = owner ++ '.' :: name := rfl
    rwa [plain (by simp [kind]), pointed, Token.split_at_last_point legible.2] at leaf
  | integer digits =>
    refine .integer is ?_
    have decimal : ∀ c ∈ digits.map Text.digit, (Text.decimalValue? c).isSome := by
      simp [Text.digit_value]
    have read : Text.readNumeral (String.ofList (digits.map Text.digit)) = _ :=
      Text.read_numeral_of_decimals (by simpa using legible.1) (by simpa using decimal)
        (by simpa [Text.digitLimit] using legible.2)
    have decimals : (integer digits).text = digits.map Text.digit := rfl
    rw [Expr.integerValue, plain (by simp [kind]), decimals, read, String.toList_ofList,
      Text.of_decimals_digits]
  | number whole fraction =>
    have leaf := Expr.Leaf.number is
    rwa [plain (by simp [kind])] at leaf
  | string body =>
    have leaf := Expr.Leaf.string is
    rwa [value] at leaf
  | bool truth =>
    cases truth
    · exact .no is
    · exact .yes is

end Atom

namespace Operand

open PureJs.Expr Token

theorem arguments_laid {atoms : List Atom} (legible : ∀ a ∈ atoms, a.Legible) {function : Expr}
    {place : Position} {tokens : List Token} (laid : Laid place (atoms.map Atom.word) tokens) :
    Arguments function tokens (applied function place atoms) := by
  induction atoms generalizing function place tokens with
  | nil =>
    cases laid
    exact .none
  | cons a rest ih =>
    rw [List.forall_mem_cons] at legible
    cases laid with
    | cons stands is value later =>
      subst stands
      exact .some (legible.1.leaf is value) (ih legible.2 later)

theorem signed_laid {o : Operand} (legible : o.Legible) {minuses : Nat} {place : Position}
    {tokens : List Token}
    (laid : Laid place (List.replicate minuses (.mark .minus, ['-']) ++
      (o.head :: o.args).map Atom.word) tokens) : Signed tokens (o.signed minuses place) := by
  induction minuses generalizing place tokens with
  | zero =>
    rw [Legible, List.forall_mem_cons] at legible
    cases laid with
    | cons stands is value later =>
      subst stands
      exact .plain (legible.1.leaf is value) (arguments_laid legible.2 later)
  | succ minuses ih =>
    cases laid with
    | cons stands is value later =>
      subst stands
      exact .minus is (ih later)

def Readable (words : List (TokenKind × List Char)) : Prop :=
  ∀ word ∈ words, Piece.Alone word.1 word.2 ∧ '\n' ∉ word.2

theorem Legible.readable {o : Operand} (legible : o.Legible) : Readable o.words := by
  intro word member
  rcases List.mem_append.mp member with minus | atom
  · rw [List.eq_of_mem_replicate minus]
    exact ⟨⟨'-', [], rfl, by decide +kernel⟩, by decide⟩
  · obtain ⟨a, inside, rfl⟩ := List.mem_map.mp atom
    exact ⟨(legible a inside).alone, (legible a inside).flat⟩

end Operand

namespace Chain

open PureJs.Expr Token Operand

theorem links_laid {links : List (Operator × Operand)} (legible : ∀ link ∈ links, link.2.Legible)
    {place : Position} {tokens : List Token} (laid : Laid place (links.flatMap linkWords) tokens) :
    Linked tokens (linksFrom place links) := by
  induction links generalizing place tokens with
  | nil =>
    cases laid
    exact .nil
  | cons link rest ih =>
    obtain ⟨op, operand⟩ := link
    rw [List.forall_mem_cons] at legible
    obtain ⟨front, back, rfl, here, later⟩ := laid.split
    cases here with
    | cons stands is value inner =>
      subst stands
      exact .cons is (signed_laid legible.1 inner) (ih legible.2 later)

theorem Legible.spelled {chain : Chain} (legible : chain.Legible) {place : Position}
    {tokens : List Token} (laid : Laid place chain.words tokens) :
    Spelled tokens (chain.inOrder place) := by
  obtain ⟨front, back, rfl, first, links⟩ := laid.split
  exact ⟨front, back, rfl, signed_laid legible.1 first, links_laid legible.2 links⟩

theorem Legible.readable {chain : Chain} (legible : chain.Legible) : Readable chain.words := by
  refine List.forall_mem_append.mpr ⟨Operand.Legible.readable legible.1, fun word member => ?_⟩
  obtain ⟨⟨op, operand⟩, inside, here⟩ := List.mem_flatMap.mp member
  rcases List.mem_cons.mp here with rfl | later
  · have alone : Piece.Alone (.mark op.mark) op.mark.chars := by
      cases op <;> exact ⟨_, _, rfl, by decide +kernel⟩
    exact ⟨alone, alone.flat (by simp)⟩
  · exact (legible.2 _ inside).readable word later

/-- What stands in front of the body of a value. -/
def headWords (name : List Char) (params : List (List Char)) : List (TokenKind × List Char) :=
  (.identifier, name) :: params.map (.identifier, ·) ++ [(.mark .assign, ['='])]

/-- The line on which the value is declared to be the chain. -/
def line (name : List Char) (params : List (List Char)) (chain : Chain) : List Char :=
  [' '].intercalate ((headWords name params ++ chain.words).map Prod.snd)

theorem names_laid {names : List (List Char)} {place : Position} {tokens : List Token}
    (laid : Laid place (names.map (.identifier, ·)) tokens) :
    (∀ t ∈ tokens, t.kind = .identifier) ∧ tokens.map Token.value = names.map String.ofList := by
  induction names generalizing place tokens with
  | nil =>
    cases laid
    exact ⟨nofun, rfl⟩
  | cons name rest ih =>
    cases laid with
    | cons stands is value later =>
      obtain ⟨kinds, values⟩ := ih later
      exact ⟨List.forall_mem_cons.mpr ⟨is, kinds⟩, congrArg₂ List.cons value values⟩

theorem value_read (text : List Char) {name : List Char} {params : List (List Char)}
    {place : Position} {head row : List Token} {finish : Token} {body : Expr} {last : Cursor}
    (laid : Laid place (headWords name params) head)
    (reads : Expr.parse (readingDepth (.outermost finish row)) (.outermost finish row) =
      .ok (body, last)) :
    Module.parseItem text (.outermost finish (head ++ row)) =
      .ok (.declaration (.value ⟨place, String.ofList name, params.map String.ofList, body⟩),
        last) := by
  cases laid with
  | @cons _ _ _ t _ _ stands is value later =>
    obtain ⟨names, _, rfl, listed, assigns⟩ := later.split
    cases assigns with
    | @cons _ _ _ sign _ _ _ assign _ none =>
      cases none
      obtain ⟨kinds, values⟩ := names_laid listed
      have each : ∀ t ∈ names, decide (t.kind = .identifier) = true := by simpa using kinds
      have stops : decide (sign.kind = .identifier) = false := by simp [assign]
      have ids : (Cursor.outermost finish (names ++ sign :: row)).identifiers =
          (params.map String.ofList, .outermost finish (sign :: row)) := by
        simp [Cursor.identifiers, Cursor.outermost, List.takeWhile_append_of_pos each,
          List.dropWhile_append_of_pos each, stops, values]
      have expects : (Cursor.outermost finish (sign :: row)).expect (.mark .assign) "'='" =
          .ok (sign, .outermost finish row) := by
        simp [Cursor.expect, Cursor.kind, Cursor.peek, Cursor.outermost, Cursor.advance, assign]
      have plain : (Cursor.outermost finish (t :: (names ++ sign :: row))).secondKind ≠
          .mark .doubleColon := by
        cases names with
        | nil => simp [Cursor.secondKind, Cursor.outermost, assign]
        | cons first rest =>
          simp [Cursor.secondKind, Cursor.outermost, kinds first List.mem_cons_self]
      have kind : (Cursor.outermost finish (t :: (names ++ sign :: row))).kind = .identifier := is
      rw [List.cons_append, List.append_assoc, List.singleton_append]
      unfold Module.parseItem
      rw [kind]
      dsimp only
      rw [if_neg plain]
      unfold Module.parseValue
      rw [show (Cursor.outermost finish (t :: (names ++ sign :: row))).advance =
        .outermost finish (names ++ sign :: row) from rfl, ids]
      dsimp only
      rw [expects]
      dsimp only [bind, Except.bind]
      rw [reads, ← stands, show String.ofList name = t.value from value.symm]
      rfl

/-- A text in which a line between others declares the value to be the chain. -/
def program (front back name : List Char) (params : List (List Char)) (chain : Chain) :
    List Char :=
  front ++ '\n' :: (line name params chain ++ '\n' :: back)

/-- Where the declaration stands behind the lines in front of it. -/
def start (front : List Char) : Position := Position.start.below (lineCount front)

def bodyPlace (front name : List Char) (params : List (List Char)) : Position :=
  beyond (start front) (headWords name params)

/-- A chain that is written on a line as the body of a value, among other lines of which the next
one begins in the first column, is read to its end, as the only tree that has its operands and
operators in order and groups them by precedence. -/
theorem chain_declared {front back : List Char} {above below : List Token}
    (scanned : scan front = .ok above) (more : scan back = .ok below)
    (apart : ∀ t ∈ below.dropLast.head?, t.column = 1) {name : List Char}
    {params : List (List Char)} {chain : Chain} (named : Piece.Alone .identifier name)
    (each : ∀ param ∈ params, Piece.Alone .identifier param) (legible : chain.Legible) :
    ∃ head row after finish e,
      scan (program front back name params chain) =
          .ok (above.dropLast ++ (head ++ (row ++ after) ++ [finish])) ∧
        Laid (start front) (headWords name params) head ∧
        Laid (bodyPlace front name params) chain.words row ∧
        after.map Token.tag = below.dropLast.map Token.tag ∧
        Module.parseItem (program front back name params chain)
            (.outermost finish (head ++ (row ++ after))) =
          .ok (.declaration (.value
            ⟨start front, String.ofList name, params.map String.ofList, e⟩),
            .outermost finish after) ∧
        Expr.parse (readingDepth (.outermost finish (row ++ after)))
            (.outermost finish (row ++ after)) = .ok (e, .outermost finish after) ∧
        e.Grouped ∧ e.inOrder = chain.inOrder (bodyPlace front name params) ∧
        ∀ other : Expr, other.Grouped →
          other.inOrder = chain.inOrder (bodyPlace front name params) → other = e := by
  have readable : Readable (headWords name params ++ chain.words) := by
    refine List.forall_mem_append.mpr ⟨fun word member => ?_, Legible.readable legible⟩
    simp only [headWords, List.cons_append, List.mem_cons, List.mem_append, List.mem_map,
      List.not_mem_nil, or_false] at member
    rcases member with rfl | ⟨param, inside, rfl⟩ | rfl
    · exact ⟨named, named.flat (by simp)⟩
    · exact ⟨each param inside, (each param inside).flat (by simp)⟩
    · exact ⟨⟨'=', [], rfl, by decide +kernel⟩, by decide⟩
  obtain ⟨all, after, finish, whole, laid, inline, alike⟩ := scan_line
    (fun word member => (readable word member).1) (fun word member => (readable word member).2)
    scanned more
  obtain ⟨head, row, rfl, laidHead, laidRow⟩ := laid.split
  have free : ∀ t ∈ row, t.opensLine = false := by
    cases laidHead with
    | cons => exact fun t member => inline t (by simp [member])
  have ends : ((Cursor.outermost finish (row ++ after)).behind after).atBoundary = true := by
    obtain ⟨others, _, _, rfl⟩ := scan_ends more
    rw [List.dropLast_concat] at alike apart
    cases alike with
    | nil => rfl
    | @cons t other _ _ same =>
      have opens := scan_first more other rfl
      have column := apart other rfl
      simp [Cursor.atBoundary, Cursor.breaksLayout, Cursor.behind, Cursor.peek, Cursor.outermost,
        same, opens, column]
  have tags : List.Forall₂ (· = ·) (after.map Token.tag) (below.dropLast.map Token.tag) := by
    rw [List.forall₂_map_left_iff, List.forall₂_map_right_iff]
    exact alike.imp fun _ _ same => same.1
  rw [List.forall₂_eq_eq_eq] at tags
  obtain ⟨e, reads, grouped, order, unique⟩ := chain_read (legible.spelled laidRow) rfl free ends
  refine ⟨head, row, after, finish, e, ?_, laidHead, laidRow, tags, value_read _ laidHead reads,
    reads, grouped, order, unique⟩
  rw [program, line, whole]
  simp only [List.append_assoc]

def sample : Chain where
  first := ⟨1, .bare ['a'], [.integer [1]]⟩
  links := [(.sub, ⟨1, .bare ['b'], []⟩), (.mul, ⟨0, .integer [2], []⟩), (.or, ⟨0, .bool true, []⟩)]

example : sample.line ['f'] [['x']] = "f x = - a 1 - - b * 2 || true".toList := by decide

def sampleTree : Expr :=
  .binary ⟨2, 23⟩ .or
    (.binary ⟨2, 13⟩ .sub
      (.negate ⟨2, 7⟩ (.app ⟨2, 9⟩ (.var ⟨2, 9⟩ "a" none none) (.literal ⟨2, 11⟩ (.integer 1))))
      (.binary ⟨2, 19⟩ .mul (.negate ⟨2, 15⟩ (.var ⟨2, 17⟩ "b" none none))
        (.literal ⟨2, 21⟩ (.integer 2))))
    (.literal ⟨2, 26⟩ (.bool true))

theorem sample_declared :
    ∃ before head row finish,
      scan (program "module A where".toList [] ['f'] [['x']] sample) =
          .ok (before ++ (head ++ row ++ [finish])) ∧
        Expr.parse (readingDepth (.outermost finish row)) (.outermost finish row) =
          .ok (sampleTree, .outermost finish []) := by
  have reads : (scan "module A where".toList).isOk = true := by decide +kernel
  cases scanned : scan "module A where".toList with
  | error problem =>
    rw [scanned] at reads
    cases reads
  | ok above =>
    have letter : ∀ c ∈ ['a', 'b', 'f', 'x'], Piece.Alone .identifier [c] := by
      have all : ['a', 'b', 'f', 'x'].all
          (fun c => Piece.first c [] = .ok (.lexeme .identifier [c])) = true := by decide +kernel
      intro c member
      exact ⟨c, [], rfl, by simpa using List.all_eq_true.mp all c member⟩
    have params : ∀ param ∈ [['x']], Piece.Alone .identifier param := by
      simpa using letter 'x' (by simp)
    have legible : sample.Legible := by
      simp [sample, Legible, Operand.Legible, Atom.Legible, letter]
    obtain ⟨head, row, after, finish, e, whole, _, _, none, _, parsed, _, _, unique⟩ :=
      chain_declared scanned scan_nil nofun (letter 'f' (by simp)) params legible
    have grouped : sampleTree.Grouped := by
      refine .binary ?_ nofun (.binary nofun ?_ (.operand rfl)
        (.binary nofun nofun (.operand rfl) (.operand rfl))) (.operand rfl)
      · rintro inner ⟨⟩
        decide
      · rintro inner ⟨⟩
        decide
    have same : e = sampleTree := (unique sampleTree grouped rfl).symm
    have none : after = [] := by simpa using none
    subst none same
    exact ⟨_, head, row, finish, by simpa using whole, by simpa using parsed⟩

end Chain

end PureJs
