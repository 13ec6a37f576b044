import PureJs.Proofs.Text.IdentifierChars
import PureJs.Proofs.Text.Numeral
import PureJs.Proofs.Token.Blanks
import PureJs.Proofs.Token.Steady

/-!
How names, numbers and strings are written, so that each is cut off as one lexeme of its kind and
value.
-/

namespace PureJs

namespace Piece

open Text

theorem start_no_digit {c : Char} (start : startsName c = true) : isDigit c = false := by
  simp only [startsName, Bool.or_eq_true, decide_eq_true_eq] at start
  rcases start with letter | rfl
  · exact letter_no_digit letter
  · rfl

structure Bare (name : List Char) : Prop where
  lexical : LexicalChars name
  small : name.head?.any isCapital = false
  free : Keyword.ofText? (String.ofList name) = none

inductive Dotted : List Char → Prop
  | last {part : List Char} (lexical : LexicalChars part)
    (capital : part.head?.any isCapital = true) : Dotted part
  | more {part rest : List Char} (lexical : LexicalChars part)
    (capital : part.head?.any isCapital = true) (later : Dotted rest) :
    Dotted (part ++ '.' :: rest)

section Names

variable {name owner rest : List Char} {kind : TokenKind}

theorem LexicalChars.split {part : List Char} (lexical : LexicalChars part) :
    ∃ c tail, part = c :: tail ∧ startsName c = true ∧ ∀ d ∈ tail, continuesName d = true := by
  cases part with
  | nil => cases lexical.1
  | cons c tail =>
    exact ⟨c, tail, rfl, by simpa using lexical.1,
      fun d member => lexical.2 d (List.mem_cons_of_mem c member)⟩

theorem name_alone {whole : List Char} (begins : whole.head?.any startsName = true)
    (cut : Piece.name whole = (kind, whole)) : Alone kind whole := by
  cases whole with
  | nil => cases begins
  | cons c tail =>
    have start : startsName c = true := by simpa using begins
    refine ⟨c, tail, rfl, ?_⟩
    rw [first_start start (start_no_digit start), cut]

theorem Bare.alone (bare : Bare name) : Alone .identifier name := by
  have whole : name.takeWhile continuesName = name :=
    List.takeWhile_eq_self_iff.mpr bare.lexical.2
  apply name_alone bare.lexical.1
  unfold Piece.name
  rw [if_neg (by simp [bare.small]), whole, bare.free]

theorem part_cut {part : List Char} (lexical : LexicalChars part)
    (capital : part.head?.any isCapital = true) (stops : Stops continuesName rest)
    (cut : dottedName rest = (kind, rest)) :
    dottedName ('.' :: (part ++ rest)) = (kind, '.' :: (part ++ rest)) := by
  obtain ⟨c, tail, rfl, start, each⟩ := LexicalChars.split lexical
  have large : isCapital c = true := by simpa using capital
  rw [List.cons_append, dottedName, if_pos start, if_pos large, takeWhile_stops each stops,
    dropWhile_stops each stops, cut]
  rfl

theorem point_stops (text : List Char) : Stops continuesName ('.' :: text) := by
  rintro c ⟨⟩
  exact point_continues_no_name

theorem Dotted.cut (dotted : Dotted owner) (stops : Stops continuesName rest)
    (cut : dottedName rest = (kind, rest)) :
    dottedName ('.' :: (owner ++ rest)) = (kind, '.' :: (owner ++ rest)) := by
  induction dotted with
  | last lexical capital => exact part_cut lexical capital stops cut
  | @more part others lexical capital later ih =>
    rw [List.append_assoc]
    exact part_cut lexical capital (point_stops _) ih

theorem Dotted.alone (dotted : Dotted owner) (stops : Stops continuesName rest)
    (cut : dottedName rest = (kind, rest)) : Alone kind (owner ++ rest) := by
  have front : ∀ {part text : List Char}, LexicalChars part → part.head?.any isCapital = true →
      Stops continuesName text → dottedName text = (kind, text) → Alone kind (part ++ text) := by
    intro part text lexical capital stops cut
    have head : (part ++ text).head? = part.head? := by
      obtain ⟨c, tail, rfl, _⟩ := LexicalChars.split lexical
      rfl
    apply name_alone (by rw [head]; exact lexical.1)
    unfold Piece.name
    rw [head, if_pos capital, takeWhile_stops lexical.2 stops, dropWhile_stops lexical.2 stops, cut]
  cases dotted with
  | last lexical capital => exact front lexical capital stops cut
  | more lexical capital later =>
    rw [List.append_assoc]
    exact front lexical capital (point_stops _) (later.cut stops cut)

theorem Dotted.proper (dotted : Dotted owner) : Alone .proper owner := by
  have alone : Alone .proper (owner ++ []) := dotted.alone nofun (dotted_none nofun)
  rwa [List.append_nil] at alone

theorem Dotted.qualified (dotted : Dotted owner) (lexical : LexicalChars name)
    (small : name.head?.any isCapital = false) : Alone .qualified (owner ++ '.' :: name) := by
  refine dotted.alone (point_stops name) ?_
  obtain ⟨c, tail, rfl, start, each⟩ := LexicalChars.split lexical
  have tail_whole : tail.takeWhile continuesName = tail := List.takeWhile_eq_self_iff.mpr each
  rw [dottedName, if_pos start, if_neg (by simpa using small), tail_whole]

end Names

/-! Numbers and strings -/

theorem decimal_char {c : Char} (digit : c.isDigit = true) :
    isDigit c = true ∧ decimalValue? c = some (c.toNat - '0'.toNat) := by
  have small : c.toNat < 128 := by
    simp only [Char.isDigit, Bool.and_eq_true, decide_eq_true_eq] at digit
    have upper : c.toNat ≤ 57 := digit.2
    omega
  simp [isDigit, decimalValue?, small, digit]

theorem decimal_chars (n : Nat) : ∀ c ∈ Nat.toDigits 10 n, c.isDigit = true :=
  fun _ => Nat.isDigit_of_mem_toDigits (by decide) (by decide)

theorem decimals_alone (n : Nat) : Alone .integer (Nat.toDigits 10 n) := by
  have each : ∀ c ∈ Nat.toDigits 10 n, isDigit c = true :=
    fun c member => (decimal_char (decimal_chars n c member)).1
  have whole : numeral (Nat.toDigits 10 n ++ []) = (.integer, Nat.toDigits 10 n) :=
    numeral_whole each nofun nofun
  rw [List.append_nil] at whole
  cases digits : Nat.toDigits 10 n with
  | nil => exact absurd digits Nat.toDigits_ne_nil
  | cons c tail =>
    rw [digits] at each whole
    refine ⟨c, tail, rfl, ?_⟩
    rw [first_digit (each c List.mem_cons_self), whole]

theorem name_no_number (text : List Char) : (name text).1 ≠ .number := by
  unfold name
  split
  · dsimp only
    rcases dotted_kind (text.dropWhile continuesName) with kind | kind <;> simp [kind]
  · dsimp only
    split <;> nofun

theorem Alone.number {text : List Char} (alone : Alone .number text) :
    (∃ c tail, text = c :: tail ∧ isDigit c = true) ∧ numeral text = (.number, text) := by
  obtain ⟨c, tail, rfl, taken⟩ := alone
  rcases first_ways taken with ⟨other, -⟩ | ⟨digit, whole⟩ | ⟨-, -, whole⟩ | ⟨_, other, -⟩
  · cases other
  · exact ⟨⟨c, tail, rfl, digit⟩, whole⟩
  · exact absurd (congrArg Prod.fst whole) (name_no_number _)
  · cases other

theorem Alone.pointed {text : List Char} (alone : Alone .number text) :
    ∃ whole fraction, text = whole ++ '.' :: fraction ∧ whole ≠ [] ∧ fraction ≠ [] ∧
      ∀ c ∈ whole ++ fraction, isDigit c = true := by
  obtain ⟨⟨c, tail, chars, digit⟩, cut⟩ := alone.number
  unfold numeral at cut
  dsimp only at cut
  split at cut
  · rename_i rest _
    split at cut
    · cases cut
    · rename_i some
      refine ⟨_, _, (congrArg Prod.snd cut).symm, by simp [chars, digit], by simpa using some,
        List.forall_mem_append.mpr ⟨?_, ?_⟩⟩ <;>
      · intro c member
        exact List.mem_takeWhile_imp member
  · cases cut

theorem of_decimals_digits (n : Nat) : ofDecimals (Nat.toDigits 10 n) = n := by
  have same : ofDecimals (Nat.toDigits 10 n) = Nat.ofDigitChars 10 (Nat.toDigits 10 n) 0 := by
    unfold ofDecimals Nat.ofDigitChars
    refine List.foldl_ext _ _ _ fun n c member => ?_
    rw [(decimal_char (decimal_chars _ c member)).2]
    rfl
  rw [same, Nat.ofDigitChars_ten_toDigits]

theorem decimals_read {n : Nat} (short : (Nat.toDigits 10 n).length ≤ digitLimit) :
    readNumeral (String.ofList (Nat.toDigits 10 n)) = .ok n := by
  have each : ∀ c ∈ Nat.toDigits 10 n, (decimalValue? c).isSome := by
    intro c member
    rw [(decimal_char (decimal_chars n c member)).2]
    rfl
  rw [read_numeral_of_decimals (by simp) (by simpa using each)
    (by simpa using short), String.toList_ofList, of_decimals_digits]

def escaped (c : Char) : List Char :=
  if c = '\\' then ['\\', '\\'] else if c = '"' then ['\\', '"'] else if c = '\n' then ['\\', 'n']
  else [c]

def quotedBody (value : List Char) : List Char := value.flatMap escaped ++ ['"']

theorem quoted_body (value : List Char) : Quoted (quotedBody value) ∧ '\n' ∉ quotedBody value ∧
    unescape (quotedBody value) = value := by
  induction value with
  | nil => exact ⟨.closes, by decide, rfl⟩
  | cons c rest ih =>
    obtain ⟨quoted, flat, means⟩ := ih
    have split : quotedBody (c :: rest) = escaped c ++ quotedBody rest := by
      rw [quotedBody, List.flatMap_cons, List.append_assoc]
      rfl
    rw [split]
    unfold escaped
    split
    · rename_i same
      subst same
      exact ⟨.escape '\\' quoted, by simpa using flat, congrArg (List.cons '\\') means⟩
    rename_i escape
    split
    · rename_i same
      subst same
      exact ⟨.escape '"' quoted, by simpa using flat, congrArg (List.cons '"') means⟩
    rename_i quote
    split
    · rename_i same
      subst same
      exact ⟨.escape 'n' quoted, by simpa using flat, congrArg (List.cons '\n') means⟩
    rename_i feed
    refine ⟨.plain quote feed escape quoted, by simpa [flat] using Ne.symm feed, ?_⟩
    rw [List.singleton_append, unescape_plain quote escape, means]

end Piece

end PureJs
