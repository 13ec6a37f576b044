import PureJs.Js.Printer
import PureJs.Proofs.Js.DecimalLiterals
import PureJs.Proofs.Js.Grammar

/-!
Cutting a text of strict JavaScript into lexemes, with the blanks, names, decimal literals and
strings of its standard. Whatever has no place in the code of an expression is not cut: comments,
templates, names and strings with other escapes, numbers that begin with a point or have an
exponent, and a value that is returned from another line.
-/

namespace PureJs.Js

open Piece (Stops takeWhile_stops dropWhile_stops)

def comments : List String := ["//", "/*", "<!--", "-->"]

def signs : List String := comments ++ [
  ">>>=", "...", "===", "!==", "**=", "<<=", ">>=", ">>>", "&&=", "||=", "??=", "<=", ">=", "==",
  "!=", "**", "++", "--", "<<", ">>", "&&", "||", "??", "?.", "+=", "-=", "*=", "/=", "%=", "&=",
  "|=", "^=", "=>", "\x7b", "\x7d", "(", ")", "[", "]", ".", ";", ",", "<", ">", "+", "-", "*", "/",
  "%", "&", "|", "^", "!", "~", "?", ":", "="]

def blanks : List Char := [
  '\t', '\n', '\x0b', '\x0c', '\r', ' ', '\u00a0', '\u1680', '\u2000', '\u2001', '\u2002', '\u2003',
  '\u2004', '\u2005', '\u2006', '\u2007', '\u2008', '\u2009', '\u200a', '\u2028', '\u2029',
  '\u202f', '\u205f', '\u3000', '\ufeff']

def isBlank (c : Char) : Bool := c ∈ blanks

def continuesWord (c : Char) : Bool := continuesIdentifier c || c ∈ ['\u200c', '\u200d']

def Lexeme.text : Lexeme → String
  | word text | number text | string text | sign text => text

def sign? (text : List Char) : Option Lexeme :=
  match signs.find? (·.toList.isPrefixOf text) with
  | none => none
  | some sign =>
    if sign ∈ comments ||
        sign ∈ [".", "?."] && (text.drop sign.length).head?.any Char.isDigit then none
    else some (.sign sign)

def numeral (text : List Char) : List Char :=
  let whole := text.takeWhile Char.isDigit
  match text.dropWhile Char.isDigit with
  | '.' :: rest => whole ++ '.' :: rest.takeWhile Char.isDigit
  | _ => whole

instance (text : List Char) : Decidable (Unpadded text) :=
  inferInstanceAs (Decidable (_ → _))

/-- The number in front of a text. It has no zero in front of other digits, and no name follows it
at once. -/
def number? (text : List Char) : Option (List Char) :=
  let number := numeral text
  if Unpadded (text.takeWhile Char.isDigit) ∧
      (text.drop number.length).head?.any beginsIdentifier = false then some number
  else none

def escapes : List Char := ['"', '\'', '\\', 'b', 'f', 'n', 'r', 't', 'v']

def string? : List Char → Option (List Char)
  | [] => none
  | '"' :: _ => some ['"']
  | '\\' :: 'u' :: a :: b :: c :: d :: rest =>
    if [a, b, c, d].all fun digit => (Text.hexValue? digit).isSome then
      (string? rest).map (['\\', 'u', a, b, c, d] ++ ·)
    else none
  | '\\' :: c :: rest => if c ∈ escapes then (string? rest).map (['\\', c] ++ ·) else none
  | c :: rest => if c ∈ ['\\', '\n', '\r'] then none else (string? rest).map (c :: ·)

def lexeme? (c : Char) (rest : List Char) : Option Lexeme :=
  if c = '"' then (string? rest).map fun body => .string (String.ofList (c :: body))
  else if c.isDigit then (number? (c :: rest)).map fun digits => .number (String.ofList digits)
  else if beginsIdentifier c then
    let text := String.ofList (c :: rest.takeWhile continuesWord)
    if text = "return" && (rest.dropWhile continuesWord).takeWhile isBlank ≠ [' '] then none
    else some (.word text)
  else sign? (c :: rest)

def lex (text : List Char) : Option (List Lexeme) :=
  match text with
  | [] => some []
  | c :: rest =>
    if isBlank c then lex rest
    else
      match lexeme? c rest with
      | none => none
      | some lexeme => (lex (rest.drop (lexeme.text.length - 1))).map (lexeme :: ·)
termination_by text.length
decreasing_by
  · exact Nat.lt_succ_self _
  · exact Nat.lt_succ_of_le (List.drop_sublist _ rest).length_le

section Cutting

variable {c : Char} {tail rest : List Char}

theorem lex_blank (blank : isBlank c = true) (rest : List Char) :
    lex (c :: rest) = lex rest := by
  rw [lex, if_pos blank]

theorem lex_lexeme {lexeme : Lexeme} (visible : isBlank c = false)
    (chars : lexeme.text.toList = c :: tail) (cut : lexeme? c (tail ++ rest) = some lexeme) :
    lex (c :: (tail ++ rest)) = (lex rest).map (lexeme :: ·) := by
  have length : lexeme.text.length - 1 = tail.length := by
    rw [← String.length_toList, chars]
    rfl
  rw [lex, if_neg (by simp [visible]), cut]
  simp only [length, List.drop_left]

theorem lex_refused (visible : isBlank c = false) (cut : lexeme? c rest = none) :
    lex (c :: rest) = none := by
  rw [lex, if_neg (by simp [visible]), cut]

theorem lex_stopped (lexeme : Lexeme) (visible : isBlank c = false)
    (chars : lexeme.text.toList = c :: tail) (stuck : lex rest = none)
    (cut : lexeme? c (tail ++ rest) = none ∨ lexeme? c (tail ++ rest) = some lexeme) :
    lex (c :: (tail ++ rest)) = none := by
  rcases cut with none | some
  · exact lex_refused visible none
  · rw [lex_lexeme visible chars some, stuck, Option.map_none]

end Cutting

/-! Texts that are cut off whole, or cannot be cut -/

/-- In front of any text of the kind, the characters are the lexemes if they are legal, and cannot
be cut if they are not. -/
structure Cuts (next : List Char → Prop) (text : String) (legal : Prop) (lexemes : List Lexeme) :
    Prop where
  whole : legal → ∀ rest, next rest → lex (text.toList ++ rest) = (lex rest).map (lexemes ++ ·)
  stuck : ¬legal → ∀ rest, next rest → lex (text.toList ++ rest) = none

abbrev Spells (next : List Char → Prop) (text : String) (lexemes : List Lexeme) : Prop :=
  Cuts next text True lexemes

def Anything (_ : List Char) : Prop := True

def closers : List Char := [' ', '\n', ')', ']', '\x7d', ',', ';', ':', '(', '[']

def Closing (text : List Char) : Prop := ∀ c ∈ text.head?, c ∈ closers

def Parted (text : List Char) : Prop := text.head? = some ' '

section Spelling

variable {next behind : List Char → Prop} {text other : String} {legal licit : Prop}
  {lexemes more : List Lexeme}

theorem Spells.of_lex (same : ∀ rest, next rest →
    lex (text.toList ++ rest) = (lex rest).map (lexemes ++ ·)) : Spells next text lexemes :=
  ⟨fun _ => same, fun none => absurd trivial none⟩

theorem Cuts.append (front : Cuts next text legal lexemes) (back : Cuts behind other licit more)
    (meets : ∀ rest, next (other.toList ++ rest)) :
    Cuts behind (text ++ other) (legal ∧ licit) (lexemes ++ more) := by
  constructor
  · rintro ⟨here, later⟩ rest goes
    rw [String.toList_append, List.append_assoc, front.whole here _ (meets rest),
      back.whole later rest goes, Option.map_map]
    simp [Function.comp_def]
  · intro illegal rest goes
    rw [String.toList_append, List.append_assoc]
    by_cases here : legal
    · rw [front.whole here _ (meets rest),
        back.stuck (fun later => illegal ⟨here, later⟩) rest goes, Option.map_none]
    · exact front.stuck here _ (meets rest)

theorem Cuts.before (cuts : Cuts Anything text legal lexemes) : Cuts next text legal lexemes :=
  ⟨fun here rest _ => cuts.whole here rest trivial, fun none rest _ => cuts.stuck none rest trivial⟩

theorem Cuts.alone (cuts : Cuts Closing text legal lexemes) :
    (legal → lex text.toList = some lexemes) ∧ (¬legal → lex text.toList = none) := by
  have nothing : lex [] = some [] := by rw [lex]
  have whole := fun here => cuts.whole here [] nofun
  have stuck := fun none => cuts.stuck none [] nofun
  simp only [List.append_nil, nothing, Option.map_some] at whole stuck
  exact ⟨whole, stuck⟩

theorem closing_begun {c : Char} {tail : List Char} (chars : other.toList = c :: tail)
    (closer : c ∈ closers) (rest : List Char) : Closing (other.toList ++ rest) := by
  rw [chars]
  rintro d ⟨⟩
  exact closer

theorem spells_nothing : Spells next "" [] := .of_lex fun _ _ => by simp

theorem spells_blank (blank : text.toList.all isBlank = true) : Spells next text [] := by
  refine .of_lex fun rest _ => ?_
  simp only [List.nil_append, Option.map_id']
  generalize text.toList = chars at blank
  induction chars with
  | nil => rfl
  | cons c tail ih =>
    rw [List.all_cons, Bool.and_eq_true] at blank
    rw [List.cons_append, lex_blank blank.1, ih blank.2]

theorem spells_pad (level : Nat) : Spells next (pad level) [] := by
  apply spells_blank
  rw [pad, String.toList_ofList, List.all_eq_true]
  intro c member
  rw [List.eq_of_mem_replicate member]
  decide

theorem spells_lexeme (lexeme : Lexeme) {c : Char} {tail : List Char}
    (chars : lexeme.text.toList = c :: tail) (visible : isBlank c = false)
    (cut : ∀ rest, next rest → lexeme? c (tail ++ rest) = some lexeme) :
    Spells next lexeme.text [lexeme] := by
  refine .of_lex fun rest here => ?_
  rw [chars, List.cons_append, lex_lexeme visible chars (cut rest here)]
  rfl

/-! Signs -/

theorem sign_heads : ∀ c ∈ signs.filterMap (·.toList.head?), isBlank c = false ∧ c ≠ '"' ∧
    c.isDigit = false ∧ beginsIdentifier c = false := by
  have all : (signs.filterMap (·.toList.head?)).all (fun c =>
      !isBlank c && c != '"' && !c.isDigit && !beginsIdentifier c) = true := by decide +kernel
  intro c member
  simpa [and_assoc] using List.all_eq_true.mp all c member

theorem spells_sign {text : String} {c : Char} {tail : List Char} (listed : text ∈ signs)
    (chars : text.toList = c :: tail)
    (cut : ∀ rest, next rest → sign? (c :: (tail ++ rest)) = some (.sign text)) :
    Spells next text [.sign text] := by
  obtain ⟨visible, plain, digit, begins⟩ :=
    sign_heads c (List.mem_filterMap.mpr ⟨text, listed, by rw [chars]; rfl⟩)
  refine spells_lexeme (.sign text) chars visible fun rest here => ?_
  unfold lexeme?
  rw [if_neg plain, if_neg (by simp [digit]), if_neg (by simp [begins]), cut rest here]

def brackets : List String := ["(", ")", "[", "]", "\x7b", "\x7d", ",", ";", ":"]

theorem spells_bracket {text : String} (bracket : text ∈ brackets) :
    Spells next text [.sign text] := by
  simp only [brackets, List.mem_cons, List.not_mem_nil, or_false] at bracket
  rcases bracket with rfl | rfl | rfl | rfl | rfl | rfl | rfl | rfl | rfl <;>
    exact spells_sign (by decide) rfl fun _ _ => rfl

theorem spells_parted_sign {text : String} (sign : text ∈ ["?", "="]) :
    Spells Parted text [.sign text] := by
  simp only [List.mem_cons, List.not_mem_nil, or_false] at sign
  rcases sign with rfl | rfl <;>
  · refine spells_sign (by decide) rfl ?_
    rintro (_ | ⟨c, rest⟩) ⟨⟩
    rfl

theorem spells_operator (op : Operator) : Spells Parted op.text [.sign op.text] := by
  cases op <;>
  · refine spells_sign (by decide) rfl ?_
    rintro (_ | ⟨c, rest⟩) ⟨⟩
    rfl

theorem spells_minus : Spells (fun rest => ∃ c behind, rest = c :: behind ∧ c ≠ '-' ∧ c ≠ '=') "-"
    [.sign "-"] := by
  refine spells_sign (by decide) rfl ?_
  rintro _ ⟨c, behind, rfl, minus, equal⟩
  show sign? ('-' :: c :: behind) = some (.sign "-")
  simp [sign?, signs, comments, List.isPrefixOf, Ne.symm minus, Ne.symm equal]

theorem spells_point :
    Spells (fun rest => ∃ c behind, rest = c :: behind ∧ c ≠ '.' ∧ c.isDigit = false) "."
      [.sign "."] := by
  refine spells_sign (by decide) rfl ?_
  rintro _ ⟨c, behind, rfl, point, digit⟩
  show sign? ('.' :: c :: behind) = some (.sign ".")
  have first : (".".length : Nat) = 1 := rfl
  simp [sign?, signs, comments, List.isPrefixOf, Ne.symm point, first, digit]

/-! Characters that begin no lexeme -/

theorem apart_from {wanted : Char → Bool} {c d : Char} (here : wanted c = true)
    (none : wanted d = false) : c ≠ d := by
  rintro rfl
  rw [here] at none
  cases none

theorem unlisted {wanted : Char → Bool} {chars : List Char} (none : chars.all (!wanted ·) = true)
    {c : Char} (here : wanted c = true) : c ∉ chars := by
  intro member
  have other := List.all_eq_true.mp none c member
  simp [here] at other

theorem visible_if {wanted : Char → Bool} (none : blanks.all (!wanted ·) = true) {c : Char}
    (here : wanted c = true) : isBlank c = false :=
  decide_eq_false (unlisted none here)

def figures : List Char := ['0', '1', '2', '3', '4', '5', '6', '7', '8', '9']

theorem figure_listed {c : Char} (digit : c.isDigit = true) : c ∈ figures := by
  have all : ∀ n : Fin 128, (Char.ofNat n).isDigit = true → Char.ofNat n ∈ figures := by decide
  have small : c.toNat < 128 := by
    simp only [Char.isDigit, Bool.and_eq_true, decide_eq_true_eq] at digit
    have upper : c.toNat ≤ 57 := digit.2
    omega
  have here := all ⟨c.toNat, small⟩
  rw [Char.ofNat_toNat] at here
  exact here digit

theorem no_figure {wanted : Char → Bool} (none : figures.all (!wanted ·) = true) {c : Char}
    (here : wanted c = true) : c.isDigit = false :=
  Bool.eq_false_iff.mpr fun digit => unlisted none here (figure_listed digit)

theorem begins_no_figure {c : Char} (begins : beginsIdentifier c = true) : c.isDigit = false :=
  no_figure (by decide +kernel) begins

theorem figure_continues {c : Char} (digit : c.isDigit = true) : continuesIdentifier c = true := by
  have all : figures.all continuesIdentifier = true := by decide +kernel
  exact List.all_eq_true.mp all c (figure_listed digit)

structure Sticks (c : Char) : Prop where
  visible : isBlank c = false
  refused : ∀ rest, lexeme? c rest = none

theorem Sticks.stuck {c : Char} (sticks : Sticks c) (rest : List Char) : lex (c :: rest) = none :=
  lex_refused sticks.visible (sticks.refused rest)

def heads : List Char := '"' :: signs.filterMap (·.toList.head?)

theorem sign_refused {c : Char} (plain : c ∉ heads) (rest : List Char) :
    sign? (c :: rest) = none := by
  have none : signs.find? (·.toList.isPrefixOf (c :: rest)) = none := by
    rw [List.find?_eq_none]
    intro sign member begun
    refine plain (List.mem_cons_of_mem _ (List.mem_filterMap.mpr ⟨sign, member, ?_⟩))
    have some : ∀ sign ∈ signs, sign.toList ≠ [] := by decide
    obtain ⟨d, tail, chars⟩ := List.exists_cons_of_ne_nil (some sign member)
    rw [chars, List.isPrefixOf_cons_cons, Bool.and_eq_true, beq_iff_eq] at begun
    rw [chars, List.head?_cons, begun.1]
  rw [sign?, none]

theorem sticks_if {wanted : Char → Bool} (none : (blanks ++ heads).all (!wanted ·) = true)
    {c : Char} (here : wanted c = true) (digit : c.isDigit = false)
    (begins : beginsIdentifier c = false) : Sticks c := by
  rw [List.all_append, Bool.and_eq_true] at none
  have plain : c ∉ heads := unlisted none.2 here
  refine ⟨visible_if none.1 here, fun rest => ?_⟩
  unfold lexeme?
  rw [if_neg (fun quote : c = '"' => plain (quote ▸ List.mem_cons_self)), if_neg (by simp [digit]),
    if_neg (by simp [begins]), sign_refused plain]

theorem digit_sticks {c : Char} (digit : Text.isDigit c = true) (other : c.isDigit = false) :
    Sticks c :=
  sticks_if (by decide +kernel) digit other
    (Bool.eq_false_iff.mpr fun begins => by
      simp only [beginsIdentifier, Bool.or_eq_true, decide_eq_true_eq] at begins
      rcases begins with (start | rfl) | rfl
      · rw [Text.id_start_no_digit start] at digit
        cases digit
      · exact absurd digit (by decide)
      · exact absurd digit (by decide))

theorem name_sticks {c : Char} (continues : Piece.continuesName c = true ∨ c = '$')
    (none : continuesWord c = false) : Sticks c := by
  have inside : continuesIdentifier c = false := by
    rw [continuesWord, Bool.or_eq_false_iff] at none
    exact none.1
  rcases continues with name | rfl
  · exact sticks_if (by decide +kernel) name
      (Bool.eq_false_iff.mpr fun digit => by
        rw [figure_continues digit] at inside
        cases inside)
      (Bool.eq_false_iff.mpr fun begins => by
        rw [begins_continues begins] at inside
        cases inside)
  · exact absurd inside (by decide +kernel)

end Spelling

end PureJs.Js
