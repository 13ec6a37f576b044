import PureJs.Proofs.Js.Identifier
import PureJs.Proofs.Text.IdentifierChars
import PureJs.Proofs.Token.Spelling

/-!
Identifiers of JavaScript, as its standard has them. The name of a value becomes one unless it has a
character that counts as a numeral in the source only.
-/

namespace PureJs.Js

/-- The words that strict code reserves, and the two names that it must not bind. What is reserved
in modules and asynchronous functions alone does not count. -/
def strictReserved : List String := [
  "arguments", "break", "case", "catch", "class", "const", "continue", "debugger", "default",
  "delete", "do", "else", "enum", "eval", "export", "extends", "false", "finally", "for",
  "function", "if", "implements", "import", "in", "instanceof", "interface", "let", "new", "null",
  "package", "private", "protected", "public", "return", "static", "super", "switch", "this",
  "throw", "true", "try", "typeof", "var", "void", "while", "with", "yield"]

def beginsIdentifier (c : Char) : Bool := Text.isIdStart c || c = '_' || c = '$'

def continuesIdentifier (c : Char) : Bool := Text.isIdContinue c || c = '_' || c = '$'

structure IsIdentifier (text : String) : Prop where
  begins : text.toList.head?.any beginsIdentifier = true
  continues : ∀ c ∈ text.toList.tail, continuesIdentifier c = true
  free : text ∉ strictReserved

instance (text : String) : Decidable (IsIdentifier text) :=
  decidable_of_iff
    (text.toList.head?.any beginsIdentifier = true ∧
      text.toList.tail.all continuesIdentifier = true ∧ text ∉ strictReserved)
    ⟨fun ⟨begins, continues, free⟩ => ⟨begins, List.all_eq_true.mp continues, free⟩,
      fun ⟨begins, continues, free⟩ => ⟨begins, List.all_eq_true.mpr continues, free⟩⟩

theorem strict_reserved {word : String} (strict : word ∈ strictReserved) : word ∈ reserved := by
  have fewer : strictReserved.all (· ∈ reserved) = true := by decide +kernel
  simpa using List.all_eq_true.mp fewer word strict

def Passes (c : Char) : Prop := c = '\'' ∨ Text.isIdContinue c = true

theorem begins_continues {c : Char} (begins : beginsIdentifier c = true) :
    continuesIdentifier c = true := by
  simp only [beginsIdentifier, continuesIdentifier, Bool.or_eq_true] at begins ⊢
  exact begins.imp_left (Or.imp_left Text.id_start_continues)

theorem passes_iff {c : Char} (continues : Piece.continuesName c = true) :
    Passes c ↔ ∀ d ∈ spellChar c, continuesIdentifier d = true := by
  unfold Passes spellChar
  by_cases prime : c = '\''
  · subst prime
    have spelled : "$prime".toList.all continuesIdentifier = true := by decide +kernel
    simpa using List.all_eq_true.mp spelled
  · have dollar : c ≠ '$' := by
      rintro rfl
      rw [dollar_continues_no_name] at continues
      cases continues
    have underscore : Text.isIdContinue '_' = true := by decide +kernel
    simp only [prime, ↓reduceIte, false_or, List.mem_singleton, forall_eq, continuesIdentifier,
      Bool.or_eq_true, decide_eq_true_eq]
    constructor
    · exact fun inside => .inl (.inl inside)
    · rintro ((inside | rfl) | same)
      · exact inside
      · exact underscore
      · exact absurd same dollar

theorem plain_begins {c : Char} (plain : startsPlain c = true) : beginsIdentifier c = true := by
  simp only [startsPlain, beginsIdentifier, Bool.or_eq_true] at plain ⊢
  refine plain.imp_left (Or.imp_left fun alpha => ?_)
  have small : c.toNat < 128 := by
    rcases Bool.or_eq_true_iff.mp alpha with capital | lower
    · have bounds := of_decide_eq_true capital
      exact Nat.lt_of_le_of_lt bounds.2 (by decide)
    · have upper := of_decide_eq_true (Bool.and_eq_true_iff.mp lower).2
      exact Nat.lt_of_le_of_lt upper (by decide)
  have other : c ≠ Text.verticalTilde := by
    rintro rfl
    exact absurd small (by decide)
  simp [Text.isIdStart, Text.isLetter, small, alpha, other]

theorem start_begins {c : Char} (start : Piece.startsName c = true)
    (continues : continuesIdentifier c = true) : beginsIdentifier c = true := by
  simp only [Piece.startsName, continuesIdentifier, beginsIdentifier, Bool.or_eq_true,
    decide_eq_true_eq] at *
  rcases start with letter | same
  · exact continues.imp_left (Or.imp_left (Text.letter_starts_id letter))
  · exact .inl (.inr same)

section Lexical

variable {name : String} (lexical : Lexical name)
include lexical

theorem spelled_continues_iff :
    (∀ d ∈ (spellPrimes name).toList, continuesIdentifier d = true) ↔
      ∀ c ∈ name.toList, Passes c := by
  rw [spelled_chars, List.forall_mem_flatMap]
  exact forall₂_congr fun c member => (passes_iff (lexical.2 c member)).symm

theorem spelled_starts :
    ∃ c tail, (spellPrimes name).toList = c :: tail ∧ Piece.startsName c = true := by
  obtain ⟨c, tail, chars, start, -⟩ := Piece.LexicalChars.split lexical
  have prime : c ≠ '\'' := by
    rintro rfl
    rw [prime_starts_no_name] at start
    cases start
  refine ⟨c, tail.flatMap spellChar, ?_, start⟩
  rw [spelled_chars, chars, List.flatMap_cons, spellChar, if_neg prime]
  rfl

theorem spelled_begins_if (each : ∀ d ∈ (spellPrimes name).toList, continuesIdentifier d = true) :
    (spellPrimes name).toList.head?.any beginsIdentifier = true := by
  obtain ⟨c, tail, chars, start⟩ := spelled_starts lexical
  simpa [chars] using start_begins start (each c (by simp [chars]))

/-- The name of a value becomes an identifier just if each of its characters is a prime or can
stand in identifiers. -/
theorem identifier_legal_iff : IsIdentifier (identifier name) ↔ ∀ c ∈ name.toList, Passes c := by
  rw [← spelled_continues_iff lexical]
  unfold identifier
  dsimp only
  split
  · have marked : ("$$" ++ spellPrimes name).toList = '$' :: '$' :: (spellPrimes name).toList :=
      String.toList_append ..
    refine ⟨fun legal d member => ?_, fun each => ⟨by rw [marked]; rfl, ?_, ?_⟩⟩
    · exact legal.continues d (by simp [marked, member])
    · rw [marked, List.tail_cons, List.forall_mem_cons]
      exact ⟨by simp [continuesIdentifier], each⟩
    · have plain : strictReserved.all (·.toList.head? ≠ some '$') = true := by decide +kernel
      intro member
      have begins := List.all_eq_true.mp plain _ member
      rw [marked] at begins
      cases begins
  · rename_i free
    refine ⟨fun legal d member => ?_, fun each => ⟨spelled_begins_if lexical each, ?_, ?_⟩⟩
    · cases chars : (spellPrimes name).toList with
      | nil => simp [chars] at member
      | cons c tail =>
        have begins := legal.begins
        have later := legal.continues
        rw [chars] at member begins later
        rcases List.mem_cons.mp member with rfl | inside
        · exact begins_continues (by simpa using begins)
        · exact later d inside
    · exact fun d member => each d (List.mem_of_mem_tail member)
    · exact fun member => free (strict_reserved member)

end Lexical

example : IsIdentifier (identifier "yield") ∧ IsIdentifier (identifier "été'") ∧
    ¬IsIdentifier (identifier "x²") := by decide +kernel

end PureJs.Js
