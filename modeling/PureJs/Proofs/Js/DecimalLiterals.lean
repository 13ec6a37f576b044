import Mathlib.Algebra.Field.Rat
import PureJs.Proofs.Token.Spelling

/-!
The decimal literals that strict code of JavaScript can have, with the numbers that they denote. The
grammar is that of its standard, with separators and exponents; of the digits and the point that the
source writes, it leaves out zeros in front of others and all digits but those of ASCII.
-/

namespace PureJs.Js

open Text

def digitValue (c : Char) : Nat := c.toNat - '0'.toNat

/-- Digits with how many they are and the number they denote. One separator can stand between
two of them. -/
inductive Digits : List Char → Nat → Nat → Prop
  | one {c : Char} (digit : c.isDigit = true) : Digits [c] 1 (digitValue c)
  | more {front : List Char} {count value : Nat} {c : Char} (digits : Digits front count value)
    (digit : c.isDigit = true) : Digits (front ++ [c]) (count + 1) (10 * value + digitValue c)
  | parted {front : List Char} {count value : Nat} {c : Char} (digits : Digits front count value)
    (digit : c.isDigit = true) :
    Digits (front ++ ['_', c]) (count + 1) (10 * value + digitValue c)

inductive Whole : List Char → Nat → Prop
  | zero : Whole ['0'] 0
  | digits {text : List Char} {count value : Nat} (digits : Digits text count value)
    (begins : text.head? ≠ some '0') : Whole text value

inductive Exponent : List Char → Int → Prop
  | none : Exponent [] 0
  | plain {e : Char} {text : List Char} {count value : Nat} (letter : e = 'e' ∨ e = 'E')
    (digits : Digits text count value) : Exponent (e :: text) value
  | plus {e : Char} {text : List Char} {count value : Nat} (letter : e = 'e' ∨ e = 'E')
    (digits : Digits text count value) : Exponent (e :: '+' :: text) value
  | minus {e : Char} {text : List Char} {count value : Nat} (letter : e = 'e' ∨ e = 'E')
    (digits : Digits text count value) : Exponent (e :: '-' :: text) (-value)

/-- The text is a decimal literal that denotes the number. -/
inductive DecimalLiteral : List Char → ℚ → Prop
  | whole {front power : List Char} {value : Nat} {k : Int} (whole : Whole front value)
    (exponent : Exponent power k) : DecimalLiteral (front ++ power) (value * 10 ^ k)
  | pointed {front power : List Char} {value : Nat} {k : Int} (whole : Whole front value)
    (exponent : Exponent power k) : DecimalLiteral (front ++ '.' :: power) (value * 10 ^ k)
  | fraction {front back power : List Char} {value count part : Nat} {k : Int}
    (whole : Whole front value) (digits : Digits back count part) (exponent : Exponent power k) :
    DecimalLiteral (front ++ '.' :: (back ++ power)) ((value + part / 10 ^ count) * 10 ^ k)
  | bare {back power : List Char} {count part : Nat} {k : Int} (digits : Digits back count part)
    (exponent : Exponent power k) :
    DecimalLiteral ('.' :: (back ++ power)) (part / 10 ^ count * 10 ^ k)

structure Figures (text : List Char) : Prop where
  some : text ≠ []
  each : ∀ c ∈ text, c.isDigit = true

def Unpadded (text : List Char) : Prop := text.head? = some '0' → text = ['0']

section Grammar

variable {text : List Char} {count value : Nat} {k : Int}

theorem of_decimals_end (front : List Char) {c : Char} (digit : c.isDigit = true) :
    ofDecimals (front ++ [c]) = 10 * ofDecimals front + digitValue c := by
  simp [ofDecimals, (Piece.decimal_char digit).2, digitValue]

theorem Digits.chars (digits : Digits text count value) :
    ∀ c ∈ text, c.isDigit = true ∨ c = '_' := by
  induction digits with
  | one digit => simpa using .inl digit
  | more _ digit ih | parted _ digit ih => simpa [or_imp, forall_and, digit] using ih

theorem Digits.no_point (digits : Digits text count value) : '.' ∉ text := by
  intro point
  rcases digits.chars '.' point with digit | same
  · exact absurd digit (by decide)
  · exact absurd same (by decide)

theorem Digits.unparted (digits : Digits text count value) (none : '_' ∉ text) :
    Figures text ∧ count = text.length ∧ value = ofDecimals text := by
  induction digits with
  | @one c digit =>
    refine ⟨⟨List.cons_ne_nil c [], by simpa using digit⟩, rfl, ?_⟩
    simpa [ofDecimals] using (of_decimals_end [] digit).symm
  | @more front count value c digits digit ih =>
    obtain ⟨figures, rfl, rfl⟩ := ih fun member => none (List.mem_append_left _ member)
    refine ⟨⟨by simp, ?_⟩, by simp, (of_decimals_end front digit).symm⟩
    exact List.forall_mem_append.mpr ⟨figures.each, by simpa using digit⟩
  | parted => exact absurd (by simp) none

theorem Figures.digits (figures : Figures text) : Digits text text.length (ofDecimals text) := by
  obtain ⟨some, each⟩ := figures
  induction text using List.reverseRecOn with
  | nil => exact absurd rfl some
  | append_singleton front c ih =>
    rw [List.forall_mem_append, List.forall_mem_singleton] at each
    rw [of_decimals_end front each.2, List.length_append, List.length_singleton]
    by_cases first : front = []
    · subst first
      simpa [ofDecimals] using Digits.one each.2
    · exact .more (ih first each.1) each.2

theorem whole_iff (unparted : '_' ∉ text) :
    Whole text value ↔ Figures text ∧ Unpadded text ∧ value = ofDecimals text := by
  constructor
  · intro whole
    cases whole with
    | zero => exact ⟨⟨by simp, by simp⟩, fun _ => rfl, rfl⟩
    | digits digits begins =>
      obtain ⟨figures, -, same⟩ := digits.unparted unparted
      exact ⟨figures, fun zero => absurd zero begins, same⟩
  · rintro ⟨figures, unpadded, rfl⟩
    by_cases zero : text.head? = some '0'
    · rw [unpadded zero]
      exact .zero
    · exact .digits figures.digits zero

theorem Whole.no_point (whole : Whole text value) : '.' ∉ text := by
  cases whole with
  | zero => decide
  | digits digits => exact digits.no_point

theorem Exponent.no_point (exponent : Exponent text k) : '.' ∉ text := by
  cases exponent with
  | none => exact List.not_mem_nil
  | plain letter digits | plus letter digits | minus letter digits =>
    rcases letter with rfl | rfl <;> simpa using digits.no_point

theorem Exponent.of_digits (exponent : Exponent text k) (each : ∀ c ∈ text, isDigit c = true) :
    text = [] ∧ k = 0 := by
  cases exponent with
  | none => exact ⟨rfl, rfl⟩
  | plain letter | plus letter | minus letter =>
    have digit := each _ List.mem_cons_self
    rcases letter with rfl | rfl <;> exact absurd digit (by decide)

end Grammar

section Source

variable {text front back : List Char} {q : ℚ}

theorem digits_no_sign (each : ∀ c ∈ text, isDigit c = true) : '_' ∉ text ∧ '.' ∉ text :=
  ⟨fun member => absurd (each _ member) (by decide),
    fun member => absurd (each _ member) (by decide)⟩

/-- Digits of the source are a decimal literal just if they are of ASCII, with no zero in front. -/
theorem whole_literal_iff (each : ∀ c ∈ text, isDigit c = true) :
    DecimalLiteral text q ↔ Figures text ∧ Unpadded text ∧ q = ofDecimals text := by
  obtain ⟨unparted, pointless⟩ := digits_no_sign each
  constructor
  · intro literal
    cases literal with
    | whole whole exponent =>
      obtain ⟨rfl, rfl⟩ := exponent.of_digits fun c member => each c (by simp [member])
      rw [List.append_nil] at unparted ⊢
      obtain ⟨figures, unpadded, rfl⟩ := (whole_iff unparted).mp whole
      exact ⟨figures, unpadded, by simp⟩
    | pointed | fraction | bare => exact absurd (by simp) pointless
  · rintro ⟨figures, unpadded, rfl⟩
    have whole := (whole_iff unparted).mpr ⟨figures, unpadded, rfl⟩
    simpa using DecimalLiteral.whole whole .none

/-- Digits of the source with a point between them are a decimal literal just if they are of ASCII,
with no zero in front. -/
theorem pointed_literal_iff (some : front ≠ []) (behind : back ≠ [])
    (each : ∀ c ∈ front, isDigit c = true) (later : ∀ c ∈ back, isDigit c = true) :
    DecimalLiteral (front ++ '.' :: back) q ↔ Figures front ∧ Figures back ∧ Unpadded front ∧
      q = ofDecimals front + ofDecimals back / 10 ^ back.length := by
  obtain ⟨unparted, pointless⟩ := digits_no_sign each
  obtain ⟨apart, none⟩ := digits_no_sign later
  constructor
  · intro literal
    generalize same : front ++ '.' :: back = text at literal
    cases literal with
    | whole whole exponent =>
      have point : '.' ∉ _ := fun member => (List.mem_append.mp member).elim whole.no_point
        exponent.no_point
      exact absurd (same ▸ by simp) point
    | pointed whole exponent =>
      obtain ⟨-, -, rfl⟩ := (List.append_cons_inj_of_notMem pointless none).mp same
      exact absurd (exponent.of_digits later).1 behind
    | fraction whole digits exponent =>
      obtain ⟨rfl, -, rfl⟩ := (List.append_cons_inj_of_notMem pointless none).mp same
      obtain ⟨rfl, rfl⟩ := exponent.of_digits fun c member => later c (by simp [member])
      rw [List.append_nil] at apart ⊢
      obtain ⟨figures, unpadded, rfl⟩ := (whole_iff unparted).mp whole
      obtain ⟨others, rfl, rfl⟩ := digits.unparted apart
      exact ⟨figures, others, unpadded, by simp⟩
    | bare =>
      obtain ⟨c, tail, rfl⟩ := List.exists_cons_of_ne_nil some
      obtain ⟨rfl, -⟩ := List.cons.inj same
      exact absurd List.mem_cons_self pointless
  · rintro ⟨figures, others, unpadded, rfl⟩
    have whole := (whole_iff unparted).mpr ⟨figures, unpadded, rfl⟩
    simpa using DecimalLiteral.fraction whole others.digits .none

end Source

/-! Numbers that are written out -/

theorem digits_unpadded (n : Nat) : Unpadded (Nat.toDigits 10 n) := by
  induction n using Nat.strong_induction_on with
  | _ n ih =>
    intro zero
    by_cases small : n < 10
    · rw [Nat.toDigits_of_lt_base small] at zero ⊢
      exact congrArg (fun c => [c]) (Option.some.inj zero)
    · have front := Nat.toDigits_of_base_le (by decide) (Nat.not_lt.mp small)
      obtain ⟨c, tail, chars⟩ := List.exists_cons_of_ne_nil (@Nat.toDigits_ne_nil (n / 10) 10)
      have first : (Nat.toDigits 10 (n / 10)).head? = some '0' := by
        rw [front, chars] at zero
        rw [chars]
        exact zero
      -- digits that are a zero alone are those of zero, which has no digit behind it
      have none : n / 10 = 0 := by
        have value := Piece.of_decimals_digits (n / 10)
        rw [ih _ (by omega) first] at value
        exact value.symm
      omega

theorem written_literal_iff (n : Nat) (q : ℚ) :
    DecimalLiteral (toString n).toList q ↔ q = n := by
  have chars : (toString n).toList = Nat.toDigits 10 n := by simp [toString, Nat.repr]
  have figures : Figures (Nat.toDigits 10 n) :=
    ⟨Nat.toDigits_ne_nil, Piece.decimal_chars n⟩
  rw [chars, whole_literal_iff fun c member => (Piece.decimal_char (figures.each c member)).1,
    Piece.of_decimals_digits]
  exact ⟨fun known => known.2.2, fun same => ⟨figures, digits_unpadded n, same⟩⟩

end PureJs.Js
