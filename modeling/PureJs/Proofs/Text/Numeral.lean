import Mathlib.Algebra.Group.Nat.Defs
import Mathlib.Data.List.TakeWhile
import PureJs.Text.Numeral

/-!
Which numerals can be read: those of decimal digits alone, of which there is one at least and not
more than the limit. The number then has no more digits than the numeral, so that it can be written
out again.
-/

namespace PureJs.Text

theorem decimal_value_lt {c : Char} {value : Nat} (known : decimalValue? c = some value) :
    value < 10 := by
  unfold decimalValue? at known
  split at known
  · split at known
    · rename_i digit
      cases known
      have upper : c.toNat ≤ 57 := by
        simp only [Char.isDigit, Bool.and_eq_true, decide_eq_true_eq] at digit
        exact digit.2
      omega
    · cases known
  · obtain ⟨start, found, rfl⟩ := Option.map_eq_some_iff.mp known
    have within := List.find?_some found
    simp only [Bool.and_eq_true, decide_eq_true_eq] at within
    omega

theorem of_decimals_lt {digits : List Char} (known : ∀ c ∈ digits, (decimalValue? c).isSome) :
    ofDecimals digits < 10 ^ digits.length := by
  unfold ofDecimals
  suffices ∀ start bound, start < bound →
      digits.foldl (fun n c => 10 * n + (decimalValue? c).getD 0) start <
        bound * 10 ^ digits.length by
    simpa using this 0 1 Nat.zero_lt_one
  induction digits with
  | nil => simp
  | cons c rest ih =>
    rw [List.forall_mem_cons] at known
    intro start bound below
    obtain ⟨value, here⟩ := Option.isSome_iff_exists.mp known.1
    have small := decimal_value_lt here
    have next := ih known.2 (10 * start + value) (10 * bound) (by omega)
    simpa [here, Nat.pow_succ, Nat.mul_assoc, Nat.mul_comm, Nat.mul_left_comm] using next

theorem read_numeral_ok {text : String} {n : Nat} (read : readNumeral text = .ok n) :
    (∀ c ∈ text.toList, (decimalValue? c).isSome) ∧ text.toList.length ≤ digitLimit ∧
      n = ofDecimals text.toList := by
  unfold readNumeral at read
  dsimp only at read
  split at read
  · cases read
  · rename_i short
    split at read
    · cases read
    · rename_i all
      rw [not_or, Nat.not_lt] at all
      have front := List.takeWhile_prefix (l := text.toList) fun c => (decimalValue? c).isSome
      have same := front.eq_of_length_le all.1
      cases read
      rw [same] at short ⊢
      exact ⟨List.takeWhile_eq_self_iff.mp same, Nat.le_of_not_lt short, rfl⟩

theorem read_numeral_lt {text : String} {n : Nat} (read : readNumeral text = .ok n) :
    n < 10 ^ digitLimit := by
  obtain ⟨decimal, short, rfl⟩ := read_numeral_ok read
  exact Nat.lt_of_lt_of_le (of_decimals_lt decimal)
    (Nat.pow_le_pow_right (by decide) short)

theorem read_numeral_of_decimals {text : String} (some : text.toList ≠ [])
    (decimal : ∀ c ∈ text.toList, (decimalValue? c).isSome)
    (short : text.toList.length ≤ digitLimit) :
    readNumeral text = .ok (ofDecimals text.toList) := by
  have all : text.toList.takeWhile (fun c => (decimalValue? c).isSome) = text.toList :=
    List.takeWhile_eq_self_iff.mpr decimal
  unfold readNumeral
  simp [all, Nat.not_lt.mpr short, some]

end PureJs.Text
