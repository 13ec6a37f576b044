import Mathlib.Data.List.DropRight
import Mathlib.Data.List.Forall2
import PureJs.Text.Blank
import PureJs.Text.Lines

/-!
Two notions of the lines of a text. Cut at line feeds and carriage returns alone, a text has the
same lines as cut at all line ends, up to blanks at their ends, just if it has no other line end in
front of its last character.
-/

namespace PureJs.Text

def isPlainEnd (c : Char) : Bool := c = '\n' || c = '\r'

/-- The pieces without the last one, if that is empty. -/
def closed (pieces : List (List Char)) : List (List Char) :=
  if pieces.getLast? = some [] then pieces.dropLast else pieces

/-- The pieces of a text between its line feeds and carriage returns, of which two together are one
end. Behind an end at the very end there is none. -/
def betweenLineEnds (text : List Char) : List (List Char) :=
  closed ((unifyLineEnds text).splitOn '\n')

def prepend (c : Char) : List (List Char) → List (List Char)
  | [] => [[c]]
  | line :: others => (c :: line) :: others

section Shape

variable {c : Char} {rest : List Char} {pieces : List (List Char)}

theorem closed_cons (first : List Char) (some : pieces ≠ []) :
    closed (first :: pieces) = first :: closed pieces := by
  obtain ⟨second, others, rfl⟩ := List.exists_cons_of_ne_nil some
  unfold closed
  rw [List.getLast?_cons_cons, List.dropLast_cons_cons]
  split <;> rfl

theorem closed_prepend (some : pieces ≠ []) :
    closed (pieces.modifyHead (c :: ·)) = prepend c (closed pieces) := by
  obtain ⟨first, others, rfl⟩ := List.exists_cons_of_ne_nil some
  rw [List.modifyHead_cons]
  cases others with
  | nil => cases first <;> rfl
  | cons second others =>
    rw [closed_cons _ (List.cons_ne_nil _ _), closed_cons _ (List.cons_ne_nil _ _)]
    rfl

theorem between_of_feed {text : List Char}
    (unified : unifyLineEnds text = '\n' :: unifyLineEnds rest) :
    betweenLineEnds text = [] :: betweenLineEnds rest := by
  rw [betweenLineEnds, unified, List.splitOn_eq_splitOnP, List.splitOnP_cons_eq_if_modifyHead,
    if_pos (by simp)]
  exact closed_cons [] (List.splitOnP_ne_nil _ _)

theorem between_none : betweenLineEnds [] = [] := rfl

theorem between_both : betweenLineEnds ('\r' :: '\n' :: rest) = [] :: betweenLineEnds rest :=
  between_of_feed rfl

theorem lines_both : lines ('\r' :: '\n' :: rest) = [] :: lines rest := rfl

variable (single : ∀ more, c :: rest ≠ '\r' :: '\n' :: more)
include single

theorem between_plain (ends : isPlainEnd c = true) :
    betweenLineEnds (c :: rest) = [] :: betweenLineEnds rest := by
  apply between_of_feed
  simp only [isPlainEnd, Bool.or_eq_true, decide_eq_true_eq] at ends
  rcases ends with rfl | rfl
  · rfl
  · cases rest with
    | nil => rfl
    | cons d more =>
      rw [unifyLineEnds]
      rintro _ ⟨⟩
      exact single more rfl

theorem between_inner (inner : isPlainEnd c = false) :
    betweenLineEnds (c :: rest) = prepend c (betweenLineEnds rest) := by
  simp only [isPlainEnd, Bool.or_eq_false_iff, decide_eq_false_iff_not] at inner
  have unified : unifyLineEnds (c :: rest) = c :: unifyLineEnds rest := by
    rw [unifyLineEnds]
    · rintro more rfl
      exact absurd rfl inner.2
    · exact fun same => absurd same inner.2
  rw [betweenLineEnds, unified, List.splitOn_eq_splitOnP, List.splitOnP_cons_eq_if_modifyHead,
    if_neg (by simpa using inner.1)]
  exact closed_prepend (List.splitOnP_ne_nil _ _)

theorem lines_end (ends : isLineEnd c = true) : lines (c :: rest) = [] :: lines rest := by
  rw [lines, if_pos ends]
  exact fun more first second => single more (by rw [first, second])

theorem lines_inner (inner : isLineEnd c = false) :
    lines (c :: rest) = prepend c (lines rest) := by
  rw [lines, if_neg (by simp [inner])]
  · cases lines rest <;> rfl
  · exact fun more first second => single more (by rw [first, second])

end Shape

theorem by_line_ends {holds : List Char → Prop} (none : holds [])
    (both : ∀ rest, holds rest → holds ('\r' :: '\n' :: rest))
    (one : ∀ c rest, (∀ more, c :: rest ≠ '\r' :: '\n' :: more) → holds rest → holds (c :: rest))
    (text : List Char) : holds text := by
  induction text using unifyLineEnds.induct with
  | case1 => exact none
  | case2 rest ih => exact both rest ih
  | case3 rest other ih =>
    exact one '\r' rest (fun more same => other more (List.cons.inj same).2) ih
  | case4 c rest _ other ih => exact one c rest (fun _ same => other (List.cons.inj same).1) ih

theorem plain_end_is_end {c : Char} (ends : isPlainEnd c = true) : isLineEnd c = true := by
  simp only [isPlainEnd, Bool.or_eq_true, decide_eq_true_eq] at ends
  rcases ends with rfl | rfl <;> decide

theorem line_end_blank {c : Char} (ends : isLineEnd c = true) : isBlank c = true := by
  have all : ['\n', '\r', '\x0b', '\x0c', '\x1c', '\x1d', '\x1e', '\x85', '\u2028', '\u2029'].all
      isBlank = true := by decide
  exact List.all_eq_true.mp all c (of_decide_eq_true ends)

section Trim

def Alike (left right : List Char) : Prop := trimEnd left = trimEnd right

theorem trim_append_trim (front text : List Char) :
    trimEnd (front ++ trimEnd text) = trimEnd (front ++ text) := by
  simp only [trimEnd, List.reverse_append, List.reverse_reverse, List.dropWhile_append,
    List.dropWhile_idempotent]

theorem Alike.append {left right : List Char} (alike : Alike left right) (front : List Char) :
    Alike (front ++ left) (front ++ right) := by
  rw [Alike, ← trim_append_trim front left, alike, trim_append_trim]

end Trim

/-- The text has no line end but line feeds and carriage returns in front of its last character. -/
def PlainEnds (text : List Char) : Prop :=
  ∀ c ∈ text.dropLast, isLineEnd c = true → isPlainEnd c = true

instance (text : List Char) : Decidable (PlainEnds text) :=
  List.decidableBAll (fun c => isLineEnd c = true → isPlainEnd c = true) text.dropLast

section Lines

variable {c : Char} {rest text : List Char}

theorem plain_ends_cons (some : rest ≠ []) :
    PlainEnds (c :: rest) ↔ (isLineEnd c = true → isPlainEnd c = true) ∧ PlainEnds rest := by
  obtain ⟨d, more, rfl⟩ := List.exists_cons_of_ne_nil some
  exact List.forall_mem_cons

theorem plain_ends_single (c : Char) : PlainEnds [c] := nofun

theorem plain_ends_tail (plain : PlainEnds (c :: rest)) : PlainEnds rest := by
  cases rest with
  | nil => nofun
  | cons d more => exact ((plain_ends_cons (List.cons_ne_nil d more)).mp plain).2

theorem plain_end_cons (ends : isPlainEnd c = true) (plain : PlainEnds rest) :
    PlainEnds (c :: rest) := by
  cases rest with
  | nil => exact plain_ends_single c
  | cons d more => exact (plain_ends_cons (List.cons_ne_nil d more)).mpr ⟨fun _ => ends, plain⟩

theorem prepend_alike {left right : List (List Char)} (alike : List.Forall₂ Alike left right) :
    List.Forall₂ Alike (prepend c left) (prepend c right) := by
  cases alike with
  | nil => exact .cons rfl .nil
  | cons first others => exact .cons (first.append [c]) others

theorem lines_alike (plain : PlainEnds text) :
    List.Forall₂ Alike (lines text) (betweenLineEnds text) := by
  induction text using by_line_ends with
  | none => exact .nil
  | both rest ih =>
    rw [lines_both, between_both]
    exact .cons rfl (ih (plain_ends_tail (plain_ends_tail plain)))
  | one c rest single ih =>
    have later := ih (plain_ends_tail plain)
    cases ends : isPlainEnd c with
    | true =>
      rw [lines_end single (plain_end_is_end ends), between_plain single ends]
      exact .cons rfl later
    | false =>
      rw [between_inner single ends]
      cases inner : isLineEnd c with
      | false =>
        rw [lines_inner single inner]
        exact prepend_alike later
      | true =>
        rw [lines_end single inner]
        cases rest with
        | nil =>
          have blank := line_end_blank inner
          exact .cons (by simp [Alike, trimEnd, blank]) .nil
        | cons d more =>
          have only := ((plain_ends_cons (List.cons_ne_nil d more)).mp plain).1 inner
          rw [ends] at only
          cases only

theorem prepend_length (c : Char) (pieces : List (List Char)) :
    (prepend c pieces).length = max 1 pieces.length := by
  cases pieces with
  | nil => rfl
  | cons first others => simp [prepend]

theorem between_positive (some : text ≠ []) : 0 < (betweenLineEnds text).length := by
  induction text using by_line_ends with
  | none => exact absurd rfl some
  | both rest _ => simp [between_both]
  | one c rest single _ =>
    cases ends : isPlainEnd c with
    | true => simp [between_plain single ends]
    | false =>
      rw [between_inner single ends, prepend_length]
      exact Nat.lt_of_lt_of_le Nat.zero_lt_one (Nat.le_max_left 1 _)

theorem lines_more (text : List Char) :
    (betweenLineEnds text).length ≤ (lines text).length ∧
      ((betweenLineEnds text).length = (lines text).length → PlainEnds text) := by
  induction text using by_line_ends with
  | none => exact ⟨Nat.le_refl 0, fun _ => nofun⟩
  | both rest ih =>
    rw [lines_both, between_both, List.length_cons, List.length_cons]
    refine ⟨Nat.succ_le_succ ih.1, fun same => ?_⟩
    exact plain_end_cons rfl (plain_end_cons rfl (ih.2 (Nat.succ.inj same)))
  | one c rest single ih =>
    cases ends : isPlainEnd c with
    | true =>
      rw [lines_end single (plain_end_is_end ends), between_plain single ends, List.length_cons,
        List.length_cons]
      exact ⟨Nat.succ_le_succ ih.1, fun same => plain_end_cons ends (ih.2 (Nat.succ.inj same))⟩
    | false =>
      rw [between_inner single ends, prepend_length]
      by_cases last : rest = []
      · subst last
        have once : (lines [c]).length = 1 := by
          cases inner : isLineEnd c with
          | true => exact congrArg List.length (lines_end single inner)
          | false => exact congrArg List.length (lines_inner single inner)
        exact ⟨by rw [once, between_none]; rfl, fun _ => plain_ends_single c⟩
      have some := between_positive last
      cases inner : isLineEnd c with
      | true =>
        rw [lines_end single inner, List.length_cons]
        exact ⟨by omega, fun same => by omega⟩
      | false =>
        rw [lines_inner single inner, prepend_length]
        refine ⟨by omega, fun same => (plain_ends_cons last).mpr ⟨fun outer => ?_, ih.2 (by omega)⟩⟩
        rw [inner] at outer
        cases outer

end Lines

end PureJs.Text
