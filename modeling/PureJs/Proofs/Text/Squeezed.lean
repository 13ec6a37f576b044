import Mathlib.Data.List.SplitBy
import Mathlib.Data.List.TakeWhile
import PureJs.Text.Blank

/-!
The words of a text, put together with one space between them, are the text with every run of blanks
made one space.
-/

namespace PureJs.Text

/-- The text with every run of blanks made one space. When a blank stands before the text, a run at
its beginning is left out. -/
def squeeze (behind : Bool) : List Char → List Char
  | [] => []
  | c :: rest =>
    if isBlank c then (if behind then squeeze true rest else ' ' :: squeeze true rest)
    else c :: squeeze false rest

theorem squeeze_head {text : List Char} (visible : ∀ c ∈ text.head?, isBlank c = false) :
    squeeze true text = squeeze false text := by
  cases text with
  | nil => rfl
  | cons c rest =>
    have here : isBlank c = false := visible c rfl
    rw [squeeze, squeeze, here]
    rfl

theorem squeeze_behind {c : Char} (visible : isBlank c = false) (front text : List Char)
    (behind : Bool) :
    squeeze behind (front ++ c :: text) = squeeze behind (front ++ [c]) ++ squeeze false text := by
  induction front generalizing behind with
  | nil => simp [squeeze, visible]
  | cons d rest ih =>
    rw [List.cons_append, List.cons_append, squeeze, squeeze]
    split
    · split
      · exact ih true
      · rw [ih true, List.cons_append]
    · rw [ih false, List.cons_append]

theorem squeeze_blank {text : List Char} {behind : Bool} :
    ∀ c ∈ squeeze behind text, isBlank c = true → c = ' ' := by
  induction text generalizing behind with
  | nil => nofun
  | cons d rest ih =>
    rw [squeeze]
    split
    · split
      · exact ih
      · rw [List.forall_mem_cons]
        exact ⟨fun _ => rfl, ih⟩
    · rename_i visible
      rw [List.forall_mem_cons]
      exact ⟨fun blank => absurd blank visible, ih⟩

structure Spaced (text : List Char) : Prop where
  spaces : ∀ c ∈ text, isBlank c = true → c = ' '
  apart : text.IsChain fun a b => ¬(isBlank a = true ∧ isBlank b = true)

theorem spaced_cons {c : Char} {rest : List Char} : Spaced (c :: rest) ↔
    (isBlank c = true → c = ' ' ∧ ∀ d ∈ rest.head?, isBlank d = false) ∧ Spaced rest := by
  constructor
  · rintro ⟨spaces, apart⟩
    rw [List.forall_mem_cons] at spaces
    rw [List.isChain_cons] at apart
    refine ⟨fun blank => ⟨spaces.1 blank, fun d next => ?_⟩, spaces.2, apart.2⟩
    simpa [blank] using apart.1 d next
  · rintro ⟨here, spaces, apart⟩
    constructor
    · rw [List.forall_mem_cons]
      exact ⟨fun blank => (here blank).1, spaces⟩
    · rw [List.isChain_cons]
      refine ⟨fun d next both => ?_, apart⟩
      have visible := (here both.1).2 d next
      rw [both.2] at visible
      cases visible

theorem squeeze_length (text : List Char) (behind : Bool) :
    (squeeze behind text).length ≤ text.length := by
  induction text generalizing behind with
  | nil => exact Nat.le_refl 0
  | cons c rest ih =>
    rw [squeeze]
    split
    · split
      · exact Nat.le_succ_of_le (ih true)
      · exact Nat.succ_le_succ (ih true)
    · exact Nat.succ_le_succ (ih false)

theorem squeeze_same {text : List Char} {behind : Bool} : squeeze behind text = text ↔
    Spaced text ∧ (behind = true → ∀ c ∈ text.head?, isBlank c = false) := by
  induction text generalizing behind with
  | nil => exact iff_of_true rfl ⟨⟨nofun, .nil⟩, nofun⟩
  | cons c rest ih =>
    rw [squeeze, spaced_cons]
    cases blank : isBlank c with
    | false => simp [blank, ih]
    | true =>
      cases behind with
      | true =>
        have short := squeeze_length rest true
        refine iff_of_false (fun same => ?_) (by simp [blank])
        rw [if_pos rfl, if_pos rfl] at same
        rw [same, List.length_cons] at short
        omega
      | false =>
        simp only [if_true, Bool.false_eq_true, if_false, List.cons.injEq, ih, true_implies,
          false_implies, and_true]
        constructor
        · rintro ⟨rfl, spaced, visible⟩
          exact ⟨⟨rfl, visible⟩, spaced⟩
        · rintro ⟨⟨rfl, visible⟩, spaced⟩
          exact ⟨rfl, spaced, visible⟩
instance (text : List Char) : Decidable (Spaced text) :=
  decidable_of_iff (squeeze false text = text) (by simp [squeeze_same])

section Runs

variable {run text : List Char} {behind blank : Bool}

theorem squeeze_blanks (each : ∀ c ∈ run, isBlank c = true) :
    squeeze true (run ++ text) = squeeze true text := by
  induction run with
  | nil => rfl
  | cons c rest ih =>
    rw [List.forall_mem_cons] at each
    rw [List.cons_append, squeeze, if_pos each.1, if_pos rfl, ih each.2]

theorem squeeze_word (some : run ≠ []) (each : ∀ c ∈ run, isBlank c = false) :
    squeeze behind (run ++ text) = run ++ squeeze false text := by
  induction run generalizing behind with
  | nil => exact absurd rfl some
  | cons c rest ih =>
    rw [List.forall_mem_cons] at each
    rw [List.cons_append, squeeze, if_neg (by simp [each.1])]
    cases rest with
    | nil => rfl
    | cons d more => rw [ih (List.cons_ne_nil d more) each.2, ← List.cons_append]

theorem split_run (some : run ≠ []) (each : ∀ c ∈ run, isBlank c = blank)
    (stops : ∀ c ∈ text.head?, isBlank c = !blank) :
    (run ++ text).splitBy (fun a b => isBlank a == isBlank b) =
      run :: text.splitBy fun a b => isBlank a == isBlank b := by
  have alike : List.IsChain (fun a b => (isBlank a == isBlank b) = true) run := by
    apply List.Pairwise.isChain
    apply List.pairwise_of_forall_mem_list
    intro a here b there
    rw [each a here, each b there]
    exact beq_self_eq_true blank
  rw [List.splitBy_append, List.splitBy_of_isChain some alike, List.singleton_append]
  intro a last b first
  rw [each a (List.mem_of_getLast? last), stops b first]
  cases blank <;> rfl

theorem words_blanks (each : ∀ c ∈ run, isBlank c = true)
    (stops : ∀ c ∈ text.head?, isBlank c = false) : words (run ++ text) = words text := by
  cases run with
  | nil => rfl
  | cons c rest =>
    have none : ¬(c :: rest).any (!isBlank ·) = true := by simpa using each
    unfold words
    rw [split_run (List.cons_ne_nil c rest) each stops]
    exact List.filter_cons_of_neg none

theorem words_word (some : run ≠ []) (each : ∀ c ∈ run, isBlank c = false)
    (stops : ∀ c ∈ text.head?, isBlank c = true) : words (run ++ text) = run :: words text := by
  obtain ⟨c, rest, rfl⟩ := List.exists_cons_of_ne_nil some
  have full : (c :: rest).any (!isBlank ·) = true := by simp [each c List.mem_cons_self]
  unfold words
  rw [split_run some each stops]
  exact List.filter_cons_of_pos full

theorem words_none (none : words text = []) : ∀ c ∈ text, isBlank c = true := by
  intro c member
  rw [← List.flatten_splitBy (fun a b => isBlank a == isBlank b) text, List.mem_flatten] at member
  obtain ⟨run, inside, here⟩ := member
  have blank := List.filter_eq_nil_iff.mp none run inside
  simp only [List.any_eq_true, not_exists, not_and] at blank
  simpa using blank c here

end Runs

theorem first_word {text : List Char} (last : ∀ c ∈ text.getLast?, isBlank c = false)
    (some : text ≠ []) :
    ∃ run word rest, text = run ++ (word ++ rest) ∧ (∀ c ∈ run, isBlank c = true) ∧ word ≠ [] ∧
      (∀ c ∈ word, isBlank c = false) ∧ ∀ c ∈ rest.head?, isBlank c = true := by
  have whole := List.takeWhile_append_dropWhile (p := isBlank) (l := text)
  have later := List.takeWhile_append_dropWhile (p := (!isBlank ·)) (l := text.dropWhile isBlank)
  refine ⟨text.takeWhile isBlank, (text.dropWhile isBlank).takeWhile (!isBlank ·),
    (text.dropWhile isBlank).dropWhile (!isBlank ·), by rw [later, whole],
    fun c member => List.mem_takeWhile_imp member, ?_, ?_, ?_⟩
  · cases rest : text.dropWhile isBlank with
    | nil =>
      rw [List.dropWhile_eq_nil_iff] at rest
      have member := List.getLast_mem some
      have blank := rest _ member
      rw [last _ (List.getLast?_eq_some_getLast some)] at blank
      cases blank
    | cons c more =>
      have found := List.head?_dropWhile_not isBlank text
      rw [rest] at found
      simp only [List.head?_cons] at found
      rw [List.takeWhile_cons_of_pos (by simpa using found)]
      exact List.cons_ne_nil _ _
  · intro c member
    simpa using List.mem_takeWhile_imp member
  · intro c next
    have found := List.head?_dropWhile_not (!isBlank ·) (text.dropWhile isBlank)
    rw [Option.mem_def.mp next] at found
    simpa using found

theorem words_squeezed {text : List Char} (last : ∀ c ∈ text.getLast?, isBlank c = false) :
    [' '].intercalate (words text) = squeeze true text := by
  induction length : text.length using Nat.strongRecOn generalizing text with
  | ind n ih =>
    by_cases empty : text = []
    · subst empty
      rfl
    · obtain ⟨run, word, rest, rfl, blanks, some, each, stops⟩ := first_word last empty
      have begins : ∀ c ∈ (word ++ rest).head?, isBlank c = false := by
        obtain ⟨d, more, rfl⟩ := List.exists_cons_of_ne_nil some
        intro c next
        cases next
        exact each d List.mem_cons_self
      rw [words_blanks blanks begins, squeeze_blanks blanks, words_word some each stops,
        squeeze_word some each]
      cases rest with
      | nil => simp [words, squeeze, List.intercalate_singleton]
      | cons c more =>
        have blank := stops c rfl
        have ends : ∀ d ∈ (c :: more).getLast?, isBlank d = false := by
          simpa [List.getLast?_append] using last
        have shorter : (c :: more).length < n := by
          have long := List.length_pos_iff.mpr some
          simp only [List.length_append, List.length_cons] at length ⊢
          omega
        have rest := ih _ shorter ends rfl
        cases others : words (c :: more) with
        | nil =>
          have final := ends _ (List.getLast?_eq_some_getLast (List.cons_ne_nil c more))
          rw [words_none others _ (List.getLast_mem _)] at final
          cases final
        | cons next words =>
          rw [others, squeeze, if_pos blank, if_pos rfl] at rest
          rw [List.intercalate_cons_cons, rest, squeeze, if_pos blank]
          simp

end PureJs.Text
