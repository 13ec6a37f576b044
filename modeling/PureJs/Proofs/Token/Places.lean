import PureJs.Proofs.Token.Names

/-!
No lexeme is empty. So a token that does not open its line stands to the right of another one, and
never in the first column.
-/

namespace PureJs

namespace Piece

theorem take_some {continues : Char → Bool} {c : Char} (rest : List Char)
    (here : continues c = true) : (c :: rest).takeWhile continues ≠ [] := by
  simp [List.takeWhile_cons_of_pos here]

theorem numeral_some {c : Char} {rest : List Char} (digit : Text.isDigit c = true) :
    (numeral (c :: rest)).2 ≠ [] := by
  have whole := take_some rest digit
  unfold numeral
  dsimp only
  split
  · split
    · exact whole
    · simp [whole]
  · exact whole

theorem name_some {c : Char} {rest : List Char} (start : startsName c = true) :
    (name (c :: rest)).2 ≠ [] := by
  have segment := take_some rest (starts_continues start)
  unfold name
  split
  · simp [segment]
  · dsimp only
    split <;> exact segment

theorem mark_some (mark : Mark) : mark.chars ≠ [] := by
  cases mark <;> simp [Mark.chars]

theorem first_some {c : Char} {rest text : List Char} {kind : TokenKind}
    (taken : first c rest = .ok (.lexeme kind text)) : text ≠ [] := by
  unfold first at taken
  split at taken
  · cases taken
  split at taken
  · cases taken
  split at taken
  · split at taken <;> cases taken
  split at taken
  · split at taken <;> cases taken
    exact List.cons_ne_nil _ _
  split at taken
  · rename_i digit
    cases taken
    exact numeral_some digit
  split at taken
  · rename_i start
    cases taken
    exact name_some start
  · split at taken <;> cases taken
    exact mark_some _

end Piece

namespace Position

theorem after_cases (place : Position) (text : List Char) :
    place.line < (place.after text).line ∨
      (place.after text).line = place.line ∧
        (place.after text).column = place.column + text.length := by
  induction text generalizing place with
  | nil => simp [after]
  | cons c rest ih =>
    have step : place.after (c :: rest) = (place.next c).after rest := rfl
    rw [step]
    have later := ih (place.next c)
    by_cases feed : c = '\n'
    · have line : (place.next c).line = place.line + 1 := by simp [next, feed]
      omega
    · have line : (place.next c).line = place.line := by simp [next, feed]
      have column : (place.next c).column = place.column + 1 := by simp [next, feed]
      simp only [List.length_cons]
      omega

def Before (place other : Position) : Prop :=
  place.line < other.line ∨ place.line = other.line ∧ place.column < other.column

theorem before_after (place : Position) {text : List Char} (some : text ≠ []) :
    place.Before (place.after text) := by
  have moved := place.after_cases text
  have long := List.length_pos_iff.mpr some
  unfold Before
  omega

theorem after_not_before (place : Position) (text : List Char) :
    ¬(place.after text).Before place := by
  have moved := place.after_cases text
  unfold Before
  omega

theorem Before.of_not_before {place mid other : Position} (first : place.Before mid)
    (second : ¬other.Before mid) : place.Before other := by
  unfold Before at first second ⊢
  omega

theorem not_before_trans {place mid other : Position} (first : ¬mid.Before place)
    (second : ¬other.Before mid) : ¬other.Before place := by
  unfold Before at first second ⊢
  omega

theorem Before.ne {place other : Position} (before : place.Before other) : place ≠ other := by
  rintro rfl
  unfold Before at before
  omega

end Position

namespace Token

/-- Behind a token that starts on the line `line`, no place on that line is in the first column. -/
def Beyond (line : Nat) (place : Position) : Prop :=
  line ≤ place.line ∧ (place.line = line → 1 < place.column)

theorem Beyond.after {line : Nat} {place : Position} (beyond : Beyond line place)
    (text : List Char) : Beyond line (place.after text) := by
  unfold Beyond at beyond ⊢
  have moved := place.after_cases text
  omega

theorem beyond_lexeme {place : Position} {text : List Char} (some : text ≠ [])
    (column : 1 ≤ place.column) : Beyond place.line (place.after text) := by
  unfold Beyond
  have moved := place.after_cases text
  have long := List.length_pos_iff.mpr some
  omega

theorem after_column {place : Position} (column : 1 ≤ place.column) (text : List Char) :
    1 ≤ (place.after text).column := by
  induction text generalizing place with
  | nil => exact column
  | cons c rest ih =>
    apply ih
    unfold Position.next
    split
    · exact Nat.le_refl 1
    · exact Nat.le_succ_of_le column

theorem locate_columns {pieces : List Piece}
    (some : ∀ kind text, .lexeme kind text ∈ pieces → text ≠ []) {place : Position}
    {offset line : Nat} (beyond : Beyond line place) (column : 1 ≤ place.column) :
    ∀ token ∈ locate place offset line pieces, token.opensLine = false → 1 < token.column := by
  induction pieces generalizing place offset line with
  | nil => simp [locate, endOfInput]
  | cons piece rest ih =>
    have others : ∀ kind text, .lexeme kind text ∈ rest → text ≠ [] :=
      fun kind text member => some kind text (List.mem_cons_of_mem piece member)
    cases piece with
    | gap text => exact ih others (beyond.after text) (after_column column text)
    | lexeme kind text =>
      intro token member inside
      rcases List.mem_cons.mp member with same | later
      · subst token
        have line : place.line = line := by simpa using inside
        exact beyond.2 line
      · have full := some kind text (by simp)
        exact ih others (beyond_lexeme full column) (after_column column text) token later inside

theorem locate_in_order {pieces : List Piece}
    (some : ∀ kind text, .lexeme kind text ∈ pieces → text ≠ []) (place : Position)
    (offset line : Nat) :
    (∀ token ∈ locate place offset line pieces, ¬token.place.Before place) ∧
      (locate place offset line pieces).Pairwise (·.place.Before ·.place) := by
  induction pieces generalizing place offset line with
  | nil =>
    refine ⟨?_, List.pairwise_singleton _ _⟩
    intro token member
    rw [List.mem_singleton.mp member]
    exact place.after_not_before []
  | cons piece rest ih =>
    have others : ∀ kind text, .lexeme kind text ∈ rest → text ≠ [] :=
      fun kind text member => some kind text (List.mem_cons_of_mem piece member)
    cases piece with
    | gap text =>
      obtain ⟨behind, ordered⟩ := ih others (place.after text) (offset + text.length) line
      exact ⟨fun token member => Position.not_before_trans (place.after_not_before text)
        (behind token member), ordered⟩
    | lexeme kind text =>
      have full := some kind text List.mem_cons_self
      obtain ⟨behind, ordered⟩ := ih others (place.after text) (offset + text.length) place.line
      rw [locate, List.forall_mem_cons, List.pairwise_cons]
      refine ⟨⟨place.after_not_before [], fun token member => ?_⟩, fun token member => ?_, ordered⟩
      · exact Position.not_before_trans (place.after_not_before text) (behind token member)
      · exact (place.before_after full).of_not_before (behind token member)

theorem scan_in_order {text : List Char} {tokens : List Token} (scanned : scan text = .ok tokens) :
    tokens.Pairwise (·.place.Before ·.place) := by
  have some := Piece.ofText_lexemes (fun _ _ _ _ => Piece.first_some) text
  unfold scan at scanned
  split at scanned
  · rename_i pieces cut
    cases scanned
    rw [cut] at some
    exact (locate_in_order some _ _ _).2
  · cases scanned

theorem scan_columns {text : List Char} {tokens : List Token} (scanned : scan text = .ok tokens) :
    ∀ token ∈ tokens, token.opensLine = false → 1 < token.column := by
  have some := Piece.ofText_lexemes (fun _ _ _ _ => Piece.first_some) text
  unfold scan at scanned
  split at scanned
  · rename_i pieces cut
    cases scanned
    rw [cut] at some
    apply locate_columns some
    · simp [Beyond, Position.start]
    · exact Nat.le_refl 1
  · cases scanned

theorem scan_integers {text : List Char} {tokens : List Token} (scanned : scan text = .ok tokens) :
    ∀ token ∈ tokens, token.kind = .integer → token.value.toList ≠ [] := by
  intro token member integer
  have made := scan_lexemes scanned (fun _ _ _ _ => Piece.first_some) token member
  rcases made with ⟨finish, stop, rfl⟩ | ⟨part, some, value⟩
  · cases integer
  · simpa [value, integer, Piece.value] using some

end Token

end PureJs
