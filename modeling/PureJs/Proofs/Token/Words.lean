import PureJs.Proofs.Token.Rows

/-!
Words on a line of their own with a space between them, and where their tokens stand in a text of
other lines.
-/

namespace PureJs

namespace Position

def past (place : Position) (part : List Char) : Position := place.after (part ++ [' '])

end Position

namespace Piece

def ofWords : List (TokenKind × List Char) → List Piece
  | [] => []
  | [(kind, part)] => [lexeme kind part]
  | (kind, part) :: next :: more => lexeme kind part :: gap [' '] :: ofWords (next :: more)

theorem lead_words {kind : TokenKind} {part : List Char} {more : List (TokenKind × List Char)} :
    lead (ofWords ((kind, part) :: more)) = some kind := by
  cases more <;> rfl

theorem words_cuts {words : List (TokenKind × List Char)}
    (each : ∀ word ∈ words, Alone word.1 word.2) :
    Cuts ([' '].intercalate (words.map Prod.snd)) (ofWords words) := by
  induction words with
  | nil => exact .nil
  | cons word more ih =>
    obtain ⟨kind, part⟩ := word
    rw [List.forall_mem_cons] at each
    obtain ⟨c, tail, rfl, taken⟩ := each.1
    cases more with
    | nil =>
      rw [← List.append_nil tail] at taken
      have cut := Cuts.cons taken (by simp [Piece.text]) .nil
      simpa [List.intercalate_singleton, ofWords] using cut
    | cons next more =>
      have later := ih each.2
      have space : Clear (' ' :: [' '].intercalate ((next :: more).map Prod.snd)) := by
        rintro d ⟨⟩
        rfl
      have taken : first c (tail ++ []) = .ok (.lexeme kind (c :: tail)) := by simpa using taken
      have gap : CutGap [' '] ([' '].intercalate ((next :: more).map Prod.snd)) :=
        .spaces rfl (List.forall_mem_nil _) (later.stops lead_words)
      have whole := Cuts.cons (first_again taken (.clear space)) rfl
        (.cons (first_gap_iff.mpr gap) rfl later)
      simpa [List.intercalate_cons_cons, ofWords] using whole

end Piece

namespace Token

/-- The tokens of words that stand on a line from the place on, with a space between them. -/
inductive Laid : Position → List (TokenKind × List Char) → List Token → Prop
  | nil {place : Position} : Laid place [] []
  | cons {place : Position} {kind : TokenKind} {part : List Char} {t : Token}
    {words : List (TokenKind × List Char)} {tokens : List Token} (stands : t.place = place)
    (is : t.kind = kind) (value : t.value = Piece.value kind part)
    (later : Laid (place.past part) words tokens) : Laid place ((kind, part) :: words) (t :: tokens)

theorem Laid.moved {place : Position} {words : List (TokenKind × List Char)} {tokens : List Token}
    (laid : Laid place words tokens) (lines offset : Nat) :
    Laid (place.below lines) words (tokens.map (Token.moved lines offset)) := by
  induction laid with
  | nil => exact .nil
  | @cons place kind part t words tokens stands is value later ih =>
    rw [Position.past, ← Position.below_after] at ih
    exact .cons (congrArg (Position.below lines) stands) is value ih

def beyond (place : Position) (words : List (TokenKind × List Char)) : Position :=
  words.foldl (fun place word => place.past word.2) place

theorem Laid.split {place : Position} {front back : List (TokenKind × List Char)}
    {tokens : List Token} (laid : Laid place (front ++ back) tokens) :
    ∃ before behind, tokens = before ++ behind ∧ Laid place front before ∧
      Laid (beyond place front) back behind := by
  induction front generalizing place tokens with
  | nil => exact ⟨[], tokens, rfl, .nil, laid⟩
  | cons word front ih =>
    cases laid with
    | @cons _ kind part t _ tokens stands is value later =>
      obtain ⟨before, behind, rfl, first, second⟩ := ih later
      exact ⟨t :: before, behind, rfl, .cons stands is value first, second⟩

theorem locate_words {words : List (TokenKind × List Char)}
    (flat : ∀ word ∈ words, '\n' ∉ word.2) (place : Position) (offset line : Nat) :
    ∃ tokens finish stop,
      locate place offset line (Piece.ofWords words) = tokens ++ [endOfInput finish stop] ∧
        Laid place words tokens ∧ (∀ t ∈ tokens.head?, t.opensLine = decide (place.line ≠ line)) ∧
        ∀ t ∈ tokens.tail, t.opensLine = false := by
  induction words generalizing place offset line with
  | nil => exact ⟨[], place, offset, rfl, .nil, nofun, nofun⟩
  | cons word more ih =>
    obtain ⟨kind, part⟩ := word
    rw [List.forall_mem_cons] at flat
    have here : (place.past part).line = place.line := by
      apply Position.after_flat
      simpa using flat.1
    cases more with
    | nil =>
      refine ⟨[_], _, _, rfl, .cons rfl rfl rfl .nil, ?_, nofun⟩
      rintro t ⟨⟩
      rfl
    | cons next more =>
      obtain ⟨tokens, finish, stop, split, laid, opens, inline⟩ :=
        ih flat.2 (place.past part) (offset + part.length + 1) place.line
      rw [Position.past, Position.after_append] at split
      refine ⟨_ :: tokens, finish, stop, congrArg (List.cons _) split, .cons rfl rfl rfl laid, ?_,
        ?_⟩
      · rintro t ⟨⟩
        rfl
      · cases laid with
        | @cons _ _ _ t _ others =>
          rw [List.tail_cons, List.forall_mem_cons]
          exact ⟨by simpa [here] using opens t rfl, inline⟩

theorem locate_first {pieces : List Piece} {place : Position} {offset line : Nat}
    (above : line < place.line) :
    ∀ t ∈ (locate place offset line pieces).head?, t.opensLine = true := by
  induction pieces generalizing place offset with
  | nil =>
    rintro t ⟨⟩
    rfl
  | cons piece rest ih =>
    cases piece with
    | gap text =>
      have further := place.after_line text
      exact ih (Nat.lt_of_lt_of_le above further)
    | lexeme kind text =>
      rintro t ⟨⟩
      simp only [decide_eq_true_eq]
      omega

theorem scan_first {text : List Char} {tokens : List Token} (scanned : scan text = .ok tokens) :
    ∀ t ∈ tokens.head?, t.opensLine = true := by
  obtain ⟨pieces, _, rfl⟩ := scan_cuts scanned
  exact locate_first (Nat.zero_lt_one)

theorem scan_line {words : List (TokenKind × List Char)} {front back : List Char}
    {above below : List Token} (each : ∀ word ∈ words, Piece.Alone word.1 word.2)
    (flat : ∀ word ∈ words, '\n' ∉ word.2) (scanned : scan front = .ok above)
    (more : scan back = .ok below) :
    ∃ row after finish,
      scan (front ++ '\n' :: ([' '].intercalate (words.map Prod.snd) ++ '\n' :: back)) =
          .ok (above.dropLast ++ (row ++ after ++ [finish])) ∧
        Laid (Position.start.below (lineCount front)) words row ∧
        (∀ t ∈ row.tail, t.opensLine = false) ∧
        List.Forall₂ (fun t other => t.tag = other.tag ∧ t.column = other.column ∧
          t.opensLine = other.opensLine) after below.dropLast := by
  obtain ⟨tokens, stop, offset, split, laid, opens, inline⟩ :=
    locate_words flat Position.start 0 0
  have line : scan ([' '].intercalate (words.map Prod.snd)) =
      .ok (tokens ++ [endOfInput stop offset]) := by
    unfold scan
    rw [Piece.cuts_iff.mpr (Piece.words_cuts each), ← split]
  have last := scan_join line more
  obtain ⟨others, finish, length, rfl⟩ := scan_ends more
  have whole := scan_join scanned last
  simp only [List.dropLast_concat, List.map_append, List.map_map, List.map_cons, List.map_nil]
    at whole ⊢
  refine ⟨_, _, _, by rw [whole, List.append_assoc], laid.moved _ _, ?_, ?_⟩
  · intro t member
    rw [← List.map_tail] at member
    obtain ⟨source, inside, rfl⟩ := List.mem_map.mp member
    exact inline source inside
  · rw [List.forall₂_map_left_iff, List.forall₂_same]
    exact fun t _ => ⟨rfl, rfl, rfl⟩

end Token

end PureJs
