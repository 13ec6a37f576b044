import PureJs.Proofs.Syntax.Taken
import PureJs.Proofs.Token.Rows
import PureJs.Syntax.ModuleParser

/-!
A type is taken from the program up to a line that does not continue it. Its text goes from the
first of its tokens to the last, with every run of blanks made one space: one line that begins with
a lexeme.
-/

namespace PureJs

open Text

namespace Token

theorem locate_reach {pieces : List Piece} {place : Position} {offset line : Nat}
    {before after : List Token} {t : Token}
    (split : locate place offset line pieces = before ++ t :: after) (goes : after ≠ []) :
    ∃ front part back, pieces = front ++ .lexeme t.kind part :: back ∧
      Piece.lexemes front = before.map tag ∧ t.value = Piece.value t.kind part ∧
      t.start = offset + (front.flatMap Piece.text).length ∧ t.stop = t.start + part.length ∧
      ∃ place line, after = locate place t.stop line back := by
  induction pieces generalizing place offset line before with
  | nil =>
    rw [locate] at split
    cases before with
    | nil => exact absurd (List.cons.inj split).2.symm goes
    | cons other before => simp at split
  | cons piece rest ih =>
    have length : ∀ front : List Piece, offset + ((piece :: front).flatMap Piece.text).length =
        offset + piece.text.length + (front.flatMap Piece.text).length := by
      intro front
      rw [List.flatMap_cons, List.length_append, Nat.add_assoc]
    cases piece with
    | gap text =>
      obtain ⟨front, part, back, rfl, tags, value, start, others⟩ := ih split
      exact ⟨.gap text :: front, part, back, rfl, tags, value, start.trans (length front).symm,
        others⟩
    | lexeme kind text =>
      rw [locate] at split
      cases before with
      | nil =>
        obtain ⟨rfl, rfl⟩ := List.cons.inj split
        exact ⟨[], text, rest, rfl, rfl, rfl, rfl, rfl, _, _, rfl⟩
      | cons other before =>
        obtain ⟨rfl, later⟩ := List.cons.inj split
        obtain ⟨front, part, back, rfl, tags, value, start, others⟩ := ih later
        exact ⟨.lexeme kind text :: front, part, back, rfl, congrArg (List.cons _) tags, value,
          start.trans (length front).symm, others⟩

/-- Some of the pieces of a text are those of tokens that follow one another, from the first of
these to the last. -/
structure Spans (text : List Char) (tokens : List Token) (front middle back : List Piece) :
    Prop where
  whole : Piece.ofText text = (front ++ (middle ++ back), none)
  tags : Piece.lexemes middle = tokens.map tag
  starts : tokens.head?.map Token.start = some (front.flatMap Piece.text).length
  stops : tokens.getLast?.map Token.stop = some ((front ++ middle).flatMap Piece.text).length

theorem locate_slice {pieces : List Piece} {place : Position} {offset line : Nat}
    {before rest after : List Token} {first last : Token}
    (split : locate place offset line pieces = before ++ first :: (rest ++ after))
    (goes : after ≠ []) (ends : (first :: rest).getLast? = some last) :
    ∃ front middle back, pieces = front ++ (middle ++ back) ∧
      Piece.lexemes middle = (first :: rest).map tag ∧
      Piece.lead middle = some first.kind ∧
      (∃ inner part, middle = inner ++ [.lexeme last.kind part]) ∧
      first.start = offset + (front.flatMap Piece.text).length ∧
      last.stop = first.start + (middle.flatMap Piece.text).length := by
  obtain ⟨front, part, back, rfl, _, value, start, stop, place, line, others⟩ :=
    locate_reach split (by simp [goes])
  have here : Piece.lexemes [.lexeme first.kind part] = [first.tag] := by
    simp [Piece.lexemes, tag, value]
  rcases List.eq_nil_or_concat rest with rfl | ⟨inner, final, rfl⟩
  · cases ends
    exact ⟨front, [.lexeme first.kind part], back, rfl, here, rfl, ⟨[], part, rfl⟩, start,
      by simpa [Piece.text] using stop⟩
  · rw [List.concat_eq_append, ← List.cons_append, List.getLast?_concat] at ends
    cases ends
    rw [List.concat_eq_append, List.append_assoc] at others
    obtain ⟨middle, final, back, rfl, tags, valued, further, stops, _⟩ :=
      locate_reach others.symm goes
    refine ⟨front, .lexeme first.kind part :: (middle ++ [.lexeme last.kind final]), back,
      by simp, ?_, rfl, ⟨.lexeme first.kind part :: middle, final, rfl⟩, start, ?_⟩
    · simp [Piece.lexemes, tag, value, valued, ← tags]
    · simp only [List.flatMap_cons, List.flatMap_append, List.flatMap_nil, List.length_append,
        Piece.text, List.append_nil]
      omega

end Token

namespace Module

theorem type_takes {text : List Char} {c after : Cursor} (stale : c.fresh = false)
    {stored : String} (parsed : parseType text c = .ok (stored, after)) :
    ∃ type, c.Takes type after ∧ stored = typeText text type ∧ type ≠ [] ∧
      (∀ t ∈ type, t.opensLine = true → c.margin < t.column) ∧
      ∀ t ∈ after.tokens.head?, t.opensLine = true ∧ t.column ≤ c.margin := by
  unfold parseType at parsed
  split at parsed
  · cases parsed
  rename_i goes
  cases parsed
  refine ⟨c.tokens.takeWhile (!c.breaksLayout ·), ?_, rfl, ?_, ?_, ?_⟩
  · constructor
    · exact List.takeWhile_append_dropWhile.symm
    · rfl
    · rfl
    · rfl
  · simp only [Cursor.atBoundary, stale, Bool.not_false, Bool.true_and, Bool.or_eq_true, not_or,
      Bool.not_eq_true] at goes
    cases tokens : c.tokens with
    | nil => simp [Cursor.atEnd, tokens] at goes
    | cons token rest =>
      have here : c.breaksLayout token = false := by simpa [Cursor.peek, tokens] using goes.2
      simp [here]
  · intro t member opens
    have inside := List.mem_takeWhile_imp member
    simpa [Cursor.breaksLayout, opens, Cursor.margin] using inside
  · intro t next
    have found := List.head?_dropWhile_not (!c.breaksLayout ·) c.tokens
    rw [show (List.dropWhile (!c.breaksLayout ·) c.tokens).head? = some t from next] at found
    simpa [Cursor.breaksLayout, Cursor.margin] using found

theorem type_squeezed {text : List Char} {before taken after : List Token}
    (scanned : Token.scan text = .ok (before ++ (taken ++ after))) (some : taken ≠ [])
    (goes : after ≠ []) :
    ∃ front middle back, Token.Spans text taken front middle back ∧
      (typeText text taken).toList = squeeze false (middle.flatMap Piece.text) ∧
      (∃ behind, Piece.Cuts behind (middle ++ back)) ∧
      (∃ kind, Piece.lead middle = .some kind) ∧
      ∃ inner kind part, middle = inner ++ [.lexeme kind part] := by
  obtain ⟨pieces, cuts, located⟩ := Token.scan_cuts scanned
  obtain ⟨first, rest, rfl⟩ := List.exists_cons_of_ne_nil some
  obtain ⟨last, ends⟩ : ∃ last, (first :: rest).getLast? = .some last :=
    ⟨_, List.getLast?_eq_some_getLast (List.cons_ne_nil first rest)⟩
  obtain ⟨front, middle, back, rfl, tags, leads, ⟨inner, part, parts⟩, start, stop⟩ :=
    Token.locate_slice located.symm goes ends
  rw [Nat.zero_add] at start
  have whole := Piece.cuts_iff.mpr cuts
  obtain ⟨behind, rfl, within⟩ := cuts.drop
  obtain ⟨more, rfl, _⟩ := within.drop
  have source : ((front.flatMap Piece.text ++ (middle.flatMap Piece.text ++ more)).drop
      first.start).take (last.stop - first.start) = middle.flatMap Piece.text := by
    rw [stop, Nat.add_sub_cancel_left, start, List.drop_left, List.take_left]
  have final : ∀ c ∈ (middle.flatMap Piece.text).getLast?, isBlank c = false := by
    subst parts
    exact within.ends
  have visible : ∀ c ∈ (middle.flatMap Piece.text).head?, isBlank c = false :=
    within.visible (within.stops (Piece.lead_append leads back))
  refine ⟨front, middle, back, ⟨whole, tags, congrArg Option.some start, ?_⟩, ?_,
    ⟨_, within⟩, ⟨_, leads⟩, inner, last.kind, part, parts⟩
  · rw [ends, List.flatMap_append, List.length_append, ← start]
    exact congrArg Option.some stop
  · unfold typeText
    rw [ends]
    simp only [List.head?_cons, source, words_squeezed final, squeeze_head visible,
      String.toList_ofList]

theorem type_written {text : List Char} {before taken after : List Token}
    (scanned : Token.scan text = .ok (before ++ (taken ++ after))) (some : taken ≠ [])
    (goes : after ≠ []) : ∃ tags, Piece.Written tags (typeText text taken).toList := by
  obtain ⟨front, middle, back, _, written, ⟨behind, within⟩, ⟨kind, leads⟩, _⟩ :=
    type_squeezed scanned some goes
  obtain ⟨comment, cut, _⟩ := within.squeezed
  rw [written]
  refine ⟨_, ⟨_, kind, cut, Piece.lead_squeezed leads comment, rfl⟩, fun member => ?_⟩
  exact absurd (squeeze_blank _ member rfl) (by decide)

end Module

end PureJs
