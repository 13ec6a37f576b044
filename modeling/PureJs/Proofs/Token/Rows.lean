import Mathlib.Data.List.Forall2
import PureJs.Proofs.Token.Squeezed

/-!
Lines of lexemes with a space between them, and the tokens of a text that consists of such lines.
-/

namespace PureJs

namespace Piece

/-- What is cut off from a text of nothing else, and so before any blank. -/
def Alone (kind : TokenKind) (part : List Char) : Prop :=
  ∃ c tail, part = c :: tail ∧ first c tail = .ok (.lexeme kind part)

theorem first_alone {c : Char} {rest part : List Char} {kind : TokenKind}
    (taken : first c rest = .ok (.lexeme kind part)) : Alone kind part := by
  obtain ⟨tail, behind, text, rfl⟩ := first_front taken
  cases text
  have nothing : Resembles behind [] := .clear nofun
  have alone := first_again taken nothing
  rw [List.append_nil] at alone
  exact ⟨c, tail, rfl, alone⟩

/-- The kinds and values of the tokens that pieces give. -/
def lexemes (pieces : List Piece) : List (TokenKind × String) :=
  pieces.filterMap fun
    | .lexeme kind part => some (kind, value kind part)
    | .gap _ => none

theorem lexemes_append (front back : List Piece) :
    lexemes (front ++ back) = lexemes front ++ lexemes back :=
  List.filterMap_append

structure Written (tags : List (TokenKind × String)) (text : List Char) : Prop where
  cuts : ∃ pieces kind, Cuts text pieces ∧ lead pieces = some kind ∧ lexemes pieces = tags
  flat : '\n' ∉ text

theorem lexeme_no_space {c : Char} {rest part : List Char} {kind : TokenKind}
    (taken : first c rest = .ok (.lexeme kind part)) : isSpace c = false := by
  unfold first at taken
  split at taken
  · cases taken
  · rename_i visible
    simpa using visible

theorem lead_append {front : List Piece} {kind : TokenKind} (leads : lead front = some kind)
    (back : List Piece) : lead (front ++ back) = some kind := by
  cases front with
  | nil => cases leads
  | cons piece rest =>
    cases piece with
    | gap => cases leads
    | lexeme => exact leads

theorem Cuts.stops {text : List Char} {pieces : List Piece} {kind : TokenKind}
    (cuts : Cuts text pieces) (leads : lead pieces = some kind) : Stops isSpace text := by
  cases cuts with
  | nil => cases leads
  | @cons c tail behind piece others taken split later =>
    intro d next
    cases next
    cases piece with
    | gap => cases leads
    | lexeme => exact lexeme_no_space taken

theorem value_plain {kind : TokenKind} (plain : kind ≠ .string) (part : List Char) :
    value kind part = String.ofList part := by
  unfold value
  split
  · exact absurd rfl plain
  · rfl

variable {kind : TokenKind} {part text : List Char} {tags : List (TokenKind × String)}

theorem Alone.flat (alone : Alone kind part) (plain : kind ≠ .string) : '\n' ∉ part := by
  obtain ⟨c, tail, rfl, taken⟩ := alone
  rcases lexeme_cases taken with ⟨_, string, _⟩ | visible
  · exact absurd string plain
  · intro member
    exact absurd (visible _ member) (by decide)

theorem Alone.written {word : String} (alone : Alone kind word.toList) (plain : kind ≠ .string) :
    Written [(kind, word)] word.toList := by
  refine ⟨?_, alone.flat plain⟩
  obtain ⟨c, tail, parts, taken⟩ := alone
  rw [parts, ← List.append_nil tail] at taken
  have cut := Cuts.cons taken (by simp [Piece.text]) .nil
  rw [List.append_nil, ← parts] at cut
  exact ⟨_, kind, cut, rfl, by simp [lexemes, value_plain plain]⟩

theorem Written.behind {word : String} (written : Written tags text)
    (alone : Alone kind word.toList) (plain : kind ≠ .string) :
    Written ((kind, word) :: tags) (word.toList ++ ' ' :: text) := by
  constructor
  · obtain ⟨c, tail, parts, taken⟩ := alone
    obtain ⟨pieces, leading, cut, leads, rfl⟩ := written.cuts
    have space : Clear (' ' :: text) := by
      intro d next
      cases next
      rfl
    have taken : first c (tail ++ []) = .ok (.lexeme kind (c :: tail)) := by
      simpa [parts] using taken
    have front := first_again taken (.clear space)
    have gap : CutGap [' '] text := .spaces rfl nofun (cut.stops leads)
    have whole := Cuts.cons front rfl (.cons (first_gap_iff.mpr gap) rfl cut)
    rw [← List.cons_append, ← parts] at whole
    exact ⟨_, kind, whole, rfl, by simp [lexemes, value_plain plain]⟩
  · rw [List.mem_append, List.mem_cons, not_or, not_or]
    exact ⟨alone.flat plain, by decide, written.flat⟩

theorem Written.some (written : Written tags text) : tags ≠ [] := by
  obtain ⟨pieces, kind, _, leads, rfl⟩ := written.cuts
  cases pieces with
  | nil => cases leads
  | cons piece rest =>
    cases piece with
    | gap => cases leads
    | lexeme => exact List.cons_ne_nil _ _

end Piece

namespace Position

theorem after_flat {text : List Char} (flat : '\n' ∉ text) (place : Position) :
    (place.after text).line = place.line := by
  induction text generalizing place with
  | nil => rfl
  | cons c rest ih =>
    rw [List.mem_cons, not_or] at flat
    have step : place.after (c :: rest) = (place.next c).after rest := rfl
    rw [step, ih flat.2, next, if_neg (Ne.symm flat.1)]

end Position

namespace Token

def tag (token : Token) : TokenKind × String := (token.kind, token.value)

inductive Row (tags : List (TokenKind × String)) : List Token → Prop
  | intro {first : Token} {rest : List Token} (opens : first.opensLine = true)
    (begins : first.column = 1) (others : ∀ t ∈ rest, t.opensLine = false)
    (tagged : (first :: rest).map tag = tags) : Row tags (first :: rest)

theorem Row.moved {tags : List (TokenKind × String)} {row : List Token} (is : Row tags row)
    (lines offset : Nat) : Row tags (row.map (moved lines offset)) := by
  cases is with
  | @intro first rest opens begins others tagged =>
    refine .intro opens begins ?_ ?_
    · intro t member
      obtain ⟨source, inside, rfl⟩ := List.mem_map.mp member
      exact others source inside
    · rw [← tagged, ← List.map_cons, List.map_map]
      rfl

theorem locate_flat {pieces : List Piece} (flat : '\n' ∉ pieces.flatMap Piece.text)
    (place : Position) (offset : Nat) :
    ∃ tokens finish stop,
      locate place offset place.line pieces = tokens ++ [endOfInput finish stop] ∧
        (∀ t ∈ tokens, t.opensLine = false) ∧ tokens.map tag = Piece.lexemes pieces := by
  induction pieces generalizing place offset with
  | nil => exact ⟨[], place, offset, rfl, nofun, rfl⟩
  | cons piece rest ih =>
    rw [List.flatMap_cons, List.mem_append, not_or] at flat
    obtain ⟨tokens, finish, stop, split, others, tagged⟩ :=
      ih flat.2 (place.after piece.text) (offset + piece.text.length)
    have line := Position.after_flat flat.1 place
    cases piece with
    | gap text => exact ⟨tokens, finish, stop, by rw [locate, ← line]; exact split, others, tagged⟩
    | lexeme kind text =>
      rw [line] at split
      refine ⟨_ :: tokens, finish, stop, congrArg (List.cons _) split, ?_, ?_⟩
      · rw [List.forall_mem_cons]
        exact ⟨by simp, others⟩
      · rw [List.map_cons, tagged]
        rfl

theorem scan_written {tags : List (TokenKind × String)} {text : List Char}
    (written : Piece.Written tags text) :
    ∃ row finish, scan text = .ok (row ++ [finish]) ∧ Row tags row := by
  obtain ⟨pieces, kind, cut, leads, rfl⟩ := written.cuts
  have flat := written.flat
  rw [← cut.text] at flat
  cases pieces with
  | nil => cases leads
  | cons piece others =>
    cases piece with
    | gap => cases leads
    | lexeme kind part =>
      rw [List.flatMap_cons, List.mem_append, not_or] at flat
      have line := Position.after_flat flat.1 Position.start
      obtain ⟨tokens, finish, stop, split, inside, tagged⟩ :=
        locate_flat flat.2 (Position.start.after part) (0 + part.length)
      have whole := Piece.cuts_iff.mpr cut
      rw [show (Position.start.after part).line = Position.start.line from line] at split
      let first : Token :=
        ⟨kind, Piece.value kind part, Position.start, 0, 0 + part.length, true⟩
      refine ⟨first :: tokens, endOfInput finish stop, ?_, .intro rfl rfl inside ?_⟩
      · unfold scan
        rw [whole]
        exact congrArg (fun rest => Except.ok (first :: rest)) split
      · rw [List.map_cons, tagged]
        rfl

theorem scan_rows {α : Type} {lines : List α} {text : α → List Char}
    {good : α → List (TokenKind × String) → Prop}
    (written : ∀ line ∈ lines, ∃ tags, Piece.Written tags (text line) ∧ good line tags) :
    ∃ rows finish, scan (lines.flatMap (text · ++ ['\n'])) = .ok (rows.flatten ++ [finish]) ∧
      List.Forall₂ (fun line row => ∃ tags, good line tags ∧ Row tags row) lines rows := by
  induction lines with
  | nil => exact ⟨[], endOfInput .start 0, scan_nil, .nil⟩
  | cons line lines ih =>
    rw [List.forall_mem_cons] at written
    obtain ⟨⟨tags, here, fine⟩, later⟩ := written
    obtain ⟨row, last, scanned, is⟩ := scan_written here
    obtain ⟨rows, finish, others, are⟩ := ih later
    have joined := scan_join scanned others
    rw [List.dropLast_concat, List.map_append, List.map_flatten] at joined
    let shift := moved (lineCount (text line)) ((text line).length + 1)
    refine ⟨row :: rows.map (List.map shift), shift finish, ?_, .cons ⟨tags, fine, is⟩ ?_⟩
    · rw [List.flatMap_cons, ← List.append_cons, joined, List.flatten_cons, List.append_assoc]
      rfl
    · refine List.forall₂_map_right_iff.mpr (are.imp ?_)
      rintro other row ⟨tags, fine, is⟩
      exact ⟨tags, fine, is.moved _ _⟩

end Token

end PureJs
