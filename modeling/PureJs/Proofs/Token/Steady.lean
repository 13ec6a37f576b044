import PureJs.Proofs.Token.Rows

/-!
Which pieces of a text keep their meaning when its runs of blanks are made one space: comments that
end before their line does, and lexemes in which there are no blanks but single spaces.
-/

namespace PureJs.Piece

open Text

/-- Squeezed, the piece goes on to mean the same, and hides nothing that follows it. -/
def Steady : Piece → Prop
  | gap text => ¬['-', '-'] <+: text
  | lexeme _ text => Spaced text

instance : DecidablePred Steady
  | gap text => inferInstanceAs (Decidable ¬['-', '-'] <+: text)
  | lexeme _ text => inferInstanceAs (Decidable (Spaced text))

theorem unescape_plain {c : Char} (quote : c ≠ '"') (escape : c ≠ '\\') (rest : List Char) :
    unescape (c :: rest) = c :: unescape rest := by
  rw [unescape]
  · exact quote
  · exact fun _ same _ => escape same
  · exact fun _ same _ => escape same
  · exact fun _ same _ => escape same
  · exact fun _ _ same _ => escape same

theorem unescape_escape (c : Char) :
    ∃ d, (isBlank c = true → d = c) ∧
      ∀ rest, unescape ('\\' :: c :: rest) = d :: unescape rest := by
  by_cases feed : c = 'n'
  · subst feed
    exact ⟨'\n', nofun, fun rest => rfl⟩
  by_cases tab : c = 't'
  · subst tab
    exact ⟨'\t', nofun, fun rest => rfl⟩
  by_cases back : c = 'r'
  · subst back
    exact ⟨'\r', nofun, fun rest => rfl⟩
  · refine ⟨c, fun _ => rfl, fun rest => ?_⟩
    rw [unescape] <;> assumption

theorem Quoted.unescape_length {body : List Char} (quoted : Quoted body) (behind : Bool) :
    (unescape (squeeze behind body)).length ≤ (unescape body).length := by
  induction quoted generalizing behind with
  | closes => exact Nat.le_refl 0
  | @escape c rest later ih =>
    have escape : squeeze behind ('\\' :: c :: rest) = '\\' :: squeeze false (c :: rest) := rfl
    obtain ⟨d, _, means⟩ := unescape_escape c
    rw [escape, squeeze, means]
    split
    · exact Nat.succ_le_succ (ih true)
    · rw [means]
      exact Nat.succ_le_succ (ih false)
  | @plain c rest quote feed escape later ih =>
    rw [squeeze, unescape_plain quote escape]
    split
    · split
      · exact Nat.le_succ_of_le (ih true)
      · exact Nat.succ_le_succ (ih true)
    · rw [unescape_plain quote escape]
      exact Nat.succ_le_succ (ih false)

theorem Quoted.unescape_same {body : List Char} (quoted : Quoted body) {behind : Bool}
    (same : unescape (squeeze behind body) = unescape body) : squeeze behind body = body := by
  induction quoted generalizing behind with
  | closes => rfl
  | @escape c rest later ih =>
    have escape : squeeze behind ('\\' :: c :: rest) = '\\' :: squeeze false (c :: rest) := rfl
    obtain ⟨d, blank, means⟩ := unescape_escape c
    rw [escape, squeeze, means] at same
    rw [escape, squeeze]
    split at same
    · rename_i here
      have space : unescape ('\\' :: ' ' :: squeeze true rest) =
          ' ' :: unescape (squeeze true rest) := rfl
      rw [if_neg (by decide), space, List.cons.injEq, blank here] at same
      rw [if_pos here, if_neg (by decide), ← same.1, ih same.2]
    · rename_i here
      rw [means, List.cons.injEq] at same
      rw [if_neg here, ih same.2]
  | @plain c rest quote feed escape later ih =>
    rw [squeeze, unescape_plain quote escape] at same
    rw [squeeze]
    split at same
    · rename_i here
      rw [if_pos here]
      split at same
      · -- a blank is lost
        have short := later.unescape_length true
        rw [same, List.length_cons] at short
        omega
      · rename_i front
        have space : unescape (' ' :: squeeze true rest) =
            ' ' :: unescape (squeeze true rest) := rfl
        rw [space, List.cons.injEq] at same
        rw [if_neg front, ← same.1, ih same.2]
    · rename_i here
      rw [unescape_plain quote escape, List.cons.injEq] at same
      rw [if_neg here, ih same.2]

theorem value_squeezed {c : Char} {rest part : List Char} {kind : TokenKind}
    (taken : first c rest = .ok (lexeme kind part)) :
    value kind (squeeze false part) = value kind part ↔ Spaced part := by
  have spaced : squeeze false part = part ↔ Spaced part := by simp [squeeze_same]
  rw [← spaced]
  refine ⟨fun same => ?_, fun same => by rw [same]⟩
  rcases lexeme_cases taken with ⟨body, rfl, rfl, quoted⟩ | visible
  · have apart : squeeze false ('"' :: body) = '"' :: squeeze false body := rfl
    rw [apart] at same ⊢
    exact congrArg _ (quoted.unescape_same (String.ofList_injective same))
  · refine squeeze_same.mpr ⟨⟨fun d member blank => ?_, ?_⟩, by simp⟩
    · rw [visible d member] at blank
      cases blank
    · apply List.Pairwise.isChain
      apply List.pairwise_of_forall_mem_list
      intro a member _ _ both
      rw [visible a member] at both
      cases both.1

theorem Cuts.each {text : List Char} {pieces : List Piece} (cuts : Cuts text pieces) :
    ∀ piece ∈ pieces, ∃ c rest, first c rest = .ok piece := by
  induction cuts with
  | nil => nofun
  | cons taken text later ih =>
    rw [List.forall_mem_cons]
    exact ⟨⟨_, _, taken⟩, ih⟩

theorem lexemes_map_length (pieces : List Piece) :
    (lexemes (pieces.map squeezed)).length = (lexemes pieces).length := by
  induction pieces with
  | nil => rfl
  | cons piece rest ih =>
    cases piece with
    | gap text => exact ih
    | lexeme kind text => exact congrArg Nat.succ ih

theorem lexemes_map {pieces : List Piece}
    (each : ∀ piece ∈ pieces, ∃ c rest, first c rest = .ok piece) :
    lexemes (pieces.map squeezed) = lexemes pieces ↔
      ∀ kind part, lexeme kind part ∈ pieces → Spaced part := by
  induction pieces with
  | nil => exact iff_of_true rfl nofun
  | cons piece rest ih =>
    rw [List.forall_mem_cons] at each
    cases piece with
    | gap text =>
      refine (ih each.2).trans ⟨fun all kind part member => ?_, fun all kind part member => ?_⟩
      · exact all kind part (by simpa using member)
      · exact all kind part (List.mem_cons_of_mem _ member)
    | lexeme kind text =>
      obtain ⟨c, behind, taken⟩ := each.1
      have parts : lexemes ((lexeme kind text :: rest).map squeezed) =
          lexemes (lexeme kind text :: rest) ↔
            value kind (squeeze false text) = value kind text ∧
              lexemes (rest.map squeezed) = lexemes rest := by
        simp [lexemes, squeezed]
      rw [parts, value_squeezed taken, ih each.2]
      constructor
      · rintro ⟨here, others⟩ other part member
        rcases List.mem_cons.mp member with same | later
        · cases same
          exact here
        · exact others other part later
      · intro all
        exact ⟨all kind text List.mem_cons_self,
          fun other part later => all other part (List.mem_cons_of_mem _ later)⟩

theorem lexemes_remark {inner : List Piece} {kind : TokenKind} {part : List Char}
    (hides : ∃ piece ∈ inner ++ [lexeme kind part], piece.isRemark = true) :
    (lexemes ((inner ++ [lexeme kind part]).takeWhile (!·.isRemark))).length <
      (lexemes (inner ++ [lexeme kind part])).length := by
  obtain ⟨piece, member, remark⟩ := hides
  have inside : piece ∈ inner := by
    rcases List.mem_append.mp member with here | last
    · exact here
    · rw [List.mem_singleton.mp last] at remark
      cases remark
  have stops : (inner.takeWhile (!·.isRemark)).length ≠ inner.length := by
    intro long
    have all := List.takeWhile_eq_self_iff.mp ((List.takeWhile_prefix _).eq_of_length long)
    have stays := all piece inside
    simp [remark] at stays
  have fewer : (lexemes (inner.takeWhile (!·.isRemark))).length ≤ (lexemes inner).length :=
    ((List.takeWhile_sublist _).filterMap _).length_le
  rw [List.takeWhile_append, if_neg stops, lexemes_append, List.length_append]
  exact Nat.lt_succ_of_le fewer

theorem lexemes_squeezed {pieces inner : List Piece} {kind : TokenKind} {part : List Char}
    (each : ∀ piece ∈ pieces, ∃ c rest, first c rest = .ok piece)
    (ends : pieces = inner ++ [lexeme kind part]) :
    lexemes ((pieces.takeWhile (!·.isRemark)).map squeezed) = lexemes pieces ↔
      ∀ piece ∈ pieces, piece.Steady := by
  have gaps : ∀ text, (gap text).Steady ↔ (gap text).isRemark = false := by
    intro text
    rw [Steady, isRemark, Bool.eq_false_iff, ne_eq, List.isPrefixOf_iff_prefix]
  constructor
  · intro same
    have stays : ∀ piece ∈ pieces, piece.isRemark = false := by
      intro piece member
      by_contra hides
      subst ends
      have fewer := lexemes_remark ⟨piece, member, by simpa using hides⟩
      rw [← same, lexemes_map_length] at fewer
      exact absurd fewer (Nat.lt_irrefl _)
    rw [List.takeWhile_eq_self_iff.mpr (by simpa using stays), lexemes_map each] at same
    intro piece member
    cases piece with
    | gap text => exact (gaps text).mpr (stays _ member)
    | lexeme kind text => exact same kind text member
  · intro steady
    have stays : ∀ piece ∈ pieces, piece.isRemark = false := by
      intro piece member
      cases piece with
      | gap text => exact (gaps text).mp (steady _ member)
      | lexeme kind text => rfl
    rw [List.takeWhile_eq_self_iff.mpr (by simpa using stays), lexemes_map each]
    exact fun kind text member => steady _ member

end PureJs.Piece
