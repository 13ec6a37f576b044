import Mathlib.Data.List.TakeWhile
import PureJs.Syntax.ExprParser
import PureJs.Token.Scan

/-!
The names that a source text can give to values. Every identifier token is such a name, and so is
the last part of every qualified one; nothing is said about capitals and keywords.
-/

namespace PureJs

def LexicalChars (text : List Char) : Prop :=
  text.head?.any Piece.startsName = true ∧ ∀ c ∈ text, Piece.continuesName c = true

def Lexical (name : String) : Prop := LexicalChars name.toList

instance (text : List Char) : Decidable (LexicalChars text) :=
  inferInstanceAs (Decidable (_ ∧ _))

instance (name : String) : Decidable (Lexical name) :=
  inferInstanceAs (Decidable (LexicalChars name.toList))

namespace Piece

theorem starts_continues {c : Char} (h : startsName c = true) : continuesName c = true := by
  simp only [startsName, Bool.or_eq_true] at h
  simp only [continuesName, Bool.or_eq_true]
  rcases h with letter | underscore
  · exact Or.inl (Or.inl (Or.inl letter))
  · exact Or.inl (Or.inr underscore)

theorem point_continues_no_name : continuesName '.' = false := by decide

theorem segment_lexical {c : Char} {rest : List Char} (start : startsName c = true) :
    LexicalChars (c :: rest.takeWhile continuesName) := by
  refine ⟨by simpa using start, ?_⟩
  intro d member
  rcases List.mem_cons.mp member with same | later
  · subst d
    exact starts_continues start
  · exact List.mem_takeWhile_imp later

theorem lexical_has_no_point {text : List Char} (lexical : LexicalChars text) : '.' ∉ text := by
  intro member
  have continues := lexical.2 '.' member
  rw [point_continues_no_name] at continues
  exact Bool.false_ne_true continues

theorem dotted_name_ends (text : List Char) :
    (dottedName text).1 = .proper ∨ (dottedName text).1 = .qualified ∧
      ∃ front last, (dottedName text).2 = front ++ '.' :: last ∧ LexicalChars last := by
  induction text using dottedName.induct with
  | case1 c rest start capital kind more cut ih =>
    have unfolded : dottedName ('.' :: c :: rest) =
        (kind, '.' :: (c :: rest.takeWhile continuesName) ++ more) := by
      rw [dottedName, if_pos start, if_pos capital, cut]
    rw [unfolded]
    rw [cut] at ih
    rcases ih with proper | ⟨qualified, front, last, parts, lexical⟩
    · exact Or.inl proper
    · refine Or.inr
        ⟨qualified, '.' :: c :: rest.takeWhile continuesName ++ front, last, ?_, lexical⟩
      simp [show more = front ++ '.' :: last from parts]
  | case2 c rest start capital =>
    rw [dottedName, if_pos start, if_neg capital]
    exact Or.inr ⟨rfl, [], c :: rest.takeWhile continuesName, rfl, segment_lexical start⟩
  | case3 c rest start =>
    rw [dottedName, if_neg start]
    exact Or.inl rfl
  | case4 text other =>
    rw [dottedName]
    · exact Or.inl rfl
    · exact other

def WellNamed (kind : TokenKind) (text : List Char) : Prop :=
  (kind = .identifier → LexicalChars text) ∧
  (kind = .qualified → ∃ front last, text = front ++ '.' :: last ∧ LexicalChars last)

theorem other_kind_well_named {kind : TokenKind} {text : List Char}
    (plain : kind ≠ .identifier) (dotted : kind ≠ .qualified) : WellNamed kind text :=
  ⟨fun same => (plain same).elim, fun same => (dotted same).elim⟩

theorem name_well_named {c : Char} {rest : List Char} (start : startsName c = true) :
    WellNamed (name (c :: rest)).1 (name (c :: rest)).2 := by
  have segment : (c :: rest).takeWhile continuesName = c :: rest.takeWhile continuesName := by
    rw [List.takeWhile_cons_of_pos (starts_continues start)]
  unfold name
  split
  · rcases dotted_name_ends ((c :: rest).dropWhile continuesName) with
      proper | ⟨qualified, front, last, parts, lexical⟩
    · exact other_kind_well_named (by simp [proper]) (by simp [proper])
    · refine ⟨by simp [qualified], fun _ => ?_⟩
      exact ⟨(c :: rest).takeWhile continuesName ++ front, last, by simp [parts], lexical⟩
  · dsimp only
    split
    · exact other_kind_well_named (by simp) (by simp)
    · refine ⟨fun _ => ?_, by simp⟩
      rw [segment]
      exact segment_lexical start

theorem numeral_well_named (text : List Char) :
    WellNamed (numeral text).1 (numeral text).2 := by
  unfold numeral
  dsimp only
  split
  · split <;> exact other_kind_well_named (by simp) (by simp)
  · exact other_kind_well_named (by simp) (by simp)

theorem first_well_named {c : Char} {rest text : List Char} {kind : TokenKind}
    (taken : first c rest = .ok (.lexeme kind text)) : WellNamed kind text := by
  unfold first at taken
  split at taken
  · cases taken
  split at taken
  · cases taken
  split at taken
  · split at taken <;> cases taken
  split at taken
  · split at taken <;> cases taken
    exact other_kind_well_named (by simp) (by simp)
  split at taken
  · cases taken
    exact numeral_well_named (c :: rest)
  split at taken
  · rename_i start
    cases taken
    exact name_well_named start
  · split at taken <;> cases taken
    exact other_kind_well_named (by simp) (by simp)

theorem ofText_lexemes {holds : TokenKind → List Char → Prop}
    (taken : ∀ c rest kind part, first c rest = .ok (.lexeme kind part) → holds kind part)
    (text : List Char) : ∀ kind part, lexeme kind part ∈ (ofText text).1 → holds kind part := by
  induction text using ofText.induct with
  | case1 => simp [ofText]
  | case2 c rest problem failed =>
    rw [ofText, failed]
    simp
  | case3 c rest piece front others problem cut ih =>
    rw [cut] at ih
    rw [ofText, front]
    simp only [cut]
    intro kind part member
    rcases List.mem_cons.mp member with same | later
    · rw [← same] at front
      exact taken c rest kind part front
    · exact ih kind part later

end Piece

namespace Token

def WellNamed (token : Token) : Prop :=
  (token.kind = .identifier → Lexical token.value) ∧
  (token.kind = .qualified → Lexical (Expr.splitQualified token.value).2)

theorem split_at_last_point {front last : List Char} (absent : '.' ∉ last) :
    Expr.splitQualified (String.ofList (front ++ '.' :: last)) =
      (String.ofList front, String.ofList last) := by
  have each : ∀ c ∈ last.reverse, decide (c ≠ '.') = true := by
    intro c member
    have other : c ≠ '.' := by
      rintro rfl
      exact absent (List.mem_reverse.mp member)
    simpa using other
  simp only [Expr.splitQualified, String.toList_ofList, List.reverse_append, List.reverse_cons,
    List.append_assoc]
  rw [List.takeWhile_append_of_pos each, List.dropWhile_append_of_pos each]
  simp

theorem locate_lexemes (pieces : List Piece) (place : Position) (offset line : Nat) :
    ∀ token ∈ locate place offset line pieces,
      (∃ finish stop, token = endOfInput finish stop) ∨
        ∃ part, .lexeme token.kind part ∈ pieces ∧ token.value = Piece.value token.kind part := by
  induction pieces generalizing place offset line with
  | nil =>
    intro token member
    exact .inl ⟨place, offset, by simpa [locate] using member⟩
  | cons piece rest ih =>
    have later : ∀ place offset line, ∀ token ∈ locate place offset line rest,
        (∃ finish stop, token = endOfInput finish stop) ∨
          ∃ part, .lexeme token.kind part ∈ piece :: rest ∧
            token.value = Piece.value token.kind part := by
      intro place offset line token member
      rcases ih place offset line token member with ends | ⟨part, inside, value⟩
      · exact .inl ends
      · exact .inr ⟨part, List.mem_cons_of_mem piece inside, value⟩
    cases piece with
    | gap text => exact later _ _ _
    | lexeme kind text =>
      rw [locate, List.forall_mem_cons]
      exact ⟨.inr ⟨text, List.mem_cons_self, rfl⟩, later _ _ _⟩

theorem locate_ends (pieces : List Piece) (place : Position) (offset line : Nat) :
    ∃ front finish stop, locate place offset line pieces = front ++ [endOfInput finish stop] := by
  induction pieces generalizing place offset line with
  | nil => exact ⟨[], place, offset, rfl⟩
  | cons piece rest ih =>
    cases piece with
    | gap text => exact ih (place.after text) (offset + text.length) line
    | lexeme kind text =>
      obtain ⟨front, finish, stop, ends⟩ := ih (place.after text) (offset + text.length) place.line
      exact ⟨_ :: front, finish, stop, congrArg (List.cons _) ends⟩

/-- What holds of every lexeme that is taken from the front of a text holds of all that tokens are
made from. -/
theorem scan_lexemes {holds : TokenKind → List Char → Prop} {text : List Char}
    {tokens : List Token} (scanned : scan text = .ok tokens)
    (taken : ∀ c rest kind part, Piece.first c rest = .ok (.lexeme kind part) → holds kind part) :
    ∀ token ∈ tokens, (∃ finish stop, token = endOfInput finish stop) ∨
      ∃ part, holds token.kind part ∧ token.value = Piece.value token.kind part := by
  have all := Piece.ofText_lexemes taken text
  unfold scan at scanned
  split at scanned
  · rename_i pieces cut
    cases scanned
    rw [cut] at all
    intro token member
    rcases locate_lexemes pieces _ _ _ token member with ends | ⟨part, inside, value⟩
    · exact .inl ends
    · exact .inr ⟨part, all token.kind part inside, value⟩
  · cases scanned

theorem scan_well_named {text : List Char} {tokens : List Token}
    (scanned : scan text = .ok tokens) : ∀ token ∈ tokens, token.WellNamed := by
  intro token member
  have made := scan_lexemes scanned (fun _ _ _ _ => Piece.first_well_named) token member
  rcases made with ⟨finish, stop, rfl⟩ | ⟨part, named, value⟩
  · exact ⟨by simp [endOfInput], by simp [endOfInput]⟩
  · constructor
    · intro identifier
      rw [identifier] at named value
      rw [value]
      simpa [Lexical, Piece.value] using named.1 rfl
    · intro qualified
      rw [qualified] at named value
      obtain ⟨front, last, parts, lexical⟩ := named.2 rfl
      rw [value, Piece.value, parts, split_at_last_point (Piece.lexical_has_no_point lexical),
        Lexical, String.toList_ofList]
      · exact lexical
      · simp

/-- The token has a point in it, if it is a qualified name, and a name behind the last one. -/
def Pointed (t : Token) : Prop :=
  t.kind = .qualified → ∃ owner name : List Char, t.value = String.ofList (owner ++ '.' :: name) ∧
    '.' ∉ name

theorem scan_pointed {text : List Char} {tokens : List Token} (scanned : scan text = .ok tokens) :
    ∀ token ∈ tokens, token.Pointed := by
  intro token member qualified
  have made := scan_lexemes scanned (fun _ _ _ _ => Piece.first_well_named) token member
  rcases made with ⟨finish, stop, rfl⟩ | ⟨part, named, value⟩
  · cases qualified
  · rw [qualified] at named value
    obtain ⟨owner, name, parts, lexical⟩ := named.2 rfl
    exact ⟨owner, name, by rw [value, parts]; rfl, Piece.lexical_has_no_point lexical⟩

theorem scan_ends {text : List Char} {tokens : List Token} (scanned : scan text = .ok tokens) :
    ∃ front finish stop, tokens = front ++ [endOfInput finish stop] := by
  unfold scan at scanned
  split at scanned
  · cases scanned
    exact locate_ends _ _ _ _
  · cases scanned

end Token

end PureJs
