import PureJs.Proofs.Steps
import PureJs.Proofs.Token.Blanks

/-!
The tokens of a text do not depend on what stands between them. Each of them is cut off from its own
part of the text alone, so that these parts, with blanks between them, are cut into the same tokens.
-/

namespace PureJs

namespace Piece

def words (pieces : List Piece) : List (TokenKind × List Char) :=
  pieces.filterMap fun
    | .lexeme kind part => some (kind, part)
    | .gap _ => none

theorem lexemes_words (pieces : List Piece) : lexemes pieces = (words pieces).map tagOf := by
  unfold lexemes words
  rw [List.map_filterMap]
  congr 1
  funext piece
  cases piece <;> rfl

theorem Cuts.words_alone {text : List Char} {pieces : List Piece} (cuts : Cuts text pieces) :
    ∀ word ∈ words pieces, Alone word.1 word.2 := by
  induction cuts with
  | nil => exact List.forall_mem_nil _
  | @cons c tail behind piece others taken split later ih =>
    cases piece with
    | gap part => exact ih
    | lexeme kind part => exact List.forall_mem_cons.mpr ⟨first_alone taken, ih⟩

theorem parted_words_cut {words : List (TokenKind × List Char)} {blanks : List Char}
    (each : ∀ word ∈ words, Alone word.1 word.2) (some : blanks ≠ [])
    (blank : ∀ c ∈ blanks, isSpace c = true) :
    ∃ pieces, Cuts (blanks.intercalate (words.map Prod.snd)) pieces ∧
      lexemes pieces = words.map tagOf ∧
        Stops isSpace (blanks.intercalate (words.map Prod.snd)) := by
  induction words with
  | nil => exact ⟨[], .nil, rfl, nofun⟩
  | cons word rest ih =>
    obtain ⟨kind, part⟩ := word
    rw [List.forall_mem_cons] at each
    obtain ⟨pieces, cuts, tags, stops⟩ := ih each.2
    have begins : ∀ behind, Stops isSpace (part ++ behind) := by
      obtain ⟨c, tail, rfl, taken⟩ := each.1
      rintro behind _ ⟨⟩
      exact lexeme_no_space taken
    cases rest with
    | nil =>
      obtain ⟨gaps, whole, none⟩ := word_cut each.1 (List.forall_mem_nil _) .nil nofun
        fun _ => nofun
      have stops := begins []
      rw [List.append_nil] at stops
      rw [List.append_nil, List.append_nil, List.append_nil] at whole
      rw [List.map_singleton, List.intercalate_singleton]
      exact ⟨_, whole, congrArg (List.cons _) none, stops⟩
    | cons next more =>
      obtain ⟨gaps, whole, none⟩ := word_cut each.1 blank cuts stops fun empty => absurd empty some
      rw [List.append_assoc] at whole
      refine ⟨_, whole, ?_, begins _⟩
      rw [List.map_cons, ← tags, ← List.nil_append (lexemes pieces), ← none, ← lexemes_append]
      rfl

end Piece

namespace Token

/-- The part of the text that a token takes up. -/
def slice (text : List Char) (t : Token) : List Char := (text.take t.stop).drop t.start

theorem locate_slices (pieces : List Piece) (front : List Char) (place : Position) (line : Nat) :
    ∃ lexed finish stop,
      locate place front.length line pieces = lexed ++ [endOfInput finish stop] ∧
        lexed.map (fun t => (t.kind, slice (front ++ pieces.flatMap Piece.text) t)) =
          Piece.words pieces ∧
        lexed.map tag = Piece.lexemes pieces := by
  induction pieces generalizing front place line with
  | nil => exact ⟨[], place, front.length, rfl, rfl, rfl⟩
  | cons piece rest ih =>
    cases piece with
    | gap part =>
      obtain ⟨lexed, finish, stop, located, words, tags⟩ :=
        ih (front ++ part) (place.after part) line
      rw [List.length_append] at located
      rw [List.append_assoc] at words
      exact ⟨lexed, finish, stop, located, words, tags⟩
    | lexeme kind part =>
      obtain ⟨lexed, finish, stop, located, words, tags⟩ :=
        ih (front ++ part) (place.after part) place.line
      rw [List.length_append] at located
      rw [List.append_assoc] at words
      refine ⟨_ :: lexed, finish, stop, congrArg (List.cons _) located, ?_,
        congrArg (List.cons _) tags⟩
      rw [List.map_cons]
      refine congrArg₂ List.cons (congrArg (Prod.mk kind) ?_) words
      show ((front ++ (part ++ _)).take (front.length + part.length)).drop front.length = part
      rw [← List.append_assoc, ← List.length_append, List.take_left, List.drop_left]

theorem scan_slices {text : List Char} {tokens : List Token} (scanned : scan text = .ok tokens) :
    ∃ lexed finish stop, tokens = lexed ++ [endOfInput finish stop] ∧
      ∀ t ∈ lexed, Piece.Alone t.kind (slice text t) ∧
        t.tag = Piece.tagOf (t.kind, slice text t) := by
  obtain ⟨pieces, cuts, rfl⟩ := scan_cuts scanned
  obtain ⟨lexed, finish, stop, located, words, tags⟩ := locate_slices pieces [] .start 0
  rw [List.nil_append, cuts.text] at words
  rw [Piece.lexemes_words, ← words, List.map_map, List.map_inj_left] at tags
  have alone := cuts.words_alone
  rw [← words, List.forall_mem_map] at alone
  exact ⟨lexed, finish, stop, located, fun t member => ⟨alone t member, tags t member⟩⟩

/-- What the tokens of a text take up of it, with the same blanks between any two of them, has the
same tokens. A single space and a single line feed are such blanks. -/
theorem scan_respaced {text blanks : List Char} {tokens : List Token}
    (scanned : scan text = .ok tokens) (some : blanks ≠ [])
    (blank : ∀ c ∈ blanks, Piece.isSpace c = true) :
    ∃ others, scan (blanks.intercalate (tokens.dropLast.map (slice text))) = .ok others ∧
      others.map tag = tokens.map tag := by
  obtain ⟨lexed, finish, stop, rfl, each⟩ := scan_slices scanned
  have alone : ∀ word ∈ lexed.map (fun t => (t.kind, slice text t)),
      Piece.Alone word.1 word.2 :=
    List.forall_mem_map.mpr fun t member => (each t member).1
  obtain ⟨pieces, cuts, same, -⟩ := Piece.parted_words_cut alone some blank
  obtain ⟨others, last, offset, located, -, tags⟩ := locate_slices pieces [] .start 0
  rw [List.map_map] at cuts same
  have tagged : lexed.map tag = Piece.lexemes pieces := by
    rw [same]
    exact List.map_congr_left fun t member => (each t member).2
  rw [List.dropLast_concat]
  refine ⟨locate .start 0 0 pieces, ?_, ?_⟩
  · have cut := Piece.cuts_iff.mpr cuts
    unfold scan
    rw [show Piece.ofText (blanks.intercalate (lexed.map (slice text))) = _ from cut]
  · rw [show locate .start 0 0 pieces = others ++ [_] from located, List.map_append,
      List.map_append, tags, tagged]
    rfl

/-- A text with hardly a blank in it: marks and numbers that other characters would change, a string
of two lines and comments. -/
def crowded : List Char := "f\x7b-:-\x7d=Data.Foo.x'<>-1.5.2\"a\\\n\"/==.7-->2\n::|||".toList

def crowdedTags : List (TokenKind × String) := [
  (.identifier, "f"), (.mark .assign, "="), (.qualified, "Data.Foo.x'"), (.mark .append, "<>"),
  (.mark .minus, "-"), (.number, "1.5"), (.mark .dot, "."), (.integer, "2"), (.string, "a\n"),
  (.mark .notEqual, "/="), (.mark .assign, "="), (.mark .dot, "."), (.integer, "7"),
  (.mark .doubleColon, "::"), (.mark .or, "||"), (.mark .pipe, "|"), (.endOfInput, "")]

theorem crowded_respaced :
    ∃ tokens, scan crowded = .ok tokens ∧ tokens.map tag = crowdedTags ∧
      (∃ others, scan ([' '].intercalate (tokens.dropLast.map (slice crowded))) = .ok others ∧
        others.map tag = crowdedTags) ∧
      ∃ others, scan (['\n'].intercalate (tokens.dropLast.map (slice crowded))) = .ok others ∧
        others.map tag = crowdedTags := by
  have accepted : (scan crowded).toOption.any (·.map tag = crowdedTags) = true := by
    decide +kernel
  obtain ⟨tokens, scanned, tags⟩ := any_gives accepted
  have same := of_decide_eq_true tags
  refine ⟨tokens, scanned, same, ?_⟩
  rw [← same]
  exact ⟨scan_respaced scanned (List.cons_ne_nil _ _) (List.all_eq_true.mp rfl),
    scan_respaced scanned (List.cons_ne_nil _ _) (List.all_eq_true.mp rfl)⟩

end Token

end PureJs
