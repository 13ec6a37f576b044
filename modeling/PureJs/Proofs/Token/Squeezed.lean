import PureJs.Proofs.Text.Squeezed
import PureJs.Proofs.Token.Joined

/-!
A text with every run of blanks made one space is cut into the same pieces. Inside a string literal
and a block comment a run is shortened, and a line comment goes on to the end of the text.
-/

namespace PureJs

namespace Piece

open Text

def blanks : List Char :=
  (blankRanges.flatMap fun range => List.range' range.1 (range.2 + 1 - range.1)).map Char.ofNat

theorem blank_listed {c : Char} (blank : isBlank c = true) : c ∈ blanks := by
  simp only [isBlank, inRanges, List.any_eq_true] at blank
  obtain ⟨range, member, within⟩ := blank
  simp only [Bool.and_eq_true, decide_eq_true_eq] at within
  refine List.mem_map.mpr ⟨c.toNat, List.mem_flatMap.mpr ⟨range, member, ?_⟩, Char.ofNat_toNat c⟩
  rw [List.mem_range'_1]
  omega

theorem visible_of {wanted : Char → Bool} (none : blanks.all (!wanted ·) = true) {c : Char}
    (here : wanted c = true) : isBlank c = false := by
  cases blank : isBlank c with
  | false => rfl
  | true =>
    have no := List.all_eq_true.mp none c (blank_listed blank)
    simp [here] at no

theorem digit_visible {c : Char} (digit : isDigit c = true) : isBlank c = false :=
  visible_of (by decide +kernel) digit

theorem name_visible {c : Char} (continues : continuesName c = true) : isBlank c = false :=
  visible_of (by decide +kernel) continues

theorem run_visible {wanted : Char → Bool}
    (visible : ∀ {c}, wanted c = true → isBlank c = false) (text : List Char) :
    ∀ c ∈ text.takeWhile wanted, isBlank c = false :=
  fun _ member => visible (List.mem_takeWhile_imp member)

theorem numeral_characters (text : List Char) : ∀ c ∈ (numeral text).2, isBlank c = false := by
  unfold numeral
  dsimp only
  split
  · split
    · exact run_visible digit_visible text
    · rw [List.forall_mem_append, List.forall_mem_cons]
      exact ⟨run_visible digit_visible text, rfl, run_visible digit_visible _⟩
  · exact run_visible digit_visible text

theorem dotted_characters (text : List Char) :
    ∀ c ∈ (dottedName text).2, isBlank c = false := by
  induction text using dottedName.induct with
  | case1 c rest start capital inner more later ih =>
    rw [later] at ih
    rw [dottedName, if_pos start, if_pos capital, later]
    simp only [List.cons_append, List.forall_mem_cons, List.forall_mem_append]
    exact ⟨rfl, name_visible (starts_continues start), run_visible name_visible rest, ih⟩
  | case2 c rest start capital =>
    rw [dottedName, if_pos start, if_neg capital]
    simp only [List.forall_mem_cons]
    exact ⟨rfl, name_visible (starts_continues start), run_visible name_visible rest⟩
  | case3 c rest start =>
    rw [dottedName, if_neg start]
    exact List.forall_mem_nil _
  | case4 text plain =>
    rw [dottedName]
    · exact List.forall_mem_nil _
    · exact plain

theorem name_characters (text : List Char) : ∀ c ∈ (name text).2, isBlank c = false := by
  unfold name
  split
  · rw [List.forall_mem_append]
    exact ⟨run_visible name_visible text, dotted_characters _⟩
  · dsimp only
    split <;> exact run_visible name_visible text

theorem mark_characters (mark : Mark) : ∀ c ∈ mark.chars, isBlank c = false := by
  have each : mark.chars.all (!isBlank ·) = true := by cases mark <;> rfl
  simpa using each

theorem lexeme_cases {c : Char} {rest part : List Char} {kind : TokenKind}
    (taken : first c rest = .ok (.lexeme kind part)) :
    (∃ body, kind = .string ∧ part = '"' :: body ∧ Quoted body) ∨
      ∀ d ∈ part, isBlank d = false := by
  unfold first at taken
  split at taken
  · cases taken
  split at taken
  · cases taken
  split at taken
  · split at taken <;> cases taken
  split at taken
  · rename_i quote
    split at taken
    · rename_i body closed
      cases taken
      exact .inl ⟨body, rfl, by rw [quote], (string_quoted closed).1⟩
    · cases taken
  right
  split at taken
  · cases taken
    exact numeral_characters (c :: rest)
  split at taken
  · cases taken
    exact name_characters (c :: rest)
  · split at taken
    · cases taken
      exact mark_characters _
    · cases taken

theorem Quoted.ends {body : List Char} (quoted : Quoted body) : ∃ inner, body = inner ++ ['"'] := by
  induction quoted with
  | closes => exact ⟨[], rfl⟩
  | escape c later ih =>
    obtain ⟨inner, rfl⟩ := ih
    exact ⟨'\\' :: c :: inner, rfl⟩
  | @plain c rest quote feed escape later ih =>
    obtain ⟨inner, rfl⟩ := ih
    exact ⟨c :: inner, rfl⟩

theorem Commented.ends {body : List Char} (commented : Commented body) :
    ∃ inner, body = inner ++ ['\x7d'] := by
  induction commented with
  | closes => exact ⟨['-'], rfl⟩
  | @plain c rest apart later ih =>
    obtain ⟨inner, rfl⟩ := ih
    exact ⟨c :: inner, rfl⟩

theorem lexeme_ends {c : Char} {rest part : List Char} {kind : TokenKind}
    (taken : first c rest = .ok (.lexeme kind part)) :
    ∃ inner last, part = inner ++ [last] ∧ isBlank last = false := by
  rcases lexeme_cases taken with ⟨body, _, rfl, quoted⟩ | visible
  · obtain ⟨inner, rfl⟩ := quoted.ends
    exact ⟨'"' :: inner, '"', rfl, rfl⟩
  · obtain ⟨inner, last, rfl⟩ := (List.eq_nil_or_concat part).resolve_left (first_some taken)
    exact ⟨inner, last, List.concat_eq_append, visible last (by simp)⟩

theorem Cuts.ends {text part : List Char} {inner back : List Piece} {kind : TokenKind}
    (cuts : Cuts text (inner ++ [lexeme kind part] ++ back)) :
    ∀ c ∈ ((inner ++ [lexeme kind part]).flatMap Piece.text).getLast?, isBlank c = false := by
  rw [List.append_assoc] at cuts
  obtain ⟨behind, -, rest⟩ := cuts.drop
  cases rest with
  | cons taken split later =>
    subst split
    obtain ⟨visible, last, parts, shown⟩ := lexeme_ends taken
    intro c final
    simp only [List.flatMap_append, List.flatMap_cons, List.flatMap_nil, List.append_nil,
      Piece.text, parts, ← List.append_assoc, List.getLast?_concat] at final
    cases final
    exact shown

theorem first_blank {c : Char} {rest : List Char} {piece : Piece}
    (taken : first c rest = .ok piece) (blank : isBlank c = true) : isSpace c = true := by
  obtain ⟨tail, behind, text, rfl⟩ := first_front taken
  cases piece with
  | gap part =>
    subst text
    cases first_gap_iff.mp taken with
    | spaces space each stops => exact space
    | line | block => cases blank
  | lexeme kind part =>
    subst text
    have visible : isBlank c = false := by
      rcases lexeme_cases taken with ⟨body, _, split, _⟩ | visible
      · cases split
        rfl
      · exact visible c List.mem_cons_self
    rw [visible] at blank
    cases blank

theorem space_blank {c : Char} (space : isSpace c = true) : isBlank c = true := by
  rcases space_cases space with rfl | rfl | rfl | rfl <;> rfl

/-! What becomes of the pieces of a text when its runs of blanks are made one space -/

theorem resembles_squeezed (text other : List Char) :
    Resembles (text ++ other) (squeeze false text) := by
  cases text with
  | nil => exact .clear nofun
  | cons c rest =>
    rw [squeeze]
    split
    · refine .clear fun d next => ?_
      cases next
      rfl
    · cases rest with
      | nil => exact .one nofun
      | cons d more =>
        rw [squeeze]
        split
        · refine .one fun d next => ?_
          cases next
          rfl
        · exact .two rfl

theorem Quoted.squeezed {body : List Char} (quoted : Quoted body) (behind : Bool) :
    Quoted (squeeze behind body) := by
  induction quoted generalizing behind with
  | closes => exact .closes
  | @escape c rest later ih =>
    have escape : squeeze behind ('\\' :: c :: rest) = '\\' :: squeeze false (c :: rest) := rfl
    rw [escape, squeeze]
    split
    · exact .escape ' ' (ih true)
    · exact .escape c (ih false)
  | @plain c rest quote feed escape later ih =>
    rw [squeeze]
    split
    · split
      · exact ih true
      · exact .plain (by decide) (by decide) (by decide) (ih true)
    · exact .plain quote feed escape (ih false)

theorem Commented.squeezed {body : List Char} (commented : Commented body) (behind : Bool) :
    Commented (squeeze behind body) := by
  induction commented generalizing behind with
  | closes => exact .closes
  | @plain c rest apart later ih =>
    rw [squeeze]
    split
    · split
      · exact ih true
      · exact .plain (fun both => absurd both.1 (by decide)) (ih true)
    · refine .plain (fun both => apart ⟨both.1, ?_⟩) (ih false)
      have same := resembles_squeezed rest []
      rw [List.append_nil] at same
      exact same.next (show isSpace '\x7d' = false from rfl) (show ([] ++ _).head? = _ from both.2)

def lead : List Piece → Option TokenKind
  | .lexeme kind _ :: _ => some kind
  | _ => none

theorem lexeme_squeezed {c : Char} {tail text other : List Char} {kind : TokenKind}
    (taken : first c (tail ++ (text ++ other)) = .ok (.lexeme kind (c :: tail))) :
    ∃ d rest, squeeze false (c :: tail) = d :: rest ∧
      first d (rest ++ squeeze false text) = .ok (.lexeme kind (d :: rest)) := by
  rcases lexeme_cases taken with ⟨body, rfl, split, quoted⟩ | visible
  · cases split
    refine ⟨'"', squeeze false tail, rfl, ?_⟩
    unfold first
    rw [if_neg (by decide), if_neg (fun both => absurd both.1 (by decide)),
      if_neg (fun both => absurd both.1 (by decide)), if_pos rfl, (quoted.squeezed false).read]
  · have kept : squeeze false (c :: tail) = c :: tail := by
      rw [← List.append_nil (c :: tail), squeeze_word (List.cons_ne_nil c tail) visible]
      rfl
    exact ⟨c, tail, kept, first_again taken (resembles_squeezed text other)⟩

theorem Cuts.visible {text : List Char} {front back : List Piece}
    (cuts : Cuts text (front ++ back)) (stops : Stops isSpace text) :
    ∀ c ∈ (front.flatMap Piece.text).head?, isBlank c = false := by
  cases front with
  | nil => nofun
  | cons piece front =>
    cases cuts with
    | @cons c tail behind _ _ taken split later =>
      rw [List.flatMap_cons, split]
      intro d next
      cases next
      cases blank : isBlank c with
      | false => rfl
      | true =>
        have apart := stops c rfl
        rw [first_blank taken blank] at apart
        cases apart

theorem blanks_squeezed {c : Char} {tail text : List Char} (space : isSpace c = true)
    (each : ∀ d ∈ tail, isSpace d = true) (visible : ∀ d ∈ text.head?, isBlank d = false) :
    squeeze false (c :: (tail ++ text)) = ' ' :: squeeze false text ∧
      CutGap [' '] (squeeze false text) := by
  constructor
  · rw [squeeze, if_pos (space_blank space), if_neg (by decide),
      squeeze_blanks fun d member => space_blank (each d member), squeeze_head visible]
  · refine .spaces rfl (List.forall_mem_nil _) fun d next => ?_
    cases text with
    | nil => cases next
    | cons e rest =>
      have here := visible e rfl
      rw [squeeze, if_neg (by simp [here]), List.head?_cons, Option.mem_some] at next
      subst next
      cases space : isSpace e with
      | false => rfl
      | true =>
        rw [space_blank space] at here
        cases here

def isRemark : Piece → Bool
  | gap text => ['-', '-'].isPrefixOf text
  | lexeme _ _ => false

def squeezed : Piece → Piece
  | gap text => gap (squeeze false text)
  | lexeme kind text => lexeme kind (squeeze false text)

theorem lead_squeezed {front : List Piece} {kind : TokenKind} (leads : lead front = some kind)
    (others : List Piece) :
    lead ((front.takeWhile (!·.isRemark)).map squeezed ++ others) = some kind := by
  cases front with
  | nil => cases leads
  | cons piece rest =>
    cases piece with
    | gap => cases leads
    | lexeme => exact leads

/-- The front of a text, squeezed, is cut into its pieces, squeezed, up to the first line comment,
which takes all that follows. -/
theorem Cuts.squeezed {text : List Char} {front back : List Piece}
    (cuts : Cuts text (front ++ back)) :
    ∃ comment, Cuts (squeeze false (front.flatMap Piece.text))
        ((front.takeWhile (!·.isRemark)).map Piece.squeezed ++ comment) ∧
      ∀ piece ∈ comment, ∃ text, piece = gap text := by
  induction front generalizing text with
  | nil => exact ⟨[], .nil, nofun⟩
  | cons piece front ih =>
    cases cuts with
    | @cons c tail behind _ _ taken split later =>
      obtain ⟨comment, cut, gaps⟩ := ih later
      have further : ∀ {d rest}, piece.isRemark = false → piece.squeezed.text = d :: rest →
          squeeze false ((piece :: front).flatMap Piece.text) =
            d :: (rest ++ squeeze false (front.flatMap Piece.text)) →
          first d (rest ++ squeeze false (front.flatMap Piece.text)) = .ok piece.squeezed →
          ∃ comment, Cuts (squeeze false ((piece :: front).flatMap Piece.text))
              (((piece :: front).takeWhile (!·.isRemark)).map Piece.squeezed ++ comment) ∧
            ∀ piece ∈ comment, ∃ text, piece = gap text := by
        intro d rest stays here apart again
        rw [apart, List.takeWhile_cons_of_pos (by simp [stays])]
        exact ⟨comment, .cons again here cut, gaps⟩
      cases piece with
      | lexeme kind part =>
        subst split
        obtain ⟨inner, last, parts, visible⟩ := lexeme_ends taken
        have whole : behind = front.flatMap Piece.text ++ back.flatMap Piece.text := by
          rw [← List.flatMap_append]
          exact later.text.symm
        rw [whole] at taken
        obtain ⟨d, rest, squeezed, again⟩ := lexeme_squeezed taken
        have apart := squeeze_behind visible inner (front.flatMap Piece.text) false
        rw [List.append_cons, ← parts, squeezed] at apart
        exact further rfl squeezed apart (again.trans (by rw [Piece.squeezed, squeezed]))
      | gap part =>
        subst split
        cases first_gap_iff.mp taken with
        | spaces space each stops =>
          obtain ⟨one, gap⟩ := blanks_squeezed space each (later.visible stops)
          have alone : squeeze false (c :: tail) = [' '] := by
            rw [← List.append_nil tail]
            exact (blanks_squeezed space each (by simp)).1
          have stays : isRemark (Piece.gap (c :: tail)) = false := by
            rcases space_cases space with rfl | rfl | rfl | rfl <;> rfl
          refine @further ' ' [] stays alone one ?_
          rw [Piece.squeezed, alone]
          exact first_gap_iff.mpr gap
        | @line tail _ each stops =>
          have free : ∀ d ∈ squeeze false (tail ++ front.flatMap Piece.text), d ≠ '\n' := by
            rintro d member rfl
            exact absurd (squeeze_blank _ member rfl) (by decide)
          have rest : CutGap ('-' :: '-' :: squeeze false (tail ++ front.flatMap Piece.text)) [] :=
            .line free nofun
          have whole := Cuts.cons (first_gap_iff.mpr rest) rfl .nil
          rw [List.append_nil] at whole
          rw [List.takeWhile_cons_of_neg (by simp [isRemark])]
          exact ⟨_, whole, by simp⟩
        | @block body _ commented =>
          obtain ⟨inner, rfl⟩ := commented.ends
          have apart := squeeze_behind (c := '\x7d') rfl ('\x7b' :: '-' :: inner)
            (front.flatMap Piece.text) false
          rw [List.append_cons] at apart
          exact further rfl rfl apart (first_gap_iff.mpr (.block (commented.squeezed false)))

end Piece

end PureJs
