import PureJs.Proofs.Token.Lexemes

/-!
A text is cut into pieces from its front. Texts joined by a line feed are cut as they are alone: no
piece of the first goes on behind the line feed, but for blanks at its end, and so the tokens of the
second are the same ones further down.
-/

namespace PureJs

namespace Position

def below (lines : Nat) (place : Position) : Position := ⟨place.line + lines, place.column⟩

theorem after_append (place : Position) (front back : List Char) :
    place.after (front ++ back) = (place.after front).after back :=
  List.foldl_append

theorem after_line (place : Position) (text : List Char) :
    place.line ≤ (place.after text).line := by
  have moved := place.after_cases text
  omega

theorem below_after (lines : Nat) (place : Position) (text : List Char) :
    (place.below lines).after text = (place.after text).below lines := by
  induction text generalizing place with
  | nil => rfl
  | cons c rest ih =>
    have step : (place.below lines).next c = (place.next c).below lines := by
      by_cases feed : c = '\n'
      · simp [next, below, feed]
        omega
      · simp [next, below, feed]
    show ((place.below lines).next c).after rest = _
    rw [step]
    exact ih _

theorem after_feed (place : Position) (text : List Char) :
    place.after (text ++ ['\n']) = start.below (place.after text).line := by
  rw [after_append]
  show (place.after text).next '\n' = _
  simp [next, below, start]
  omega

theorem feed_line (place : Position) (text : List Char) :
    place.line < (place.after (text ++ ['\n'])).line := by
  have further := place.after_line text
  rw [after_feed]
  simp only [below, start]
  omega

end Position

namespace Token

def moved (lines offset : Nat) (token : Token) : Token :=
  { token with
    place := token.place.below lines
    start := token.start + offset
    stop := token.stop + offset }

theorem locate_some (pieces : List Piece) (place : Position) (offset line : Nat) :
    locate place offset line pieces ≠ [] := by
  obtain ⟨front, finish, stop, ends⟩ := locate_ends pieces place offset line
  simp [ends]

theorem locate_moved (lines shift : Nat) (pieces : List Piece) (place : Position)
    (offset line : Nat) :
    locate (place.below lines) (offset + shift) (line + lines) pieces =
      (locate place offset line pieces).map (moved lines shift) := by
  induction pieces generalizing place offset line with
  | nil => rfl
  | cons piece rest ih =>
    cases piece with
    | gap text =>
      rw [locate, locate, Position.below_after, Nat.add_right_comm]
      exact ih _ _ _
    | lexeme kind text =>
      have stop : offset + shift + text.length = offset + text.length + shift :=
        Nat.add_right_comm ..
      rw [locate, locate, Position.below_after, stop, List.map_cons]
      congr 1
      · simp [moved, Position.below]
      · exact ih _ _ _

theorem locate_line (pieces : List Piece) {place : Position} (offset : Nat) {line other : Nat}
    (above : line < place.line) (before : other < place.line) :
    locate place offset line pieces = locate place offset other pieces := by
  induction pieces generalizing place offset with
  | nil => rfl
  | cons piece rest ih =>
    cases piece with
    | gap text =>
      have further := place.after_line text
      exact ih _ (by omega) (by omega)
    | lexeme kind text =>
      have opens : decide (place.line ≠ line) = decide (place.line ≠ other) := by
        rw [decide_eq_true (by omega), decide_eq_true (by omega)]
      rw [locate, locate, opens]

end Token

namespace Piece

inductive CutGap : List Char → List Char → Prop
  | spaces {c : Char} {tail behind : List Char} (space : isSpace c = true)
    (each : ∀ d ∈ tail, isSpace d = true) (stops : Stops isSpace behind) : CutGap (c :: tail) behind
  | line {tail behind : List Char} (each : ∀ d ∈ tail, d ≠ '\n')
    (stops : Stops (· ≠ '\n') behind) : CutGap ('-' :: '-' :: tail) behind
  | block {body behind : List Char} (commented : Commented body) :
    CutGap ('\x7b' :: '-' :: body) behind

theorem gap_cut {c : Char} {tail behind : List Char}
    (taken : first c (tail ++ behind) = .ok (.gap (c :: tail))) : CutGap (c :: tail) behind := by
  unfold first at taken
  split at taken
  · rename_i space
    simp only [Except.ok.injEq, gap.injEq, List.cons.injEq, true_and] at taken
    exact .spaces space (takeWhile_run taken).1 (takeWhile_run taken).2
  split at taken
  · rename_i comment
    simp only [Except.ok.injEq, gap.injEq, List.cons.injEq, true_and] at taken
    obtain ⟨rfl, next⟩ := comment
    obtain ⟨each, stops⟩ := takeWhile_run taken
    cases tail with
    | nil => exact absurd (stops '-' next) (by decide)
    | cons d rest =>
      cases next
      refine .line (fun e member => ?_) stops
      simpa using each e (List.mem_cons_of_mem '-' member)
  split at taken
  · rename_i block
    obtain ⟨rfl, next⟩ := block
    obtain ⟨more, split⟩ := List.head?_eq_some_iff.mp next
    split at taken
    · rename_i body closed
      simp only [Except.ok.injEq, gap.injEq, List.cons.injEq, true_and] at taken
      subst taken
      exact .block (comment_commented closed).1
    · cases taken
  split at taken
  · split at taken <;> cases taken
  split at taken
  · cases taken
  split at taken
  · cases taken
  · split at taken <;> cases taken

theorem CutGap.taken {c : Char} {tail behind : List Char} (gap : CutGap (c :: tail) behind) :
    first c (tail ++ behind) = .ok (.gap (c :: tail)) := by
  cases gap with
  | spaces space each stops =>
    unfold first
    rw [if_pos space, takeWhile_stops each stops]
  | @line tail _ each stops =>
    have each : ∀ d ∈ '-' :: tail, decide (d ≠ '\n') = true := by
      simpa using each
    unfold first
    rw [if_neg (by decide), if_pos ⟨rfl, rfl⟩, takeWhile_stops each stops]
  | @block body _ commented =>
    have closed : blockComment? ('-' :: body ++ behind).tail = some body :=
      commented.read behind
    unfold first
    rw [if_neg (by decide), if_neg (fun both => absurd both.1 (by decide)), if_pos ⟨rfl, rfl⟩]
    simp only [closed]

theorem first_gap_iff {c : Char} {tail behind : List Char} :
    first c (tail ++ behind) = .ok (.gap (c :: tail)) ↔ CutGap (c :: tail) behind :=
  ⟨gap_cut, CutGap.taken⟩

inductive Cuts : List Char → List Piece → Prop
  | nil : Cuts [] []
  | cons {c : Char} {tail behind : List Char} {piece : Piece} {others : List Piece}
    (taken : first c (tail ++ behind) = .ok piece) (text : piece.text = c :: tail)
    (later : Cuts behind others) : Cuts (c :: (tail ++ behind)) (piece :: others)

theorem cuts_iff {text : List Char} {pieces : List Piece} :
    ofText text = (pieces, none) ↔ Cuts text pieces := by
  constructor
  · intro cut
    induction text using ofText.induct generalizing pieces with
    | case1 =>
      rw [ofText] at cut
      cases cut
      exact .nil
    | case2 c rest problem failed =>
      rw [ofText, failed] at cut
      cases cut
    | case3 c rest piece front others problem later ih =>
      rw [ofText, front] at cut
      simp only [later] at cut
      cases cut
      obtain ⟨tail, behind, text, rfl⟩ := first_front front
      have dropped : (tail ++ behind).drop (piece.text.length - 1) = behind := by simp [text]
      rw [dropped] at ih later
      exact .cons front text (ih later)
  · intro cuts
    induction cuts with
    | nil => rw [ofText]
    | @cons c tail behind piece others taken text later ih =>
      have dropped : (tail ++ behind).drop (piece.text.length - 1) = behind := by simp [text]
      rw [ofText, taken]
      simp only [dropped, ih]

theorem Cuts.text {text : List Char} {pieces : List Piece} (cuts : Cuts text pieces) :
    pieces.flatMap Piece.text = text := by
  induction cuts with
  | nil => rfl
  | cons taken text later ih => rw [List.flatMap_cons, text, ih, List.cons_append]

theorem Cuts.drop {text : List Char} {front back : List Piece} (cuts : Cuts text (front ++ back)) :
    ∃ behind, text = front.flatMap Piece.text ++ behind ∧ Cuts behind back := by
  induction front generalizing text with
  | nil => exact ⟨text, rfl, cuts⟩
  | cons piece front ih =>
    cases cuts with
    | cons taken split later =>
      obtain ⟨behind, rfl, rest⟩ := ih later
      exact ⟨behind, by simp [split], rest⟩

theorem resembles_feed (text other : List Char) : Resembles text (text ++ '\n' :: other) := by
  have feed : ∀ text, Clear ('\n' :: text) := by
    intro text c next
    cases next
    rfl
  match text with
  | [] => exact .clear (feed other)
  | [c] => exact .one (feed other)
  | c :: d :: rest => exact .two rfl

theorem Cuts.skip {text : List Char} {pieces : List Piece} (cuts : Cuts text pieces) :
    ∃ others, Cuts (text.dropWhile isSpace) others ∧ ∀ place offset line,
      Token.locate place offset line pieces =
        Token.locate (place.after (text.takeWhile isSpace))
          (offset + (text.takeWhile isSpace).length) line others := by
  cases cuts with
  | nil => exact ⟨[], .nil, fun place offset line => rfl⟩
  | @cons c tail behind piece others taken text later =>
    by_cases space : isSpace c = true
    · have unfolded : first c (tail ++ behind) =
          .ok (.gap (c :: (tail ++ behind).takeWhile isSpace)) := by
        unfold first
        rw [if_pos space]
      cases taken.symm.trans unfolded
      have whole := List.takeWhile_append_dropWhile (p := isSpace) (l := tail ++ behind)
      have run : (tail ++ behind).takeWhile isSpace = tail := (List.cons.inj text).2
      rw [run] at whole
      rw [List.takeWhile_cons_of_pos space, List.dropWhile_cons_of_pos space, run,
        List.append_cancel_left whole]
      exact ⟨others, later, fun place offset line => rfl⟩
    · rw [List.takeWhile_cons_of_neg space, List.dropWhile_cons_of_neg space]
      exact ⟨_, .cons taken text later, fun place offset line => rfl⟩

theorem Cuts.blanks {run text : List Char} {pieces : List Piece} (some : run ≠ [])
    (each : ∀ c ∈ run, isSpace c = true) (cuts : Cuts text pieces) :
    ∃ others, Cuts (run ++ text) others ∧ ∀ place offset line,
      Token.locate place offset line others =
        Token.locate (place.after run) (offset + run.length) line pieces := by
  obtain ⟨c, tail, rfl⟩ := List.exists_cons_of_ne_nil some
  rw [List.forall_mem_cons] at each
  obtain ⟨others, rest, same⟩ := cuts.skip
  have spaces : ∀ d ∈ tail ++ text.takeWhile isSpace, isSpace d = true :=
    List.forall_mem_append.mpr ⟨each.2, fun d member => List.mem_takeWhile_imp member⟩
  have gap : CutGap (c :: (tail ++ text.takeWhile isSpace)) (text.dropWhile isSpace) :=
    .spaces each.1 spaces (stops_dropWhile isSpace text)
  have whole := Cuts.cons (first_gap_iff.mpr gap) rfl rest
  rw [List.append_assoc, List.takeWhile_append_dropWhile] at whole
  refine ⟨_, whole, fun place offset line => ?_⟩
  rw [same, Token.locate, ← List.cons_append, Position.after_append, List.length_append,
    Nat.add_assoc]

/-- The pieces are a cut of a text and, behind a line feed, of another, of which they have the
tokens as they are alone. -/
def Joins (text other : List Char) (pieces others all : List Piece) : Prop :=
  Cuts (text ++ '\n' :: other) all ∧ ∀ place offset line, line ≤ place.line →
    Token.locate place offset line all =
      (Token.locate place offset line pieces).dropLast ++
        Token.locate (place.after (text ++ ['\n'])) (offset + (text.length + 1)) line others

/-- A piece that is cut from the text is cut from the joined one, if it is found there. -/
theorem Joins.cons {c : Char} {tail behind other : List Char} {piece : Piece}
    {rest others all : List Piece} (again : first c (tail ++ (behind ++ '\n' :: other)) = .ok piece)
    (text : piece.text = c :: tail) (joins : Joins behind other rest others all) :
    Joins (c :: (tail ++ behind)) other (piece :: rest) others (piece :: all) := by
  obtain ⟨cuts, same⟩ := joins
  have whole := Cuts.cons again text cuts
  rw [← List.append_assoc] at whole
  refine ⟨whole, fun place offset line above => ?_⟩
  have front : c :: (tail ++ behind) = piece.text ++ behind := by rw [text, List.cons_append]
  have further := place.after_line piece.text
  have length : offset + piece.text.length + (behind.length + 1) =
      offset + ((piece.text ++ behind).length + 1) := by
    rw [List.length_append]
    omega
  rw [front, List.append_assoc, Position.after_append, ← length]
  cases piece with
  | gap part => exact same _ _ _ (Nat.le_trans above further)
  | lexeme kind part =>
    have kept := same (place.after part) (offset + part.length) place.line further
    have lower := (place.after part).feed_line behind
    have turned := Token.locate_line others (offset + part.length + (behind.length + 1))
      (Nat.lt_of_le_of_lt further lower) (Nat.lt_of_le_of_lt (Nat.le_trans above further) lower)
    rw [Token.locate, Token.locate, List.dropLast_cons_of_ne_nil (Token.locate_some rest _ _ _),
      List.cons_append, kept, turned]
    rfl

/-- Behind a line feed, a text is cut as it is alone, and so is the text before it. -/
theorem Cuts.join {text other : List Char} {pieces others : List Piece} (cuts : Cuts text pieces)
    (more : Cuts other others) : ∃ all, Joins text other pieces others all := by
  induction cuts with
  | nil =>
    obtain ⟨all, cuts, same⟩ := more.blanks (List.cons_ne_nil '\n' []) (by simp [isSpace])
    exact ⟨all, cuts, fun place offset line _ => same place offset line⟩
  | @cons c tail behind piece rest taken text later ih =>
    obtain ⟨all, joins⟩ := ih
    have goes (again : first c (tail ++ (behind ++ '\n' :: other)) = .ok piece) :
        ∃ all, Joins (c :: (tail ++ behind)) other (piece :: rest) others all :=
      ⟨_, joins.cons again text⟩
    cases piece with
    | lexeme kind part =>
      subst text
      exact goes (first_again taken (resembles_feed behind other))
    | gap part =>
      subst text
      cases first_gap_iff.mp taken with
      | spaces space each stops =>
        cases behind with
        | nil =>
          cases later
          have blank : ∀ d ∈ c :: tail ++ ['\n'], isSpace d = true := by
            rw [List.forall_mem_append, List.forall_mem_cons]
            exact ⟨⟨space, each⟩, by simp [isSpace]⟩
          obtain ⟨all, cuts, same⟩ := more.blanks (by simp) blank
          refine ⟨all, by simpa using cuts, fun place offset line _ => ?_⟩
          rw [same]
          simp [Token.locate]
        | cons d last => exact goes (first_gap_iff.mpr (.spaces space each stops))
      | line each stops =>
        refine goes (first_gap_iff.mpr (.line each ?_))
        cases behind with
        | nil => simp [Stops]
        | cons d last => exact stops
      | block commented => exact goes (first_gap_iff.mpr (.block commented))

end Piece

namespace Token

theorem locate_within (pieces : List Piece) (place : Position) (offset line : Nat) :
    ∀ token ∈ locate place offset line pieces,
      token.stop ≤ offset + (pieces.flatMap Piece.text).length := by
  induction pieces generalizing place offset line with
  | nil => simp [locate, endOfInput]
  | cons piece rest ih =>
    intro token member
    rw [List.flatMap_cons, List.length_append]
    cases piece with
    | gap text =>
      have within := ih _ _ _ token member
      simp only [Piece.text]
      omega
    | lexeme kind text =>
      simp only [Piece.text]
      rcases List.mem_cons.mp member with same | later
      · subst token
        dsimp only
        omega
      · have within := ih _ _ _ token later
        omega

theorem scan_cuts {text : List Char} {tokens : List Token} (scanned : scan text = .ok tokens) :
    ∃ pieces, Piece.Cuts text pieces ∧ tokens = locate Position.start 0 0 pieces := by
  unfold scan at scanned
  split at scanned
  · rename_i pieces cut
    cases scanned
    exact ⟨pieces, Piece.cuts_iff.mp cut, rfl⟩
  · cases scanned

theorem scan_nil : scan [] = .ok ([] ++ [endOfInput .start 0]) := by
  rw [scan, Piece.ofText]
  rfl

theorem scan_within {text : List Char} {tokens : List Token} (scanned : scan text = .ok tokens) :
    ∀ token ∈ tokens, token.stop ≤ text.length := by
  obtain ⟨pieces, cuts, rfl⟩ := scan_cuts scanned
  intro token member
  have within := locate_within pieces _ _ _ token member
  rwa [cuts.text, Nat.zero_add] at within

/-- The lines of a text, of which there is at least one. -/
def lineCount (text : List Char) : Nat := (Position.start.after text).line

/-- Behind a line feed, a text has the tokens that it has alone, and so has the text before it. -/
theorem scan_join {text other : List Char} {tokens others : List Token}
    (scanned : scan text = .ok tokens) (more : scan other = .ok others) :
    scan (text ++ '\n' :: other) =
      .ok (tokens.dropLast ++ others.map (moved (lineCount text) (text.length + 1))) := by
  obtain ⟨front, cut, rfl⟩ := scan_cuts scanned
  obtain ⟨back, cut', rfl⟩ := scan_cuts more
  obtain ⟨all, whole, same⟩ := cut.join cut'
  have turned : locate (Position.start.below (lineCount text)) (0 + (text.length + 1)) 0 back =
      locate (Position.start.below (lineCount text)) (0 + (text.length + 1))
        (0 + lineCount text) back := by
    apply locate_line <;> simp only [Position.below, Position.start] <;> omega
  rw [locate_moved] at turned
  unfold scan
  rw [Piece.cuts_iff.mpr whole]
  dsimp only
  rw [same _ _ _ (Nat.zero_le _), Position.after_feed]
  exact congrArg (fun last => Except.ok (_ ++ last)) turned

end Token

end PureJs
