import PureJs.Proofs.Token.Blanks

/-!
The tokens of a text account for all of it: what occupies between them is blanks and comments. So
each token is where its offset says, on the line that the line feeds in front of it lead to.
-/

namespace PureJs

namespace Position

theorem after_count (place : Position) (text : List Char) :
    (place.after text).line = text.count '\n' + place.line := by
  induction text generalizing place with
  | nil => simp [after]
  | cons c rest ih =>
    have step : place.after (c :: rest) = (place.next c).after rest := rfl
    rw [step, ih]
    by_cases feed : c = '\n'
    · simp [next, feed]
      omega
    · simp [next, feed]

/-- A text as its whole lines and what occupies on its last one. -/
structure EndsIn (text above row : List Char) : Prop where
  whole : text = above ++ row
  closed : above = [] ∨ above.getLast? = some '\n'
  flat : '\n' ∉ row

theorem after_rows (text : List Char) :
    ∃ above row, EndsIn text above row ∧ (start.after text).column = row.length + 1 := by
  induction text using List.reverseRecOn with
  | nil => exact ⟨[], [], ⟨rfl, .inl rfl, List.not_mem_nil⟩, rfl⟩
  | append_singleton front c ih =>
    obtain ⟨above, row, ends, column⟩ := ih
    have step : start.after (front ++ [c]) = (start.after front).next c := after_append ..
    rw [step]
    by_cases feed : c = '\n'
    · refine ⟨front ++ [c], [], ⟨by simp, .inr (by simp [feed]), List.not_mem_nil⟩, ?_⟩
      simp [next, feed]
    · refine ⟨above, row ++ [c], ⟨by simp [ends.whole], ends.closed, ?_⟩, ?_⟩
      · simp [ends.flat, Ne.symm feed]
      · simp [next, feed, column]

end Position

namespace Piece

theorem name_no_end (text : List Char) : (name text).1 ≠ .endOfInput := by
  unfold name
  split
  · dsimp only
    rcases dotted_kind (text.dropWhile continuesName) with kind | kind <;> rw [kind] <;> nofun
  · dsimp only
    split <;> nofun

theorem lexeme_kind {c : Char} {rest part : List Char} {kind : TokenKind}
    (taken : first c rest = .ok (.lexeme kind part)) : kind ≠ .endOfInput := by
  obtain ⟨d, tail, rfl, alone⟩ := first_alone taken
  rcases first_ways alone with ⟨rfl, _⟩ | ⟨_, made⟩ | ⟨_, _, made⟩ | ⟨mark, rfl, _⟩
  · nofun
  · have kinds := numeral_kind (d :: tail)
    rw [made] at kinds
    rcases kinds with rfl | rfl <;> nofun
  · have kinds := name_no_end (d :: tail)
    rwa [made] at kinds
  · nofun

/-- Blanks and whole comments. A comment that goes on to the end of its line can be left open only
by the end of the text. -/
inductive Filler (last : Prop) : List Char → Prop
  | nil : Filler last []
  | blank {c : Char} {rest : List Char} (blank : c ∈ [' ', '\t', '\r', '\n'])
      (later : Filler last rest) : Filler last (c :: rest)
  | line {body rest : List Char} (flat : '\n' ∉ body) (closed : rest.head? = some '\n')
      (later : Filler last rest) : Filler last ('-' :: '-' :: body ++ rest)
  | block {body rest : List Char} (commented : Commented body) (later : Filler last rest) :
      Filler last ('\x7b' :: '-' :: body ++ rest)
  | unclosed {body : List Char} (ends : last) (flat : '\n' ∉ body) :
      Filler last ('-' :: '-' :: body)

theorem Filler.blanks {last : Prop} {run rest : List Char} (each : ∀ c ∈ run, isSpace c = true)
    (later : Filler last rest) : Filler last (run ++ rest) := by
  induction run with
  | nil => exact later
  | cons c run ih =>
    rw [List.forall_mem_cons] at each
    have blank : c ∈ [' ', '\t', '\r', '\n'] := by simpa using space_cases each.1
    exact .blank blank (ih each.2)

theorem CutGap.filler {last : Prop} {gap rest more : List Char} (cut : CutGap gap (rest ++ more))
    (visible : Stops isSpace more) (ends : more = [] → last) (later : Filler last rest) :
    Filler last (gap ++ rest) := by
  cases cut with
  | spaces space each stops =>
    exact later.blanks (List.forall_mem_cons.mpr ⟨space, each⟩)
  | block commented => exact .block commented later
  | @line body _ each stops =>
    have flat : '\n' ∉ body := fun member => each _ member rfl
    cases rest with
    | cons c rest =>
      have feed : c = '\n' := by simpa using stops c rfl
      exact .line flat (congrArg some feed) later
    | nil =>
      have none : more = [] := by
        cases more with
        | nil => rfl
        | cons c more =>
          have feed : c = '\n' := by simpa using stops c rfl
          subst feed
          exact absurd (visible _ rfl) (by decide)
      rw [List.append_nil]
      exact .unclosed (ends none) flat

end Piece

namespace Token

structure Occupies (front gap part : List Char) (t : Token) : Prop where
  filler : Piece.Filler (t.kind = .endOfInput) gap
  place : t.place = Position.start.after (front ++ gap)
  start : t.start = (front ++ gap).length
  stop : t.stop = (front ++ gap ++ part).length

theorem Occupies.gap {front gap inner part more : List Char} {t : Token}
    (cut : Piece.CutGap gap (inner ++ more)) (visible : Piece.Stops Piece.isSpace more)
    (ends : more = [] → t.kind = .endOfInput) (occupies : Occupies (front ++ gap) inner part t) :
    Occupies front (gap ++ inner) part t := by
  obtain ⟨filler, place, start, stop⟩ := occupies
  rw [List.append_assoc front] at place start stop
  exact ⟨cut.filler visible ends filler, place, start, stop⟩

/-- Behind `front`, the tokens take up a text but for the gaps in front of them. -/
inductive Fills : List Char → List Char → List Token → Prop
  | finish {front gap : List Char} {t : Token} (kind : t.kind = .endOfInput)
      (occupies : Occupies front gap [] t) : Fills front gap [t]
  | lexeme {front gap part rest : List Char} {t : Token} {tokens : List Token}
      (kind : t.kind ≠ .endOfInput) (some : part ≠ []) (visible : Piece.Stops Piece.isSpace part)
      (occupies : Occupies front gap part t) (later : Fills (front ++ gap ++ part) rest tokens) :
      Fills front (gap ++ (part ++ rest)) (t :: tokens)

theorem Fills.gap {front gap text : List Char} {tokens : List Token} (cut : Piece.CutGap gap text)
    (fills : Fills (front ++ gap) text tokens) : Fills front (gap ++ text) tokens := by
  cases fills with
  | finish kind occupies =>
    rw [← List.append_nil text] at cut
    exact .finish kind (occupies.gap cut nofun fun _ => kind)
  | @lexeme _ inner part rest t tokens kind some visible occupies later =>
    have further : Piece.Stops Piece.isSpace (part ++ rest) := by
      obtain ⟨c, tail, rfl⟩ := List.exists_cons_of_ne_nil some
      exact visible
    have whole := occupies.gap cut further fun none =>
      absurd (List.append_eq_nil_iff.mp none).1 some
    rw [List.append_assoc front] at later
    rw [← List.append_assoc gap]
    exact .lexeme kind some visible whole later

theorem locate_fills {text : List Char} {pieces : List Piece} (cuts : Piece.Cuts text pieces)
    (front : List Char) (line : Nat) :
    Fills front text (locate (Position.start.after front) front.length line pieces) := by
  induction cuts generalizing front line with
  | nil =>
    exact .finish rfl ⟨.nil, by simp [endOfInput], by simp [endOfInput], by simp [endOfInput]⟩
  | @cons c tail behind piece others taken text later ih =>
    cases piece with
    | gap part =>
      subst text
      have fills := ih (front ++ c :: tail) line
      rw [Position.after_append, List.length_append] at fills
      exact fills.gap (Piece.first_gap_iff.mp taken)
    | lexeme kind part =>
      subst text
      have fills := ih (front ++ c :: tail) (Position.start.after front).line
      rw [Position.after_append, List.length_append] at fills
      have visible : Piece.Stops Piece.isSpace (c :: tail) := by
        rintro _ ⟨⟩
        exact Piece.lexeme_no_space taken
      show Fills front ([] ++ (c :: tail ++ behind)) _
      refine .lexeme (Piece.lexeme_kind taken) (List.cons_ne_nil c tail) visible
        ⟨.nil, ?_, ?_, ?_⟩ ?_
      · simp
      · simp
      · simp
      · simpa using fills

/-- What occupies between a token and the last one of those in front of it. -/
def between (text : List Char) (front : List Token) (t : Token) : List Char :=
  (text.take t.start).drop ((front.getLast?.map Token.stop).getD 0)

section Fills

variable {front text : List Char} {tokens : List Token}

theorem Fills.ends (fills : Fills front text tokens) :
    ∃ lexed last, tokens = lexed ++ [last] ∧ last.kind = .endOfInput ∧
      last.start = (front ++ text).length ∧ last.stop = (front ++ text).length ∧
        ∀ t ∈ lexed, t.kind ≠ .endOfInput ∧ t.start < t.stop := by
  induction fills with
  | @finish front gap t kind occupies =>
    exact ⟨[], t, rfl, kind, occupies.start, by simp [occupies.stop], by simp⟩
  | @lexeme front gap part rest t tokens kind some visible occupies later ih =>
    obtain ⟨lexed, last, rfl, finish, start, stop, each⟩ := ih
    refine ⟨t :: lexed, last, rfl, finish, by simp [start], by simp [stop],
      List.forall_mem_cons.mpr ⟨⟨kind, ?_⟩, each⟩⟩
    have long := List.length_pos_iff.mpr some
    simp only [occupies.start, occupies.stop, List.length_append]
    omega

theorem Fills.ordered (fills : Fills front text tokens) :
    (∀ t ∈ tokens, front.length ≤ t.start) ∧ tokens.Pairwise (·.stop ≤ ·.start) := by
  induction fills with
  | @finish front gap t kind occupies =>
    exact ⟨by simp [occupies.start], List.pairwise_singleton _ _⟩
  | @lexeme front gap part rest t tokens kind some visible occupies later ih =>
    obtain ⟨behind, ordered⟩ := ih
    refine ⟨List.forall_mem_cons.mpr ⟨by simp [occupies.start], fun other member => ?_⟩,
      List.pairwise_cons.mpr ⟨fun other member => ?_, ordered⟩⟩
    · have further := behind other member
      simp only [List.length_append] at further
      omega
    · rw [occupies.stop]
      exact behind other member

theorem getLast_cons_get {α : Type} (get : Token → α) (t : Token) (before : List Token)
    (other : α) :
    ((t :: before).getLast?.map get).getD other = (before.getLast?.map get).getD (get t) := by
  rw [List.getLast?_cons]
  cases before.getLast? <;> rfl

theorem Fills.each (fills : Fills front text tokens) {before after : List Token} {t : Token}
    (split : tokens = before ++ t :: after) :
    ∃ past gap part behind, front ++ text = past ++ gap ++ behind ∧ Occupies past gap part t ∧
      past.length = (before.getLast?.map Token.stop).getD front.length := by
  induction fills generalizing before with
  | @finish front gap only kind occupies =>
    cases before with
    | nil =>
      cases split
      exact ⟨front, gap, [], [], by simp, occupies, rfl⟩
    | cons first before => simp at split
  | @lexeme front gap part rest first tokens kind some visible occupies later ih =>
    cases before with
    | nil =>
      cases split
      exact ⟨front, gap, part, part ++ rest, by simp, occupies, rfl⟩
    | cons other before =>
      obtain ⟨rfl, others⟩ := List.cons.inj split
      obtain ⟨past, inner, taken, behind, whole, there, last⟩ := ih others
      refine ⟨past, inner, taken, behind, ?_, there, ?_⟩
      · rw [← whole]
        simp
      · rw [last, getLast_cons_get, occupies.stop]

end Fills

/-- The tokens stand in a text in order and apart from each other, with blanks and comments in front
of them, and the place of each one is that of its offset. -/
structure Covers (text : List Char) (tokens : List Token) : Prop where
  ends : ∃ lexed last, tokens = lexed ++ [last] ∧ last.kind = .endOfInput ∧
    last.start = text.length ∧ last.stop = text.length ∧
      ∀ t ∈ lexed, t.kind ≠ .endOfInput ∧ t.start < t.stop
  ordered : tokens.Pairwise (·.stop ≤ ·.start)
  filled : ∀ before t after, tokens = before ++ t :: after →
    Piece.Filler (t.kind = .endOfInput) (between text before t)
  placed : ∀ t ∈ tokens, t.place.line = (text.take t.start).count '\n' + 1 ∧
    ∃ above row, Position.EndsIn (text.take t.start) above row ∧
      t.place.column = t.start - above.length + 1

/-- The tokens of a text account for all of it. -/
theorem scan_covers {text : List Char} {tokens : List Token} (scanned : scan text = .ok tokens) :
    Covers text tokens := by
  obtain ⟨pieces, cuts, rfl⟩ := scan_cuts scanned
  have fills : Fills [] text (locate .start 0 0 pieces) := locate_fills cuts [] 0
  refine ⟨fills.ends, fills.ordered.2, ?_, ?_⟩
  · intro before t after split
    obtain ⟨past, gap, part, behind, whole, occupies, last⟩ := fills.each split
    have here : between text before t = gap := by
      rw [between, show text = _ from whole, occupies.start, List.take_left]
      exact (congrArg (List.drop · (past ++ gap)) last.symm).trans List.drop_left
    rw [here]
    exact occupies.filler
  · intro t member
    obtain ⟨before, after, split⟩ := List.append_of_mem member
    obtain ⟨past, gap, part, behind, whole, occupies, -⟩ := fills.each split
    have front : text.take t.start = past ++ gap := by
      rw [show text = _ from whole, occupies.start, List.take_left]
    obtain ⟨above, row, ends, column⟩ := Position.after_rows (past ++ gap)
    rw [front, occupies.place, occupies.start]
    refine ⟨Position.after_count .., above, row, ends, ?_⟩
    rw [column, ends.whole, List.length_append, Nat.add_sub_cancel_left]

/-- A text with a comment over two lines, a string with a line feed in it, a comment to the end of
its line and one that the end of the text leaves open. -/
def remarked : List Char :=
  "f \x7b- one\n-- two -\x7d = \"a\\\nb\" -- three\n  + 2.5 --".toList

theorem remarked_covered :
    ∃ tokens, scan remarked = .ok tokens ∧
      tokens.map (fun t => (t.place.line, t.place.column, t.start, t.stop)) =
        [(1, 1, 0, 1), (2, 11, 19, 20), (2, 13, 21, 27), (4, 3, 39, 40), (4, 5, 41, 44),
          (4, 11, 47, 47)] ∧
      Covers remarked tokens := by
  have reads : (match scan remarked with
      | .ok tokens => tokens.map fun t => (t.place.line, t.place.column, t.start, t.stop)
      | .error _ => []) =
      [(1, 1, 0, 1), (2, 11, 19, 20), (2, 13, 21, 27), (4, 3, 39, 40), (4, 5, 41, 44),
        (4, 11, 47, 47)] := by decide +kernel
  split at reads
  · rename_i tokens scanned
    exact ⟨tokens, scanned, reads, scan_covers scanned⟩
  · cases reads

end Token

end PureJs
