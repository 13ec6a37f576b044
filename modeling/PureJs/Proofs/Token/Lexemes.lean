import PureJs.Proofs.Token.Places

/-!
How far the cutting of a text looks ahead. A lexeme is the same one before other characters, if the
next two are the same, or if there is a blank or the end of the text before they differ.
-/

namespace PureJs.Piece

def Stops (wanted : Char → Bool) (text : List Char) : Prop := ∀ c ∈ text.head?, wanted c = false

def Clear (text : List Char) : Prop := ∀ c ∈ text.head?, isSpace c = true

/-- The second text goes on like the first one for two characters, or breaks off before. -/
inductive Resembles : List Char → List Char → Prop
  | clear {text other : List Char} (clear : Clear other) : Resembles text other
  | one {c : Char} {text other : List Char} (clear : Clear other) :
    Resembles (c :: text) (c :: other)
  | two {c : Char} {text other : List Char} (same : other.head? = text.head?) :
    Resembles (c :: text) (c :: other)

section Looking

variable {wanted : Char → Bool} {front text other : List Char}

theorem stops_clear (unwanted : ∀ c, isSpace c = true → wanted c = false) (clear : Clear text) :
    Stops wanted text :=
  fun c next => unwanted c (clear c next)

theorem Resembles.stops (unwanted : ∀ c, isSpace c = true → wanted c = false)
    (resembles : Resembles text other) (stops : Stops wanted text) : Stops wanted other := by
  cases resembles with
  | clear clear => exact stops_clear unwanted clear
  | one | two => exact stops

theorem Resembles.stops_behind (unwanted : ∀ c, isSpace c = true → wanted c = false)
    (resembles : Resembles text other) (stops : Stops wanted (front ++ text)) :
    Stops wanted (front ++ other) := by
  cases front with
  | nil => exact resembles.stops unwanted stops
  | cons c rest => exact stops

theorem Resembles.next {c : Char} (resembles : Resembles text other) (visible : isSpace c = false)
    (next : (front ++ other).head? = some c) : (front ++ text).head? = some c := by
  by_contra no
  have stops : Stops (· = c) (front ++ text) := by
    intro d here
    rw [decide_eq_false_iff_not]
    rintro rfl
    exact no here
  have unwanted : ∀ d, isSpace d = true → decide (d = c) = false := by
    intro d space
    rw [decide_eq_false_iff_not]
    rintro rfl
    rw [visible] at space
    cases space
  have found := resembles.stops_behind unwanted stops c next
  simp at found

theorem takeWhile_none : text.takeWhile wanted = [] ↔ Stops wanted text := by
  cases text with
  | nil => simp [Stops]
  | cons c rest => cases here : wanted c <;> simp [Stops, here]

theorem takeWhile_stops (each : ∀ c ∈ front, wanted c = true) (stops : Stops wanted text) :
    (front ++ text).takeWhile wanted = front := by
  rw [List.takeWhile_append_of_pos each, takeWhile_none.mpr stops, List.append_nil]

theorem dropWhile_stops (each : ∀ c ∈ front, wanted c = true) (stops : Stops wanted text) :
    (front ++ text).dropWhile wanted = text := by
  have whole := List.takeWhile_append_dropWhile (p := wanted) (l := front ++ text)
  rw [takeWhile_stops each stops] at whole
  exact List.append_cancel_left whole

theorem stops_dropWhile (wanted : Char → Bool) (text : List Char) :
    Stops wanted (text.dropWhile wanted) := by
  intro c next
  have found := List.head?_dropWhile_not wanted text
  rw [Option.mem_def.mp next] at found
  simpa using found

theorem takeWhile_run (run : (front ++ text).takeWhile wanted = front) :
    (∀ c ∈ front, wanted c = true) ∧ Stops wanted text := by
  have whole := List.takeWhile_append_dropWhile (p := wanted) (l := front ++ text)
  have stops := stops_dropWhile wanted (front ++ text)
  rw [run] at whole
  rw [List.append_cancel_left whole] at stops
  refine ⟨fun c member => ?_, stops⟩
  rw [← run] at member
  exact List.mem_takeWhile_imp member

end Looking

theorem space_cases {c : Char} (space : isSpace c = true) :
    c = ' ' ∨ c = '\t' ∨ c = '\r' ∨ c = '\n' := by
  simpa [isSpace, or_assoc] using space

theorem space_unwanted {wanted : Char → Bool}
    (none : [' ', '\t', '\r', '\n'].all (!wanted ·) = true) (c : Char) (space : isSpace c = true) :
    wanted c = false := by
  simp only [List.all_cons, List.all_nil, Bool.and_true, Bool.and_eq_true, Bool.not_eq_true']
    at none
  rcases space_cases space with rfl | rfl | rfl | rfl
  · exact none.1
  · exact none.2.1
  · exact none.2.2.1
  · exact none.2.2.2

theorem space_no_digit : ∀ c, isSpace c = true → Text.isDigit c = false :=
  space_unwanted (by decide)

theorem space_continues_no_name : ∀ c, isSpace c = true → continuesName c = false :=
  space_unwanted (by decide +kernel)

theorem space_starts_no_name : ∀ c, isSpace c = true → startsName c = false :=
  space_unwanted (by decide +kernel)

/-! What stands behind the opening of a string literal or of a block comment -/

inductive Quoted : List Char → Prop
  | closes : Quoted ['"']
  | escape (c : Char) {rest : List Char} (later : Quoted rest) : Quoted ('\\' :: c :: rest)
  | plain {c : Char} {rest : List Char} (quote : c ≠ '"') (feed : c ≠ '\n') (escape : c ≠ '\\')
    (later : Quoted rest) : Quoted (c :: rest)

inductive Commented : List Char → Prop
  | closes : Commented ['-', '\x7d']
  | plain {c : Char} {rest : List Char} (apart : ¬(c = '-' ∧ rest.head? = some '\x7d'))
    (later : Commented rest) : Commented (c :: rest)

theorem string_plain {c : Char} (quote : c ≠ '"') (feed : c ≠ '\n') (escape : c ≠ '\\')
    (text : List Char) : stringLiteral? (c :: text) = (stringLiteral? text).map (c :: ·) := by
  rw [stringLiteral?]
  · exact quote
  · exact feed
  · exact fun same _ => escape same
  · exact fun _ _ same _ => escape same

theorem comment_plain {c : Char} (text : List Char)
    (apart : ¬(c = '-' ∧ text.head? = some '\x7d')) :
    blockComment? (c :: text) = (blockComment? text).map (c :: ·) := by
  rw [blockComment?]
  rintro rest rfl rfl
  exact apart ⟨rfl, rfl⟩

theorem Quoted.read {body : List Char} (quoted : Quoted body) (other : List Char) :
    stringLiteral? (body ++ other) = some body := by
  induction quoted with
  | closes => rfl
  | escape c later ih => simp only [List.cons_append, stringLiteral?, ih, Option.map_some]
  | plain quote feed escape later ih =>
    rw [List.cons_append, string_plain quote feed escape, ih, Option.map_some]

theorem string_quoted {text body : List Char} (closed : stringLiteral? text = some body) :
    Quoted body ∧ ∃ behind, text = body ++ behind := by
  induction text using stringLiteral?.induct generalizing body with
  | case1 | case3 | case4 => cases closed
  | case2 rest =>
    cases closed
    exact ⟨.closes, rest, rfl⟩
  | case5 c rest ih =>
    rw [stringLiteral?, Option.map_eq_some_iff] at closed
    obtain ⟨inner, closed, rfl⟩ := closed
    obtain ⟨quoted, behind, split⟩ := ih closed
    exact ⟨quoted.escape c, behind, by simp [split]⟩
  | case6 c rest quote feed alone pair ih =>
    have escape : c ≠ '\\' := by
      intro same
      cases rest with
      | nil => exact alone same rfl
      | cons d more => exact pair d more same rfl
    rw [string_plain quote feed escape, Option.map_eq_some_iff] at closed
    obtain ⟨inner, closed, rfl⟩ := closed
    obtain ⟨quoted, behind, split⟩ := ih closed
    exact ⟨.plain quote feed escape quoted, behind, by simp [split]⟩

theorem Commented.some {body : List Char} (commented : Commented body) : body ≠ [] := by
  cases commented <;> exact List.cons_ne_nil _ _

theorem Commented.read {body : List Char} (commented : Commented body) (other : List Char) :
    blockComment? (body ++ other) = .some body := by
  induction commented with
  | closes => rfl
  | @plain c rest apart later ih =>
    obtain ⟨d, more, rfl⟩ := List.exists_cons_of_ne_nil later.some
    rw [List.cons_append, comment_plain (d :: more ++ other) apart, ih, Option.map_some]

theorem comment_commented {text body : List Char} (closed : blockComment? text = some body) :
    Commented body ∧ ∃ behind, text = body ++ behind := by
  induction text using blockComment?.induct generalizing body with
  | case1 => cases closed
  | case2 rest =>
    cases closed
    exact ⟨.closes, rest, rfl⟩
  | case3 c rest other ih =>
    have apart : ¬(c = '-' ∧ rest.head? = some '\x7d') := by
      rintro ⟨rfl, next⟩
      obtain ⟨more, rfl⟩ := List.head?_eq_some_iff.mp next
      exact other more rfl rfl
    rw [comment_plain rest apart, Option.map_eq_some_iff] at closed
    obtain ⟨inner, closed, rfl⟩ := closed
    obtain ⟨commented, behind, rfl⟩ := ih closed
    obtain ⟨d, more, rfl⟩ := List.exists_cons_of_ne_nil commented.some
    exact ⟨.plain apart commented, behind, rfl⟩

/-! Lexemes of characters that are no blanks -/

section Names

variable {front text other : List Char} {kind : TokenKind}

theorem numeral_whole (each : ∀ c ∈ front, Text.isDigit c = true) (stops : Stops Text.isDigit text)
    (point : ∀ rest, text = '.' :: rest → Stops Text.isDigit rest) :
    numeral (front ++ text) = (.integer, front) := by
  unfold numeral
  rw [takeWhile_stops each stops, dropWhile_stops each stops]
  dsimp only
  split
  · rename_i rest
    rw [takeWhile_none.mpr (point rest rfl)]
    rfl
  · rfl

theorem numeral_fraction {fraction : List Char} (each : ∀ c ∈ front, Text.isDigit c = true)
    (digits : ∀ c ∈ fraction, Text.isDigit c = true) (some : fraction ≠ [])
    (stops : Stops Text.isDigit text) :
    numeral (front ++ '.' :: (fraction ++ text)) = (.number, front ++ '.' :: fraction) := by
  have point : Stops Text.isDigit ('.' :: (fraction ++ text)) := by
    intro c next
    cases next
    rfl
  unfold numeral
  simp only [takeWhile_stops each point, dropWhile_stops each point, takeWhile_stops digits stops,
    List.isEmpty_iff, if_neg some]

theorem Resembles.point {wanted : Char → Bool} (resembles : Resembles text other)
    (unwanted : ∀ c, isSpace c = true → wanted c = false)
    (point : ∀ rest, text = '.' :: rest → Stops wanted rest) (rest : List Char)
    (same : other = '.' :: rest) : Stops wanted rest := by
  cases resembles with
  | clear clear =>
    subst same
    exact absurd (clear '.' rfl) (by decide)
  | one clear =>
    cases same
    exact stops_clear unwanted clear
  | @two c behind others next =>
    cases same
    have stops := point behind rfl
    rw [Stops, next]
    exact stops

theorem numeral_again (cut : numeral (front ++ text) = (kind, front))
    (resembles : Resembles text other) : numeral (front ++ other) = (kind, front) := by
  have whole := List.takeWhile_append_dropWhile (p := Text.isDigit) (l := front ++ text)
  have stops := stops_dropWhile Text.isDigit (front ++ text)
  have each : ∀ c ∈ (front ++ text).takeWhile Text.isDigit, Text.isDigit c = true :=
    fun c member => List.mem_takeWhile_imp member
  have integer : (front ++ text).takeWhile Text.isDigit = front →
      (∀ rest, text = '.' :: rest → Stops Text.isDigit rest) →
      numeral (front ++ other) = (.integer, front) := by
    intro same point
    rw [same] at whole each
    rw [List.append_cancel_left whole] at stops
    exact numeral_whole each (resembles.stops space_no_digit stops)
      (resembles.point space_no_digit point)
  unfold numeral at cut
  dsimp only at cut
  split at cut
  · rename_i rest behind
    split at cut
    · rename_i none
      obtain ⟨rfl, same⟩ := Prod.mk.inj cut
      apply integer same
      intro others next
      rw [same, behind, next] at whole
      cases List.append_cancel_left whole
      exact takeWhile_none.mp (List.isEmpty_iff.mp none)
    · rename_i some
      obtain ⟨rfl, same⟩ := Prod.mk.inj cut
      have parts := List.takeWhile_append_dropWhile (p := Text.isDigit) (l := rest)
      rw [behind, ← parts, ← List.cons_append, ← List.append_assoc, same] at whole
      have last := stops_dropWhile Text.isDigit rest
      rw [List.append_cancel_left whole] at last
      rw [← same]
      have digits : ∀ c ∈ rest.takeWhile Text.isDigit, Text.isDigit c = true :=
        fun c member => List.mem_takeWhile_imp member
      have long : rest.takeWhile Text.isDigit ≠ [] := by simpa [List.isEmpty_iff] using some
      simpa using numeral_fraction each digits long (resembles.stops space_no_digit last)
  · rename_i plain
    obtain ⟨rfl, same⟩ := Prod.mk.inj cut
    apply integer same
    intro rest next
    rw [same] at whole
    exact (plain rest ((List.append_cancel_left whole).trans next)).elim

theorem dotted_none (point : ∀ rest, text = '.' :: rest → Stops startsName rest) :
    dottedName text = (.proper, []) := by
  unfold dottedName
  split
  · rename_i c rest
    rw [if_neg (by simp [point (c :: rest) rfl c rfl])]
  · rfl

theorem segment_again (rest more : List Char) (resembles : Resembles text other)
    (split : rest = rest.takeWhile continuesName ++ (more ++ text)) :
    (rest.takeWhile continuesName ++ (more ++ other)).takeWhile continuesName =
        rest.takeWhile continuesName ∧
      (rest.takeWhile continuesName ++ (more ++ other)).dropWhile continuesName =
        more ++ other := by
  have whole := List.takeWhile_append_dropWhile (p := continuesName) (l := rest)
  have stops := stops_dropWhile continuesName rest
  rw [List.append_cancel_left (whole.trans split)] at stops
  have stops := resembles.stops_behind space_continues_no_name stops
  have each : ∀ c ∈ rest.takeWhile continuesName, continuesName c = true :=
    fun c member => List.mem_takeWhile_imp member
  exact ⟨takeWhile_stops each stops, dropWhile_stops each stops⟩

theorem dotted_again (cut : dottedName (front ++ text) = (kind, front))
    (resembles : Resembles text other) : dottedName (front ++ other) = (kind, front) := by
  have none : (∀ rest, text = '.' :: rest → Stops startsName rest) →
      dottedName ([] ++ other) = (.proper, []) :=
    fun point => dotted_none (resembles.point space_starts_no_name point)
  generalize here : front ++ text = whole at cut
  induction whole using dottedName.induct generalizing front kind with
  | case1 c rest start capital inner more later ih =>
    rw [dottedName, if_pos start, if_pos capital, later] at cut
    obtain ⟨rfl, rfl⟩ := Prod.mk.inj cut
    have split : rest = rest.takeWhile continuesName ++ (more ++ text) := by
      simpa using here.symm
    have whole := List.takeWhile_append_dropWhile (p := continuesName) (l := rest)
    have again := ih (List.append_cancel_left (split.symm.trans whole.symm)) later
    have parts := segment_again rest _ resembles split
    simp only [List.cons_append, List.append_assoc]
    rw [dottedName, if_pos start, if_pos capital, parts.1, parts.2, again]
    rfl
  | case2 c rest start capital =>
    rw [dottedName, if_pos start, if_neg capital] at cut
    obtain ⟨rfl, rfl⟩ := Prod.mk.inj cut
    have split : rest = rest.takeWhile continuesName ++ ([] ++ text) := by simpa using here.symm
    have parts := segment_again rest _ resembles split
    simp only [List.cons_append]
    rw [dottedName, if_pos start, if_neg capital, ← List.nil_append other, parts.1]
  | case3 c rest start =>
    rw [dottedName, if_neg start] at cut
    obtain ⟨rfl, rfl⟩ := Prod.mk.inj cut
    apply none
    rintro others rfl
    cases here
    intro d next
    cases next
    simpa using start
  | case4 whole plain =>
    rw [dottedName] at cut
    · obtain ⟨rfl, rfl⟩ := Prod.mk.inj cut
      apply none
      rintro others rfl
      cases others with
      | nil =>
        intro d next
        cases next
      | cons c rest => exact (plain c rest here.symm).elim
    · exact plain

theorem name_again (some : front ≠ []) (cut : name (front ++ text) = (kind, front))
    (resembles : Resembles text other) : name (front ++ other) = (kind, front) := by
  have head : ∀ behind, (front ++ behind).head? = front.head? := by
    obtain ⟨c, rest, rfl⟩ := List.exists_cons_of_ne_nil some
    exact fun behind => rfl
  have whole := List.takeWhile_append_dropWhile (p := continuesName) (l := front ++ text)
  unfold name at cut ⊢
  rw [head] at cut ⊢
  split at cut
  · rename_i capital
    rw [if_pos capital]
    generalize later : dottedName ((front ++ text).dropWhile continuesName) = dotted at cut
    obtain ⟨inner, more⟩ := dotted
    obtain ⟨rfl, split⟩ := Prod.mk.inj cut
    have behind : (front ++ text).dropWhile continuesName = more ++ text := by
      rw [← List.append_right_inj ((front ++ text).takeWhile continuesName), whole,
        ← List.append_assoc, split]
    have parts := segment_again _ more resembles (by rw [← behind, whole])
    rw [← List.append_assoc, split] at parts
    rw [behind] at later
    rw [parts.1, parts.2, dotted_again later resembles]
    exact congrArg _ split
  · rename_i plain
    rw [if_neg plain]
    dsimp only at cut
    have split : (front ++ text).takeWhile continuesName = front := by
      split at cut <;> exact (Prod.mk.inj cut).2
    have parts := segment_again (front ++ text) [] resembles (by rw [split]; rfl)
    rw [split, List.nil_append] at parts
    rw [split] at cut
    rw [parts.1, cut]

theorem mark_cases (mark : Mark) :
    (∃ a, mark.chars = [a]) ∨ ∃ a b, mark.chars = [a, b] ∧ isSpace b = false := by
  cases mark <;> first
    | exact .inl ⟨_, rfl⟩
    | exact .inr ⟨_, _, rfl, by decide⟩

theorem mark_again {mark : Mark} (found : mark? (mark.chars ++ text) = .some mark)
    (resembles : Resembles text other) : mark? (mark.chars ++ other) = .some mark := by
  have earlier : ∀ before : Mark, before.chars.isPrefixOf (mark.chars ++ other) = true →
      before.chars.isPrefixOf (mark.chars ++ text) = true := by
    intro before fits
    rcases mark_cases mark with ⟨a, long⟩ | ⟨a, b, long, _⟩
    · rcases mark_cases before with ⟨u, chars⟩ | ⟨u, v, chars, visible⟩
      · simpa [chars, long] using fits
      · -- the mark has one character, so that the other one of `before` comes behind it
        rw [chars, long, List.isPrefixOf_iff_prefix] at fits ⊢
        obtain ⟨behind, split⟩ := fits
        simp only [List.cons_append, List.nil_append, List.cons.injEq] at split
        obtain ⟨rfl, rfl⟩ := split
        have next : ([] ++ text).head? = .some v := resembles.next visible rfl
        obtain ⟨more, same⟩ := List.head?_eq_some_iff.mp next
        exact ⟨more, by simpa using same.symm⟩
    · rcases mark_cases before with ⟨u, chars⟩ | ⟨u, v, chars, _⟩ <;>
        simpa [chars, long] using fits
  unfold mark? at found ⊢
  rw [List.find?_eq_some_iff_append] at found ⊢
  obtain ⟨_, front, back, split, none⟩ := found
  refine ⟨by simp, front, back, split, fun before member => ?_⟩
  have no := none before member
  rw [Bool.not_eq_true', Bool.eq_false_iff] at no ⊢
  exact fun fits => no (earlier before fits)

end Names

theorem first_again {c : Char} {tail text other : List Char} {kind : TokenKind}
    (taken : first c (tail ++ text) = .ok (.lexeme kind (c :: tail)))
    (resembles : Resembles text other) :
    first c (tail ++ other) = .ok (.lexeme kind (c :: tail)) := by
  unfold first at taken ⊢
  split at taken
  · cases taken
  rename_i space
  rw [if_neg space]
  split at taken
  · cases taken
  rename_i comment
  rw [if_neg fun both => comment ⟨both.1, resembles.next (by decide) both.2⟩]
  split at taken
  · split at taken <;> cases taken
  rename_i block
  rw [if_neg fun both => block ⟨both.1, resembles.next (by decide) both.2⟩]
  split at taken
  · rename_i quote
    rw [if_pos quote]
    split at taken
    · rename_i body closed
      cases taken
      rw [(string_quoted closed).1.read]
    · cases taken
  rename_i quote
  rw [if_neg quote]
  split at taken
  · rename_i digit
    rw [if_pos digit]
    simp only [Except.ok.injEq, lexeme.injEq] at taken
    have cut : numeral (c :: tail ++ text) = (kind, c :: tail) := Prod.ext taken.1 taken.2
    have again := numeral_again cut resembles
    rw [List.cons_append] at again
    rw [again]
  rename_i digit
  rw [if_neg digit]
  split at taken
  · rename_i start
    rw [if_pos start]
    simp only [Except.ok.injEq, lexeme.injEq] at taken
    have cut : name (c :: tail ++ text) = (kind, c :: tail) := Prod.ext taken.1 taken.2
    have again := name_again (List.cons_ne_nil c tail) cut resembles
    rw [List.cons_append] at again
    rw [again]
  rename_i start
  rw [if_neg start]
  split at taken
  · rename_i mark found
    simp only [Except.ok.injEq, lexeme.injEq] at taken
    obtain ⟨rfl, chars⟩ := taken
    rw [← List.cons_append, ← chars] at found ⊢
    rw [mark_again found resembles]
  · cases taken

/-! What is cut off is the front of the text -/

theorem run_front {wanted : Char → Bool} {text more : List Char}
    (front : more <+: text.dropWhile wanted) : text.takeWhile wanted ++ more <+: text := by
  obtain ⟨behind, split⟩ := front
  exact ⟨behind, by rw [List.append_assoc, split, List.takeWhile_append_dropWhile]⟩

theorem numeral_front (text : List Char) : (numeral text).2 <+: text := by
  unfold numeral
  dsimp only
  split
  · rename_i rest behind
    split
    · exact List.takeWhile_prefix Text.isDigit
    · apply run_front
      rw [behind, List.prefix_cons_inj]
      exact List.takeWhile_prefix Text.isDigit
  · exact List.takeWhile_prefix Text.isDigit

theorem dotted_front (text : List Char) : (dottedName text).2 <+: text := by
  induction text using dottedName.induct with
  | case1 c rest start capital inner more later ih =>
    rw [later] at ih
    rw [dottedName, if_pos start, if_pos capital, later]
    simp only [List.cons_append, List.prefix_cons_inj]
    exact run_front ih
  | case2 c rest start capital =>
    rw [dottedName, if_pos start, if_neg capital]
    simp only [List.prefix_cons_inj]
    exact List.takeWhile_prefix continuesName
  | case3 c rest start =>
    rw [dottedName, if_neg start]
    exact List.nil_prefix
  | case4 text plain =>
    rw [dottedName]
    · exact List.nil_prefix
    · exact plain

theorem name_front (text : List Char) : (name text).2 <+: text := by
  unfold name
  split
  · exact run_front (dotted_front _)
  · dsimp only
    split <;> exact List.takeWhile_prefix continuesName

theorem first_front {c : Char} {rest : List Char} {piece : Piece}
    (taken : first c rest = .ok piece) :
    ∃ tail behind, piece.text = c :: tail ∧ rest = tail ++ behind := by
  have part : ∀ {text : List Char}, text ≠ [] → text <+: c :: rest →
      ∃ tail behind, text = c :: tail ∧ rest = tail ++ behind := by
    rintro text some ⟨behind, split⟩
    obtain ⟨d, tail, rfl⟩ := List.exists_cons_of_ne_nil some
    obtain ⟨rfl, rfl⟩ := List.cons.inj split
    exact ⟨tail, behind, rfl, rfl⟩
  unfold first at taken
  split at taken
  · cases taken
    exact ⟨_, _, rfl, List.takeWhile_append_dropWhile.symm⟩
  split at taken
  · cases taken
    exact ⟨_, _, rfl, List.takeWhile_append_dropWhile.symm⟩
  split at taken
  · rename_i block
    obtain ⟨more, rfl⟩ := List.head?_eq_some_iff.mp block.2
    split at taken
    · rename_i body closed
      cases taken
      obtain ⟨_, behind, split⟩ := comment_commented closed
      exact ⟨'-' :: body, behind, rfl, congrArg _ split⟩
    · cases taken
  split at taken
  · split at taken
    · rename_i body closed
      cases taken
      obtain ⟨_, behind, split⟩ := string_quoted closed
      exact ⟨body, behind, rfl, split⟩
    · cases taken
  split at taken
  · rename_i digit
    cases taken
    exact part (numeral_some digit) (numeral_front (c :: rest))
  split at taken
  · rename_i start
    cases taken
    exact part (name_some start) (name_front (c :: rest))
  · split at taken
    · rename_i mark found
      cases taken
      have fits : mark.chars.isPrefixOf (c :: rest) = true := by
        have holds := List.find?_some found
        exact holds
      exact part (mark_some mark) (List.isPrefixOf_iff_prefix.mp fits)
    · cases taken

end PureJs.Piece
