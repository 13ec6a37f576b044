import PureJs.Proofs.Js.Lexing

/-!
The names, numbers and strings of the code. A name or a number with a fraction, which is copied from
the source, is cut as one lexeme if it is legal, and cannot be cut otherwise.
-/

namespace PureJs.Js

open Piece (Stops takeWhile_stops dropWhile_stops)

variable {next : List Char → Prop} {text : String}

theorem closers_stop {c : Char} (closer : c ∈ closers) :
    continuesWord c = false ∧ beginsIdentifier c = false ∧ c.isDigit = false ∧ c ≠ '.' := by
  have all : closers.all (fun c =>
      !continuesWord c && !beginsIdentifier c && !c.isDigit && c ≠ '.') = true := by
    decide +kernel
  simpa [and_assoc] using List.all_eq_true.mp all c closer

theorem split_at_first {wanted : Char → Bool} {chars : List Char}
    (some : ∃ c ∈ chars, wanted c = false) :
    ∃ front d back, chars = front ++ d :: back ∧ wanted d = false ∧
      ∀ c ∈ front, wanted c = true := by
  obtain ⟨c, member, fails⟩ := some
  have found : (chars.find? (!wanted ·)).isSome := by
    simp only [List.find?_isSome, Bool.not_eq_true']
    exact ⟨c, member, fails⟩
  obtain ⟨d, first⟩ := Option.isSome_iff_exists.mp found
  obtain ⟨here, front, back, rfl, before⟩ := List.find?_eq_some_iff_append.mp first
  exact ⟨front, d, back, rfl, by simpa using here, fun c inside => by simpa using before c inside⟩

theorem stops_at {wanted : Char → Bool} {d : Char} (stops : wanted d = false) (rest : List Char) :
    Stops wanted (d :: rest) := by
  rintro c ⟨⟩
  exact stops

/-! Words -/

section Words

variable {c : Char} {tail rest : List Char}

theorem word_visible (begins : beginsIdentifier c = true) : isBlank c = false :=
  visible_if (by decide +kernel) begins

theorem word_cut (begins : beginsIdentifier c = true) (each : ∀ d ∈ tail, continuesWord d = true)
    (stops : Stops continuesWord rest) :
    lexeme? c (tail ++ rest) =
      if String.ofList (c :: tail) = "return" && rest.takeWhile isBlank ≠ [' '] then none
      else some (.word (String.ofList (c :: tail))) := by
  unfold lexeme?
  rw [if_neg (apart_from begins (by decide +kernel)), if_neg (by simp [begins_no_figure begins]),
    if_pos begins, takeWhile_stops each stops, dropWhile_stops each stops]

theorem spells_word_before (chars : text.toList = c :: tail) (begins : beginsIdentifier c = true)
    (each : tail.all continuesWord = true) (stops : ∀ rest, next rest → Stops continuesWord rest)
    (kept : text = "return" → ∀ rest, next rest → rest.takeWhile isBlank = [' ']) :
    Spells next text [.word text] := by
  refine spells_lexeme (.word text) chars (word_visible begins) fun rest here => ?_
  have whole : String.ofList (c :: tail) = text := by rw [← chars, String.ofList_toList]
  rw [word_cut begins (List.all_eq_true.mp each) (stops rest here), whole, if_neg]
  simp only [Bool.and_eq_true, decide_eq_true_eq, not_and, ne_eq, not_not]
  exact fun same => kept same rest here

theorem spells_word (chars : text.toList = c :: tail) (begins : beginsIdentifier c = true)
    (each : tail.all continuesWord = true) (plain : text ≠ "return") :
    Spells Closing text [.word text] :=
  spells_word_before chars begins each
    (fun _ here c next => (closers_stop (here c next)).1) fun same => absurd same plain

theorem spells_return :
    Spells (fun rest => ∃ c behind, rest = ' ' :: c :: behind ∧ isBlank c = false) "return"
      [.word "return"] := by
  refine spells_word_before rfl (by decide +kernel) (by decide +kernel) ?_ fun _ => ?_
  · rintro _ ⟨c, behind, rfl, -⟩
    exact stops_at (by decide +kernel) _
  · rintro _ ⟨c, behind, rfl, visible⟩
    have blank : isBlank ' ' = true := by decide
    simp [blank, visible]

theorem word_stuck {chars : List Char} {d : Char} (begins : beginsIdentifier c = true)
    (split : chars = tail ++ d :: rest) (each : ∀ e ∈ tail, continuesWord e = true)
    (none : continuesWord d = false) (sticks : Sticks d) (behind : List Char) :
    lex (c :: (chars ++ behind)) = .none := by
  have same : c :: (chars ++ behind) = c :: (tail ++ (d :: (rest ++ behind))) := by simp [split]
  rw [same]
  refine lex_stopped (.word (String.ofList (c :: tail))) (word_visible begins) String.toList_ofList
    (sticks.stuck _) ?_
  rw [word_cut begins each (stops_at none _)]
  split
  · exact .inl rfl
  · exact .inr rfl

end Words

/-! Numbers -/

section Numbers

variable {whole fraction rest : List Char}

theorem numeral_whole (each : ∀ c ∈ whole, c.isDigit = true) (stops : Stops Char.isDigit rest)
    (point : rest.head? ≠ some '.') : numeral (whole ++ rest) = whole := by
  unfold numeral
  rw [takeWhile_stops each stops, dropWhile_stops each stops]
  cases rest with
  | nil => rfl
  | cons d rest =>
    dsimp only
    split
    · rename_i same
      cases same
      exact absurd rfl point
    · rfl

theorem numeral_pointed (each : ∀ c ∈ whole, c.isDigit = true)
    (later : ∀ c ∈ fraction, c.isDigit = true) (stops : Stops Char.isDigit rest) :
    numeral (whole ++ '.' :: (fraction ++ rest)) = whole ++ '.' :: fraction := by
  have point : Stops Char.isDigit ('.' :: (fraction ++ rest)) := stops_at (by decide) _
  unfold numeral
  rw [takeWhile_stops each point, dropWhile_stops each point]
  show whole ++ '.' :: (fraction ++ rest).takeWhile Char.isDigit = _
  rw [takeWhile_stops later stops]

theorem figure_visible {c : Char} (digit : c.isDigit = true) : isBlank c = false :=
  visible_if (by decide) digit

theorem number_lexeme {c : Char} (digit : c.isDigit = true) (rest : List Char) :
    lexeme? c rest = (number? (c :: rest)).map fun digits => .number (String.ofList digits) := by
  unfold lexeme?
  rw [if_neg (apart_from digit (by decide)), if_pos digit]

theorem spells_number {c : Char} {tail : List Char} (chars : text.toList = c :: tail)
    (digit : c.isDigit = true)
    (cut : ∀ rest, Closing rest → numeral (text.toList ++ rest) = text.toList)
    (unpadded : ∀ rest, Closing rest →
      Unpadded ((text.toList ++ rest).takeWhile Char.isDigit)) :
    Spells Closing text [.number text] := by
  refine spells_lexeme (.number text) chars (figure_visible digit) fun rest here => ?_
  have same : c :: (tail ++ rest) = text.toList ++ rest := by rw [chars]; rfl
  have ends : rest.head?.any beginsIdentifier = false := by
    rw [Option.any_eq_false]
    exact fun d first => by simp [(closers_stop (here d first)).2.1]
  rw [number_lexeme digit, same, number?, cut rest here, List.drop_left,
    if_pos ⟨unpadded rest here, ends⟩, Option.map_some, String.ofList_toList]

theorem number_stuck {front behind : List Char} {c d : Char} (digit : c.isDigit = true)
    (cut : numeral (c :: front ++ d :: behind) = c :: front) (sticks : Sticks d) :
    lex (c :: front ++ d :: behind) = none := by
  rw [List.cons_append]
  refine lex_stopped (.number (String.ofList (c :: front))) (figure_visible digit)
    String.toList_ofList (sticks.stuck _) ?_
  rw [number_lexeme digit, ← List.cons_append, number?, cut]
  split
  · exact .inr rfl
  · exact .inl rfl

theorem padded_stuck {c : Char} {tail : List Char} (digit : c.isDigit = true)
    (padded : ¬Unpadded ((c :: tail).takeWhile Char.isDigit)) : lex (c :: tail) = none := by
  apply lex_refused (figure_visible digit)
  rw [number_lexeme digit, number?, if_neg fun both => padded both.1, Option.map_none]

theorem closing_figures (here : Closing rest) : Stops Char.isDigit rest :=
  fun c first => (closers_stop (here c first)).2.2.1

theorem closing_point (here : Closing rest) : rest.head? ≠ some '.' :=
  fun first => (closers_stop (here '.' first)).2.2.2 rfl

theorem spells_natural (n : Nat) : Spells Closing n.repr [.number n.repr] := by
  have each : ∀ c ∈ n.repr.toList, c.isDigit = true := by
    rw [Nat.toList_repr]
    exact Piece.decimal_chars n
  obtain ⟨c, tail, chars⟩ := List.exists_cons_of_ne_nil (l := n.repr.toList) (by
    rw [Nat.toList_repr]
    exact Nat.toDigits_ne_nil)
  refine spells_number chars (each c (by simp [chars]))
    (fun rest here => numeral_whole each (closing_figures here) (closing_point here))
    fun rest here => ?_
  rw [takeWhile_stops each (closing_figures here), Nat.toList_repr]
  exact digits_unpadded n

structure Pointed (text : List Char) (whole fraction : List Char) : Prop where
  split : text = whole ++ '.' :: fraction
  some : whole ≠ []
  behind : fraction ≠ []
  each : ∀ c ∈ whole, Text.isDigit c = true
  later : ∀ c ∈ fraction, Text.isDigit c = true

theorem Pointed.legal_iff {text : List Char} (pointed : Pointed text whole fraction) :
    (∃ q, DecimalLiteral text q) ↔ Figures whole ∧ Figures fraction ∧ Unpadded whole := by
  simp only [pointed.split,
    pointed_literal_iff pointed.some pointed.behind pointed.each pointed.later]
  exact ⟨fun ⟨_, front, back, unpadded, _⟩ => ⟨front, back, unpadded⟩,
    fun ⟨front, back, unpadded⟩ => ⟨_, front, back, unpadded, rfl⟩⟩

theorem foreign_digit_stuck (front : List Char) {chars : List Char}
    (each : ∀ c ∈ chars, Text.isDigit c = true)
    (foreign : ∃ c ∈ chars, c.isDigit = false) (rest : List Char)
    (begins : front = [] ∨ ∃ c tail, front = c :: tail ∧ c.isDigit = true)
    (cut : ∀ digits, (∀ c ∈ digits, c.isDigit = true) → ∀ d behind, d.isDigit = false → d ≠ '.' →
      numeral (front ++ digits ++ d :: behind) = front ++ digits) :
    lex (front ++ chars ++ rest) = none := by
  obtain ⟨digits, d, back, rfl, other, before⟩ := split_at_first foreign
  have sticks : Sticks d := digit_sticks (each d (by simp)) other
  have point : d ≠ '.' := by
    rintro rfl
    exact absurd (each '.' (by simp)) (by decide)
  have same : front ++ (digits ++ d :: back) ++ rest = front ++ digits ++ d :: (back ++ rest) := by
    simp
  have whole := cut digits before d (back ++ rest) other point
  rw [same]
  cases first : front ++ digits with
  | nil => exact sticks.stuck _
  | cons c tail =>
    rw [first] at whole
    refine number_stuck ?_ whole sticks
    rcases begins with rfl | ⟨e, more, rfl, digit⟩
    · exact before c (by rw [List.nil_append] at first; simp [first])
    · cases first
      exact digit

theorem spells_pointed (split : text.toList = whole ++ '.' :: fraction) (front : Figures whole)
    (back : Figures fraction) (unpadded : Unpadded whole) : Spells Closing text [.number text] := by
  have longer : ∀ rest, text.toList ++ rest = whole ++ '.' :: (fraction ++ rest) := by simp [split]
  obtain ⟨c, tail, first⟩ := List.exists_cons_of_ne_nil front.some
  have chars : text.toList = c :: (tail ++ '.' :: fraction) := by rw [split, first]; rfl
  refine spells_number chars (front.each c (by simp [first])) (fun rest here => ?_)
    fun rest here => ?_
  · rw [longer, split]
    exact numeral_pointed front.each back.each (closing_figures here)
  · rwa [longer, takeWhile_stops front.each (stops_at (by decide) _)]

theorem pointed_stuck (pointed : Pointed text.toList whole fraction)
    (illegal : ¬(Figures whole ∧ Figures fraction ∧ Unpadded whole)) (rest : List Char) :
    lex (text.toList ++ rest) = none := by
  obtain ⟨split, some, behind, each, later⟩ := pointed
  have longer : text.toList ++ rest = whole ++ '.' :: (fraction ++ rest) := by simp [split]
  have point : Stops Char.isDigit ('.' :: (fraction ++ rest)) := stops_at (by decide) _
  obtain ⟨c, tail, first⟩ := List.exists_cons_of_ne_nil some
  rw [longer]
  by_cases front : ∀ c ∈ whole, c.isDigit = true
  · have digit : c.isDigit = true := front c (by simp [first])
    by_cases back : ∀ c ∈ fraction, c.isDigit = true
    · have padded : ¬Unpadded whole :=
        fun unpadded => illegal ⟨⟨some, front⟩, ⟨behind, back⟩, unpadded⟩
      rw [← takeWhile_stops front point] at padded
      rw [first, List.cons_append] at padded ⊢
      exact padded_stuck digit padded
    · have stuck := foreign_digit_stuck (whole ++ ['.']) later (by simpa using back) rest
        (.inr ⟨c, _, by rw [first]; rfl, digit⟩) fun digits figures d behind other _ => by
          simpa using numeral_pointed front figures (stops_at other behind)
      simpa using stuck
  · have stuck := foreign_digit_stuck [] each (by simpa using front)
      ('.' :: (fraction ++ rest)) (.inl rfl) fun digits figures d behind other point => by
        simpa using numeral_whole figures (stops_at other behind) (by simpa using point)
    simpa using stuck

/-- A number with a fraction is cut off if it is a decimal literal, and cannot be cut otherwise. -/
theorem pointed_cuts (pointed : Pointed text.toList whole fraction) :
    Cuts Closing text (∃ q, DecimalLiteral text.toList q) [.number text] := by
  rw [pointed.legal_iff]
  exact ⟨fun ⟨front, back, unpadded⟩ =>
      (spells_pointed pointed.split front back unpadded).whole trivial,
    fun illegal rest _ => pointed_stuck pointed illegal rest⟩

end Numbers

/-! Strings -/

theorem string_unit {a b c d : Char}
    (hex : [a, b, c, d].all (fun digit => (Text.hexValue? digit).isSome) = true)
    (text : List Char) :
    string? ('\\' :: 'u' :: a :: b :: c :: d :: text) =
      (string? text).map (['\\', 'u', a, b, c, d] ++ ·) := by
  rw [string?, if_pos hex]

theorem string_escape {c : Char} (known : c ∈ escapes) (text : List Char) :
    string? ('\\' :: c :: text) = (string? text).map (['\\', c] ++ ·) := by
  rw [string?, if_pos known]
  rintro _ _ _ _ _ rfl
  exact absurd known (by decide)

theorem string_plain {c : Char} (quote : c ≠ '"') (plain : c ∉ ['\\', '\n', '\r'])
    (text : List Char) : string? (c :: text) = (string? text).map (c :: ·) := by
  rw [string?, if_neg plain]
  · exact quote
  · rintro _ _ _ _ _ rfl
    exact absurd plain (by decide)
  · rintro _ _ rfl
    exact absurd plain (by decide)

theorem hex_digits (n : Nat) : ∀ c ∈ Nat.toDigits 16 n, ∃ d : Fin 16, c = Nat.digitChar d := by
  rw [Nat.toDigits_eq_if (by decide)]
  split
  · rename_i small
    rintro c member
    exact ⟨⟨n, small⟩, List.mem_singleton.mp member⟩
  · rename_i large
    rw [List.forall_mem_append, List.forall_mem_singleton]
    exact ⟨hex_digits (n / 16), ⟨n % 16, Nat.mod_lt n (by decide)⟩, rfl⟩
termination_by n
decreasing_by omega

theorem unit_chars {unit : Nat} (small : unit < 0x10000) : ∃ a b c d,
    (Text.hex 4 unit).toList = [a, b, c, d] ∧
      [a, b, c, d].all (fun digit => (Text.hexValue? digit).isSome) = true := by
  have values : ∀ d : Fin 16, (Text.hexValue? (Nat.digitChar d)).isSome = true := by decide
  have short : (Nat.toDigits 16 unit).length ≤ 4 :=
    (Nat.length_toDigits_le_iff (by decide) (by decide)).mpr small
  have length : (Text.hex 4 unit).toList.length = 4 := by
    rw [Text.hex, String.toList_ofList, List.length_append, List.length_replicate]
    omega
  have each : ∀ c ∈ (Text.hex 4 unit).toList, (Text.hexValue? c).isSome = true := by
    rw [Text.hex, String.toList_ofList, List.forall_mem_append]
    constructor
    · intro c member
      rw [List.eq_of_mem_replicate member]
      decide
    · intro c member
      obtain ⟨d, rfl⟩ := hex_digits unit c member
      exact values d
  match chars : (Text.hex 4 unit).toList, length, each with
  | [a, b, c, d], _, each => exact ⟨a, b, c, d, rfl, List.all_eq_true.mpr each⟩

theorem unit_read {unit : Nat} (small : unit < 0x10000) (text : List Char) :
    string? ((Json.escapeUnit unit).toList ++ text) =
      (string? text).map ((Json.escapeUnit unit).toList ++ ·) := by
  obtain ⟨a, b, c, d, chars, hex⟩ := unit_chars small
  have whole : (Json.escapeUnit unit).toList = ['\\', 'u', a, b, c, d] := by
    rw [Json.escapeUnit, String.toList_append, chars]
    rfl
  rw [whole]
  exact string_unit hex text

theorem char_read (c : Char) (text : List Char) :
    string? ((Json.escapeChar c).toList ++ text) =
      (string? text).map ((Json.escapeChar c).toList ++ ·) := by
  unfold Json.escapeChar
  split
  · exact string_escape (c := '"') (by decide) text
  rename_i quote
  split
  · exact string_escape (c := '\\') (by decide) text
  rename_i escape
  split
  · exact string_escape (c := 'n') (by decide) text
  rename_i feed
  split
  · exact string_escape (c := 'r') (by decide) text
  rename_i carriage
  split
  · exact string_escape (c := 't') (by decide) text
  split
  · exact string_escape (c := 'f') (by decide) text
  split
  · exact string_escape (c := 'b') (by decide) text
  split
  · simpa using string_plain quote (by simp [escape, feed, carriage]) text
  split
  · rename_i small
    exact unit_read small text
  · have bound : c.toNat < 0x110000 := by
      rcases c.valid with low | ⟨_, high⟩
      · exact Nat.lt_trans low (by decide)
      · exact high
    rw [String.toList_append, List.append_assoc, unit_read (by omega), unit_read (by omega),
      Option.map_map]
    simp [Function.comp_def]

theorem spells_string (value : String) :
    Spells next (Json.quote value) [.string (Json.quote value)] := by
  have read : ∀ chars rest : List Char,
      string? (chars.flatMap (fun c => (Json.escapeChar c).toList) ++ '"' :: rest) =
        some (chars.flatMap (fun c => (Json.escapeChar c).toList) ++ ['"']) := by
    intro chars rest
    induction chars with
    | nil => simp [string?]
    | cons c tail ih => rw [List.flatMap_cons, List.append_assoc, char_read, ih]; simp
  have chars : (Json.quote value).toList =
      '"' :: (value.toList.flatMap (fun c => (Json.escapeChar c).toList) ++ ['"']) := by
    unfold Json.quote
    rw [String.toList_append, String.toList_append, String.toList_join, List.flatMap_map]
    rfl
  refine spells_lexeme (.string (Json.quote value)) chars (by decide) fun rest _ => ?_
  unfold lexeme?
  rw [if_pos rfl, List.append_assoc, List.singleton_append, read, Option.map_some, ← chars,
    String.ofList_toList]

end PureJs.Js
