import PureJs.Proofs.Token.Rows

/-!
Words on one line with any blanks between them. Where two words do not run together, there need not
be a blank: beside a bracket, a comma or a string literal, and between a name or a number and the
sign of an operator.
-/

namespace PureJs

namespace TokenKind

def isLoose : TokenKind → Bool
  | .string => true
  | .mark sign => sign ∈ [.leftParen, .rightParen, .leftBracket, .rightBracket, .comma]
  | _ => false

def isMark : TokenKind → Bool
  | .mark _ => true
  | _ => false

def partsFrom (left right : TokenKind) : Bool :=
  right ≠ .mark .dot && (left.isLoose || right.isLoose || left.isMark != right.isMark)

end TokenKind

namespace Piece

/-! What is cut off does not go on with a character that cannot stand in it -/

section Stopping

variable {d : Char} {front : List Char}

theorem takeWhile_before {wanted : Char → Bool} (stops : wanted d = false) (rest : List Char) :
    (front ++ d :: rest).takeWhile wanted = front.takeWhile wanted := by
  induction front with
  | nil => simp [stops]
  | cons c front ih => cases here : wanted c <;> simp [here, ih]

theorem dropWhile_before {wanted : Char → Bool} (stops : wanted d = false) (rest : List Char) :
    (front ++ d :: rest).dropWhile wanted = front.dropWhile wanted ++ d :: rest := by
  induction front with
  | nil => simp [stops]
  | cons c front ih => cases here : wanted c <;> simp [here, ih]

theorem numeral_before (digit : Text.isDigit d = false) (point : d ≠ '.') (rest : List Char) :
    numeral (front ++ d :: rest) = numeral front := by
  unfold numeral
  rw [takeWhile_before digit, dropWhile_before digit]
  dsimp only
  split
  · rename_i text behind
    cases here : front.dropWhile Text.isDigit with
    | nil =>
      rw [here] at behind
      cases behind
      exact absurd rfl point
    | cons c more =>
      rw [here] at behind
      cases behind
      have same : (more ++ d :: rest).takeWhile Text.isDigit = more.takeWhile Text.isDigit :=
        takeWhile_before digit rest
      exact if_congr (by rw [← same]; rfl) rfl (by rw [← same]; rfl)
  · rename_i plain
    split
    · rename_i more behind
      rw [behind] at plain
      exact absurd rfl (plain (more ++ d :: rest))
    · rfl

theorem dotted_before (inside : continuesName d = false) (point : d ≠ '.') (rest : List Char) :
    dottedName (front ++ d :: rest) = dottedName front := by
  have outside : startsName d = false := by
    by_contra starts
    rw [starts_continues (by simpa using starts)] at inside
    cases inside
  induction front using dottedName.induct with
  | case1 c more start capital kind others later ih =>
    rw [List.cons_append, List.cons_append, dottedName, dottedName, if_pos start, if_pos start,
      if_pos capital, if_pos capital, takeWhile_before inside, dropWhile_before inside, ih]
  | case2 c more start capital =>
    rw [List.cons_append, List.cons_append, dottedName, dottedName, if_pos start, if_pos start,
      if_neg capital, if_neg capital, takeWhile_before inside]
  | case3 c more start =>
    rw [List.cons_append, List.cons_append, dottedName, dottedName, if_neg start, if_neg start]
  | case4 text plain =>
    have alone : dottedName text = (.proper, []) := by
      rw [dottedName]
      exact plain
    rw [alone]
    apply dotted_none
    intro behind same
    cases text with
    | nil =>
      cases same
      exact absurd rfl point
    | cons c more =>
      obtain ⟨rfl, rfl⟩ := List.cons.inj same
      cases more with
      | nil =>
        rintro e ⟨⟩
        exact outside
      | cons e more => exact absurd rfl (plain e more)

theorem name_before (some : front ≠ []) (inside : continuesName d = false) (point : d ≠ '.')
    (rest : List Char) : name (front ++ d :: rest) = name front := by
  unfold name
  rw [takeWhile_before inside, dropWhile_before inside, dotted_before inside point,
    List.head?_append_of_ne_nil front some]

end Stopping

def seconds : List Char := [':', '>', '-', '=', '&', '|']

def brackets : List Char := ['(', ')', '[', ']', ',']

theorem mark_pairs (mark : Mark) :
    (∃ a, mark.chars = [a]) ∨ ∃ a b, mark.chars = [a, b] ∧ b ∈ seconds ∧ a ∉ brackets := by
  cases mark <;> first
    | exact .inl ⟨_, rfl⟩
    | exact .inr ⟨_, _, rfl, by decide, by decide⟩

theorem loose_mark {mark : Mark} (loose : (TokenKind.mark mark).isLoose = true) :
    ∃ a ∈ brackets, mark.chars = [a] := by
  simp only [TokenKind.isLoose, decide_eq_true_eq, List.mem_cons, List.not_mem_nil, or_false]
    at loose
  rcases loose with rfl | rfl | rfl | rfl | rfl <;> exact ⟨_, by decide, rfl⟩

def Bars (d : Char) (kind : TokenKind) : Prop :=
  kind.isLoose = true ∨ if kind.isMark then d ∉ seconds
    else Text.isDigit d = false ∧ continuesName d = false ∧ d ≠ '.'

theorem mark_before {mark : Mark} {d : Char} (bars : Bars d (.mark mark)) (rest : List Char)
    (found : mark? mark.chars = some mark) :
    mark? (mark.chars ++ d :: rest) = some mark := by
  have earlier : ∀ before : Mark, before.chars.isPrefixOf (mark.chars ++ d :: rest) = true →
      before.chars.isPrefixOf mark.chars = true := by
    intro before fits
    rcases mark_pairs mark with ⟨a, long⟩ | ⟨a, b, long, _⟩
    · rcases mark_pairs before with ⟨u, chars⟩ | ⟨u, v, chars, second, first⟩
      · simpa [chars, long] using fits
      · rw [chars, long, List.isPrefixOf_iff_prefix] at fits
        obtain ⟨behind, split⟩ := fits
        simp only [List.cons_append, List.nil_append, List.cons.injEq] at split
        obtain ⟨rfl, rfl, _⟩ := split
        rcases bars with loose | other
        · obtain ⟨b, inside, same⟩ := loose_mark loose
          cases long.symm.trans same
          exact absurd inside first
        · exact absurd second other
    · rcases mark_pairs before with ⟨u, chars⟩ | ⟨u, v, chars, _⟩ <;>
        simpa [chars, long] using fits
  unfold mark? at found ⊢
  rw [List.find?_eq_some_iff_append] at found ⊢
  obtain ⟨_, front, back, split, none⟩ := found
  refine ⟨by simp, front, back, split, fun before member => ?_⟩
  have no := none before member
  rw [Bool.not_eq_true', Bool.eq_false_iff] at no ⊢
  exact fun fits => no (earlier before fits)

/-! Which of the ways a word is cut off in -/

theorem first_digit {c : Char} (digit : Text.isDigit c = true) (rest : List Char) :
    first c rest = .ok (.lexeme (numeral (c :: rest)).1 (numeral (c :: rest)).2) := by
  have apart : ∀ {d : Char}, Text.isDigit d = false → c ≠ d := by
    rintro d none rfl
    rw [digit] at none
    cases none
  have visible : ¬isSpace c = true := by
    intro space
    rw [space_no_digit c space] at digit
    cases digit
  unfold first
  rw [if_neg visible, if_neg fun both => apart (by decide) both.1,
    if_neg fun both => apart (by decide) both.1, if_neg (apart (by decide)), if_pos digit]

theorem first_start {c : Char} (start : startsName c = true) (other : Text.isDigit c = false)
    (rest : List Char) :
    first c rest = .ok (.lexeme (name (c :: rest)).1 (name (c :: rest)).2) := by
  have apart : ∀ {d : Char}, startsName d = false → c ≠ d := by
    rintro d none rfl
    rw [start] at none
    cases none
  have visible : ¬isSpace c = true := by
    intro space
    rw [space_starts_no_name c space] at start
    cases start
  unfold first
  rw [if_neg visible, if_neg fun both => apart (by decide +kernel) both.1,
    if_neg fun both => apart (by decide +kernel) both.1, if_neg (apart (by decide +kernel)),
    if_neg (by simp [other]), if_pos start]

theorem first_mark {mark : Mark} {c : Char} {tail : List Char} (chars : mark.chars = c :: tail)
    {rest : List Char} (plain : ¬(c ∈ ['-', '\x7b'] ∧ rest.head? = some '-'))
    (found : mark? (c :: rest) = some mark) :
    first c rest = .ok (.lexeme (.mark mark) (c :: tail)) := by
  have visible : isSpace c = false ∧ c ≠ '"' ∧ Text.isDigit c = false ∧ startsName c = false := by
    cases mark <;> cases chars <;> decide +kernel
  unfold first
  rw [if_neg (by simp [visible.1]), if_neg fun both => plain ⟨by simp [both.1], both.2⟩,
    if_neg fun both => plain ⟨by simp [both.1], both.2⟩, if_neg visible.2.1,
    if_neg (by simp [visible.2.2.1]), if_neg (by simp [visible.2.2.2]), found]
  exact congrArg (fun text => Except.ok (lexeme (.mark mark) text)) chars

theorem first_ways {c : Char} {tail : List Char} {kind : TokenKind}
    (taken : first c tail = .ok (.lexeme kind (c :: tail))) :
    (kind = .string ∧ c = '"' ∧ Quoted tail) ∨
      (Text.isDigit c = true ∧ numeral (c :: tail) = (kind, c :: tail)) ∨
      (Text.isDigit c = false ∧ startsName c = true ∧ name (c :: tail) = (kind, c :: tail)) ∨
      ∃ mark : Mark, kind = .mark mark ∧ mark.chars = c :: tail ∧
        mark? (c :: tail) = some mark := by
  unfold first at taken
  split at taken
  · cases taken
  split at taken
  · cases taken
  split at taken
  · split at taken <;> cases taken
  split at taken
  · rename_i quote
    split at taken
    · rename_i body closed
      cases taken
      exact .inl ⟨rfl, quote, (string_quoted closed).1⟩
    · cases taken
  split at taken
  · rename_i digit
    simp only [Except.ok.injEq, lexeme.injEq] at taken
    exact .inr (.inl ⟨digit, Prod.ext taken.1 taken.2⟩)
  rename_i digit
  split at taken
  · rename_i start
    simp only [Except.ok.injEq, lexeme.injEq] at taken
    exact .inr (.inr (.inl ⟨by simpa using digit, start, Prod.ext taken.1 taken.2⟩))
  split at taken
  · rename_i mark found
    simp only [Except.ok.injEq, lexeme.injEq] at taken
    exact .inr (.inr (.inr ⟨mark, taken.1.symm, taken.2, found⟩))
  · cases taken

theorem numeral_kind (text : List Char) :
    (numeral text).1 = .integer ∨ (numeral text).1 = .number := by
  unfold numeral
  dsimp only
  split
  · split
    · exact .inl rfl
    · exact .inr rfl
  · exact .inl rfl

theorem dotted_kind (text : List Char) :
    (dottedName text).1 = .proper ∨ (dottedName text).1 = .qualified :=
  (dotted_name_ends text).imp_right And.left

theorem name_kind (text : List Char) :
    (name text).1.isLoose = false ∧ (name text).1.isMark = false := by
  unfold name
  split
  · dsimp only
    rcases dotted_kind (text.dropWhile continuesName) with kind | kind <;> rw [kind] <;>
      exact ⟨rfl, rfl⟩
  · dsimp only
    split <;> exact ⟨rfl, rfl⟩

theorem first_before {c d : Char} {tail : List Char} {kind : TokenKind}
    (taken : first c tail = .ok (.lexeme kind (c :: tail))) (bars : Bars d kind)
    (rest : List Char) : first c (tail ++ d :: rest) = .ok (.lexeme kind (c :: tail)) := by
  have plain : kind.isLoose = false → kind.isMark = false →
      Text.isDigit d = false ∧ continuesName d = false ∧ d ≠ '.' := by
    intro loose mark
    rcases bars with other | same
    · rw [loose] at other
      cases other
    · simpa [mark] using same
  rcases first_ways taken with ⟨rfl, rfl, quoted⟩ | ⟨digit, cut⟩ | ⟨other, start, cut⟩ |
    ⟨mark, rfl, chars, found⟩
  · unfold first
    rw [if_neg (by decide), if_neg fun both => absurd both.1 (by decide),
      if_neg fun both => absurd both.1 (by decide), if_pos rfl, quoted.read]
  · have known := numeral_kind (c :: tail)
    rw [cut] at known
    obtain ⟨first, _, third⟩ : Text.isDigit d = false ∧ continuesName d = false ∧ d ≠ '.' := by
      rcases known with rfl | rfl <;> exact plain rfl rfl
    have same : numeral ((c :: tail) ++ d :: rest) = numeral (c :: tail) :=
      numeral_before first third rest
    rw [first_digit digit, ← List.cons_append, same, cut]
  · have known := name_kind (c :: tail)
    rw [cut] at known
    obtain ⟨_, second, third⟩ := plain known.1 known.2
    have same := name_before (List.cons_ne_nil c tail) second third rest
    rw [first_start start other, ← List.cons_append, same, cut]
  · rw [← chars] at found
    have again := mark_before bars rest found
    rw [chars] at again
    refine first_mark chars ?_ again
    rintro ⟨opens, next⟩
    cases tail with
    | nil =>
      cases next
      rcases bars with loose | other
      · obtain ⟨b, inside, same⟩ := loose_mark loose
        cases chars.symm.trans same
        have apart : brackets.all (· ∉ ['-', '\x7b']) = true := by decide
        exact absurd opens (of_decide_eq_true (List.all_eq_true.mp apart c inside))
      · exact other (by decide)
    | cons e more =>
      cases next
      cases mark <;> first | (cases chars; exact absurd opens (by decide)) | cases chars

/-- Words that do not run together: the first character of the second one does not go on with the
first one. -/
theorem parted_bars {left right : TokenKind} (parted : left.partsFrom right = true) {d : Char}
    {tail : List Char} (taken : first d tail = .ok (.lexeme right (d :: tail))) : Bars d left := by
  simp only [TokenKind.partsFrom, Bool.and_eq_true, decide_eq_true_eq, Bool.or_eq_true,
    bne_iff_ne, or_assoc] at parted
  obtain ⟨dot, loose | parted⟩ := parted
  · exact .inl loose
  refine .inr ?_
  rcases first_ways taken with ⟨rfl, rfl, _⟩ | ⟨digit, cut⟩ | ⟨other, start, cut⟩ |
    ⟨mark, rfl, chars, found⟩
  · split <;> decide +kernel
  · have known := numeral_kind (d :: tail)
    rw [cut] at known
    have isMark : left.isMark = true := by
      rcases known with rfl | rfl <;> simpa [TokenKind.isLoose, TokenKind.isMark] using parted
    rw [if_pos isMark]
    have none : seconds.all (!Text.isDigit ·) = true := by decide
    intro member
    have other := List.all_eq_true.mp none d member
    simp [digit] at other
  · have known := name_kind (d :: tail)
    rw [cut] at known
    have isMark : left.isMark = true := by simpa [known] using parted
    rw [if_pos isMark]
    have none : seconds.all (!startsName ·) = true := by decide
    intro member
    have other := List.all_eq_true.mp none d member
    simp [start] at other
  · split
    · rename_i isMark
      have loose : (TokenKind.mark mark).isLoose = true := by
        rw [isMark] at parted
        exact parted.resolve_right (fun other => other rfl)
      obtain ⟨b, inside, same⟩ := loose_mark loose
      cases chars.symm.trans same
      have apart : brackets.all (· ∉ seconds) = true := by decide
      exact of_decide_eq_true (List.all_eq_true.mp apart d inside)
    · cases mark <;> first | exact absurd rfl dot | (cases chars; decide +kernel)

/-- Words on a line with blanks behind them. Where there is no blank between two words, they do not
run together. -/
inductive OnLine : List (TokenKind × List Char) → List Char → Prop
  | last {kind : TokenKind} {part blanks : List Char} (each : ∀ c ∈ blanks, c ∈ [' ', '\t', '\r']) :
    OnLine [(kind, part)] (part ++ blanks)
  | next {kind other : TokenKind} {part more blanks text : List Char}
    {words : List (TokenKind × List Char)} (each : ∀ c ∈ blanks, c ∈ [' ', '\t', '\r'])
    (parted : blanks ≠ [] ∨ kind.partsFrom other = true)
    (later : OnLine ((other, more) :: words) text) :
    OnLine ((kind, part) :: (other, more) :: words) (part ++ blanks ++ text)

def joined : List (TokenKind × List Char) → List Char
  | [] => []
  | [word] => word.2
  | word :: next :: rest =>
    word.2 ++ (if word.1.partsFrom next.1 then [] else [' ']) ++ joined (next :: rest)

theorem joined_on_line {words : List (TokenKind × List Char)} (some : words ≠ []) :
    OnLine words (joined words) := by
  induction words with
  | nil => exact absurd rfl some
  | cons word words ih =>
    cases words with
    | nil =>
      have last : OnLine [word] (word.2 ++ []) := .last nofun
      rwa [List.append_nil] at last
    | cons next rest =>
      refine .next ?_ ?_ (ih (List.cons_ne_nil next rest))
      · split
        · nofun
        · simp
      · split
        · exact .inr ‹_›
        · exact .inl (List.cons_ne_nil _ _)

def tagOf (word : TokenKind × List Char) : TokenKind × String := (word.1, value word.1 word.2)

theorem blank_space {c : Char} (blank : c ∈ [' ', '\t', '\r']) : isSpace c = true := by
  simp only [List.mem_cons, List.not_mem_nil, or_false] at blank
  rcases blank with rfl | rfl | rfl <;> rfl

theorem word_cut {kind : TokenKind} {part blanks text : List Char} {pieces : List Piece}
    (alone : Alone kind part) (each : ∀ c ∈ blanks, isSpace c = true)
    (cuts : Cuts text pieces) (stops : Stops isSpace text)
    (bars : blanks = [] → ∀ d ∈ text.head?, Bars d kind) :
    ∃ gaps, Cuts (part ++ blanks ++ text) (lexeme kind part :: (gaps ++ pieces)) ∧
      lexemes gaps = [] := by
  obtain ⟨c, tail, rfl, taken⟩ := alone
  cases blanks with
  | nil =>
    refine ⟨[], ?_, rfl⟩
    have again : first c (tail ++ text) = .ok (.lexeme kind (c :: tail)) := by
      cases text with
      | nil => simpa using taken
      | cons d rest => exact first_before taken (bars rfl d rfl) rest
    simpa using Cuts.cons again rfl cuts
  | cons d rest =>
    refine ⟨[gap (d :: rest)], ?_, rfl⟩
    rw [List.forall_mem_cons] at each
    have space : Clear (d :: (rest ++ text)) := by
      rintro e ⟨⟩
      exact each.1
    have taken : first c (tail ++ []) = .ok (.lexeme kind (c :: tail)) := by simpa using taken
    have spaces : CutGap (d :: rest) text := .spaces each.1 each.2 stops
    have whole := Cuts.cons (first_again taken (.clear space)) rfl
      (.cons (first_gap_iff.mpr spaces) rfl cuts)
    simpa using whole

theorem OnLine.cuts {words : List (TokenKind × List Char)} {text : List Char}
    (written : OnLine words text) (each : ∀ word ∈ words, Alone word.1 word.2) :
    ∃ pieces kind, Cuts text pieces ∧ lead pieces = some kind ∧
      lexemes pieces = words.map tagOf := by
  induction written with
  | @last kind part blanks blank =>
    obtain ⟨gaps, cuts, none⟩ := word_cut (each _ (List.mem_singleton_self _))
      (fun c member => blank_space (blank c member)) .nil nofun (fun _ => nofun)
    rw [List.append_nil, List.append_nil] at cuts
    exact ⟨_, kind, cuts, rfl, congrArg (List.cons _) none⟩
  | @next kind other part more blanks text words blank parted later ih =>
    rw [List.forall_mem_cons] at each
    obtain ⟨pieces, leading, cuts, leads, same⟩ := ih each.2
    obtain ⟨d, tail, rfl, taken⟩ := each.2 _ List.mem_cons_self
    have begins : text.head? = some d := by cases later <;> rfl
    obtain ⟨gaps, whole, none⟩ := word_cut each.1
      (fun c member => blank_space (blank c member)) cuts (cuts.stops leads) (by
      rintro rfl e next
      cases begins.symm.trans next
      exact parted_bars (parted.resolve_left (fun some => some rfl)) taken)
    refine ⟨_, kind, whole, rfl, ?_⟩
    rw [List.map_cons, ← same, ← List.nil_append (lexemes pieces), ← none, ← lexemes_append]
    rfl

theorem OnLine.flat {words : List (TokenKind × List Char)} {text : List Char}
    (written : OnLine words text) (each : ∀ word ∈ words, '\n' ∉ word.2) : '\n' ∉ text := by
  have blank : ∀ {blanks : List Char}, (∀ c ∈ blanks, c ∈ [' ', '\t', '\r']) → '\n' ∉ blanks :=
    fun all member => absurd (all _ member) (by decide)
  induction written with
  | last all => simpa [blank all] using each
  | next all parted later ih =>
    rw [List.forall_mem_cons] at each
    simp [blank all, each.1, ih each.2]

theorem OnLine.written {words : List (TokenKind × List Char)} {text : List Char}
    (written : OnLine words text) (each : ∀ word ∈ words, Alone word.1 word.2 ∧ '\n' ∉ word.2) :
    Written (words.map tagOf) text :=
  ⟨written.cuts fun word member => (each word member).1,
    written.flat fun word member => (each word member).2⟩

end Piece

end PureJs
