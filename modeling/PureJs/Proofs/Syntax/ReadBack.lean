import PureJs.Proofs.Syntax.Enclosed

/-!
An expression that is written with its compound parts in parentheses is read back as it was, at
other places. Each part of it is read as one atom, whatever stands behind it.
-/

namespace PureJs

namespace Token

structure Stands (word : TokenKind × List Char) (t : Token) : Prop where
  kind : t.kind = word.1
  value : t.value = Piece.value word.1 word.2
  inline : t.opensLine = false

theorem stand_split {front back : List (TokenKind × List Char)} {tokens : List Token}
    (stand : List.Forall₂ Stands (front ++ back) tokens) :
    ∃ before behind, tokens = before ++ behind ∧ List.Forall₂ Stands front before ∧
      List.Forall₂ Stands back behind := by
  induction front generalizing tokens with
  | nil => exact ⟨[], tokens, rfl, .nil, stand⟩
  | cons word front ih =>
    cases stand with
    | cons here later =>
      obtain ⟨before, behind, rfl, first, second⟩ := ih later
      exact ⟨_, behind, rfl, .cons here first, second⟩

end Token

namespace Cursor

def EndsApplication (c : Cursor) : Prop :=
  c.atBoundary = true ∨ c.startsAtom = false ∧ c.startsBlock = false

def EndsChain (c : Cursor) : Prop :=
  c.EndsApplication ∧ (c.atBoundary = true ∨ c.operator? = none)

variable {c : Cursor} {t : Token} {rest : List Token}

theorem behind_behind (c : Cursor) (front rest : List Token) :
    (c.behind front).behind rest = c.behind rest := rfl

theorem expect_of (tokens : c.tokens = t :: rest) {kind : TokenKind} (is : t.kind = kind)
    (what : String) : c.expect kind what = .ok (t, c.behind rest) := by
  rw [expect, if_pos (by rw [Cursor.kind, peek_of tokens, is]), peek_of tokens, advance_of tokens]

theorem identifiers_of {names : List Token} (tokens : c.tokens = names ++ t :: rest)
    (stale : c.fresh = false) (each : ∀ name ∈ names, name.kind = .identifier)
    (last : t.kind ≠ .identifier) :
    c.identifiers = (names.map Token.value, c.behind (t :: rest)) := by
  have each : ∀ name ∈ names, decide (name.kind = .identifier) = true := by simpa using each
  simp [identifiers, tokens, List.takeWhile_append_of_pos each, List.dropWhile_append_of_pos each,
    last, stale, behind]

theorem boundary_ends (here : c.atBoundary = true) : c.EndsChain := ⟨.inl here, .inl here⟩

theorem closing_ends (kind : c.kind ∈ [.mark .rightParen, .mark .rightBracket, .mark .comma,
    .keyword .thenWord, .keyword .elseWord]) : c.EndsChain := by
  simp only [List.mem_cons, List.not_mem_nil, or_false] at kind
  unfold EndsChain EndsApplication startsAtom startsBlock operator?
  rcases kind with kind | kind | kind | kind | kind <;> rw [kind] <;>
    exact ⟨.inr ⟨rfl, rfl⟩, .inr rfl⟩

theorem operator_ends {op : Operator} (kind : c.kind = .mark op.mark) :
    c.EndsApplication ∧ c.operator? = some op := by
  unfold EndsApplication startsAtom startsBlock operator?
  rw [kind]
  cases op <;> exact ⟨.inr ⟨rfl, rfl⟩, rfl⟩

theorem atom_plain (start : c.startsAtom = true) :
    c.startsBlock = false ∧ c.kind ≠ .mark .minus ∧ c.kind ≠ .mark .backslash ∧
      c.kind ≠ .keyword .ifWord ∧ c.kind ≠ .keyword .doWord := by
  unfold startsAtom at start
  unfold startsBlock
  split at start <;> rename_i kind
  · simp [kind]
  · simp [kind]
  · simp [kind]
  · simp [kind]
  · simp [kind]
  · rw [kind]
    cases ‹Keyword› <;> simp at start ⊢
  · rw [kind]
    cases ‹Mark› <;> simp at start ⊢
  · cases start

end Cursor

namespace Expr

open Cursor Token

def unplaced (e : Expr) : Expr := e.relocate fun _ => .start

def unplacedList (items : List Expr) : List Expr := relocateList (fun _ => .start) items

section Steps

variable {c after : Cursor} {e function : Expr} {fuel : Nat}

theorem unary_atom (start : c.startsAtom = true)
    (atom : parseAtom fuel c = .ok (function, after)) :
    parseUnary (fuel + 2) c = parseArguments fuel function after := by
  rw [parseUnary, if_neg (atom_plain start).2.1, parseApp, atom]
  rfl

theorem arguments_end (ends : c.EndsApplication) (function : Expr) (fuel : Nat) :
    parseArguments (fuel + 1) function c = .ok (function, c) := by
  rw [parseArguments]
  rcases ends with here | ⟨atom, block⟩
  · rw [if_pos here]
  · simp [atom, block]

theorem chain_end (ends : c.EndsChain) (least : Nat) (e : Expr) (fuel : Nat) :
    parseChain (fuel + 1) least e c = .ok (e, c) := by
  rw [parseChain]
  rcases ends.2 with here | none
  · rw [if_pos here]
  · simp [none]

theorem binary_end (unary : parseUnary (fuel + 1) c = .ok (e, after)) (ends : after.EndsChain)
    (least : Nat) : parseBinary (fuel + 2) least c = .ok (e, after) := by
  rw [parseBinary, unary]
  exact chain_end ends least e fuel

theorem parse_operators (inside : c.atBoundary = false) (lambda : c.kind ≠ .mark .backslash)
    (cond : c.kind ≠ .keyword .ifWord) (block : c.kind ≠ .keyword .doWord) (fuel : Nat) :
    parse (fuel + 1) c = parseBinary fuel 0 c := by
  rw [parse, if_neg (by simp [inside])]
  split <;> first | contradiction | rfl

end Steps

def AtomRead (e : Expr) (words : List (TokenKind × List Char)) : Prop :=
  ∀ tokens, List.Forall₂ Stands words tokens → ∀ (c : Cursor) (rest : List Token),
    c.tokens = tokens ++ rest →
      c.startsAtom = true ∧ c.atBoundary = false ∧ rest.length < c.tokens.length ∧
        ∀ fuel, 8 * c.tokens.length + 1 ≤ fuel →
          ∃ read, parseAtom fuel c = .ok (read, c.behind rest) ∧ read.unplaced = e.unplaced

def WholeRead (e : Expr) (words : List (TokenKind × List Char)) : Prop :=
  ∀ tokens, List.Forall₂ Stands words tokens → ∀ (c : Cursor) (rest : List Token),
    c.tokens = tokens ++ rest → (c.behind rest).EndsChain →
      ∀ fuel, 8 * c.tokens.length + 5 ≤ fuel →
        ∃ read, parse fuel c = .ok (read, c.behind rest) ∧ read.unplaced = e.unplaced

section Parts

variable {e : Expr} {words : List (TokenKind × List Char)} {tokens rest : List Token} {c : Cursor}

theorem AtomRead.operand (atom : AtomRead e words) (stand : List.Forall₂ Stands words tokens)
    (here : c.tokens = tokens ++ rest) (ends : (c.behind rest).EndsApplication)
    (fuel : Nat) (enough : 8 * c.tokens.length + 3 ≤ fuel) :
    ∃ read, parseUnary fuel c = .ok (read, c.behind rest) ∧ read.unplaced = e.unplaced := by
  obtain ⟨start, _, _, reads⟩ := atom tokens stand c rest here
  obtain ⟨fuel, rfl⟩ : ∃ less, fuel = less + 3 := ⟨fuel - 3, by omega⟩
  obtain ⟨read, parsed, same⟩ := reads (fuel + 1) (by omega)
  exact ⟨read, (unary_atom start parsed).trans (arguments_end ends read fuel), same⟩

theorem AtomRead.whole (atom : AtomRead e words) : WholeRead e words := by
  intro tokens stand c rest here ends fuel enough
  obtain ⟨start, inside, _⟩ := atom tokens stand c rest here
  obtain ⟨_, _, lambda, cond, block⟩ := atom_plain start
  obtain ⟨fuel, rfl⟩ : ∃ less, fuel = less + 3 := ⟨fuel - 3, by omega⟩
  obtain ⟨read, parsed, same⟩ := atom.operand stand here ends.1 (fuel + 1) (by omega)
  refine ⟨read, ?_, same⟩
  rw [parse_operators inside lambda cond block, binary_end parsed ends]

theorem WholeRead.parens (whole : WholeRead e words) : AtomRead e (inParens words) := by
  intro tokens stand c rest here
  obtain ⟨_, _, rfl, front, back⟩ := stand_split stand
  cases front with
  | @cons _ opening _ inner opens inside =>
  cases back with
  | @cons _ closing _ _ closes none =>
  cases none
  rw [List.append_assoc, List.cons_append, List.singleton_append] at here
  have kind : c.peek.kind = .mark .leftParen := by rw [peek_of here, opens.kind]; rfl
  refine ⟨by rw [startsAtom, Cursor.kind, kind]; rfl, inside_of here opens.inline,
    by simp [here]; omega, fun fuel enough => ?_⟩
  obtain ⟨fuel, rfl⟩ : ∃ less, fuel = less + 1 := ⟨fuel - 1, by omega⟩
  have shorter := length_behind here
  let within := (c.behind (inner ++ closing :: rest)).enter 0
  have ends : (within.behind (closing :: rest)).EndsChain :=
    closing_ends (by rw [Cursor.kind, peek_of rfl, closes.kind]; simp [Mark.word])
  obtain ⟨read, parsed, same⟩ := whole inner inside within (closing :: rest) rfl ends fuel (by
    show 8 * (c.behind (inner ++ closing :: rest)).tokens.length + 5 ≤ fuel
    omega)
  have close : (within.behind (closing :: rest)).expect (.mark .rightParen) "')'" =
      .ok (closing, within.behind rest) := expect_of rfl closes.kind _
  refine ⟨read, ?_, same⟩
  rw [parseAtom]
  simp only [kind, advance_of here]
  rw [parsed]
  simp only [bind, Except.bind, close]
  rfl

theorem enclose_read {also : Expr → Bool} (whole : WholeRead e words)
    (atom : e.isCompound = false → AtomRead e words) : AtomRead e (enclose also e words) := by
  unfold enclose
  split
  · exact whole.parens
  · rename_i plain
    rw [Bool.or_eq_true, not_or] at plain
    exact atom (by simpa using plain.1)

theorem leaf_read {word : TokenKind × List Char}
    (leaf : ∀ t, Stands word t → ∃ read : Expr, read.Leaf t ∧ read.unplaced = e.unplaced) :
    AtomRead e [word] := by
  intro tokens stand c rest here
  cases stand with
  | @cons _ t _ _ stands none =>
  cases none
  obtain ⟨read, is, same⟩ := leaf t stands
  refine ⟨leaf_starts is here, inside_of here stands.inline, by simp [here], fun fuel enough => ?_⟩
  obtain ⟨fuel, rfl⟩ : ∃ less, fuel = less + 1 := ⟨fuel - 1, by omega⟩
  exact ⟨read, atom_read is here fuel, same⟩

theorem literal_read {place : Position} {value : Literal} (writable : value.Writable) :
    AtomRead (.literal place value) [value.word] := by
  apply leaf_read
  intro t stands
  refine ⟨.literal t.place value, ?_, rfl⟩
  have text := stands.value
  cases value with
  | integer value =>
    obtain ⟨n, rfl⟩ := Int.eq_ofNat_of_zero_le writable.1
    refine .integer stands.kind ?_
    have read := Piece.decimals_read (n := n) writable.2
    rw [Piece.value_plain (by rw [Literal.word]; rintro ⟨⟩)] at text
    rw [integerValue, text]
    simp only [Literal.word, Int.toNat_natCast, read]
  | number digits =>
    have leaf := Leaf.number stands.kind
    rw [text, Piece.value_plain (by rw [Literal.word]; rintro ⟨⟩)] at leaf
    simpa [Literal.word] using leaf
  | string value =>
    have leaf := Leaf.string stands.kind
    have means := (Piece.quoted_body value.toList).2.2
    rw [text, Literal.word, Piece.value, List.drop_succ_cons, List.drop_zero, means] at leaf
    simpa using leaf
  | bool value =>
    cases value
    · exact .no stands.kind
    · exact .yes stands.kind

theorem name_read {place : Position} {name : String} {qualifier : Option String}
    (writable : NameWritable name qualifier) (also : Expr → Bool) :
    AtomRead (.var place name qualifier none)
      (Expr.words also (.var place name qualifier none)) := by
  cases qualifier with
  | none =>
    refine leaf_read fun t stands => ⟨.var t.place name none none, ?_, rfl⟩
    have leaf := Leaf.name stands.kind
    rw [stands.value, nameWord, Piece.value_plain (by nofun)] at leaf
    simpa using leaf
  | some owner =>
    refine leaf_read fun t stands => ⟨.var t.place name (some owner) none, ?_, rfl⟩
    have leaf := Leaf.qualified stands.kind
    rw [stands.value, Piece.value_plain (by nofun),
      split_at_last_point (Piece.lexical_has_no_point writable.2.1)] at leaf
    simpa using leaf

section Compounds

variable {first second third : Expr} {words others more : List (TokenKind × List Char)}
  {place : Position}

theorem app_read (function : AtomRead first words) (argument : AtomRead second others) :
    WholeRead (.app place first second) (words ++ others) := by
  intro tokens stand c rest here ends fuel enough
  obtain ⟨front, back, rfl, stand, standing⟩ := stand_split stand
  rw [List.append_assoc] at here
  obtain ⟨start, inside, shorter, reads⟩ := function front stand c _ here
  obtain ⟨_, _, lambda, cond, block⟩ := atom_plain start
  let mid := c.behind (back ++ rest)
  obtain ⟨again, within, _, further⟩ := argument back standing mid rest rfl
  obtain ⟨fuel, rfl⟩ : ∃ less, fuel = less + 6 := ⟨fuel - 6, by omega⟩
  obtain ⟨f, parsed, same⟩ := reads (fuel + 2) (by omega)
  obtain ⟨a, given, alike⟩ := further (fuel + 1) (by
    show 8 * (back ++ rest).length + 1 ≤ fuel + 1
    omega)
  refine ⟨.app f.place f a, ?_, congrArg₂ (Expr.app _) same alike⟩
  have unary : parseUnary (fuel + 4) c = .ok (.app f.place f a, c.behind rest) := by
    rw [unary_atom start parsed, parseArguments, if_neg (Bool.eq_false_iff.mp within),
      if_pos again, given]
    exact arguments_end ends.1 _ fuel
  rw [parse_operators inside lambda cond block, binary_end unary ends]

theorem chained_read {op : Operator} (left : AtomRead first words)
    (right : AtomRead second others) :
    WholeRead (.binary place op first second) (words ++ op.mark.word :: others) := by
  intro tokens stand c rest here ends fuel enough
  obtain ⟨front, _, rfl, standing, tail⟩ := stand_split stand
  cases tail with
  | @cons _ sign _ back stands further =>
  rw [List.append_assoc, List.cons_append] at here
  obtain ⟨start, inside, shorter, _⟩ := left front standing c _ here
  obtain ⟨_, _, lambda, cond, block⟩ := atom_plain start
  let mid := c.behind (sign :: (back ++ rest))
  have kind : mid.kind = .mark op.mark := by rw [Cursor.kind, peek_of rfl, stands.kind]; rfl
  have known := operator_ends kind
  obtain ⟨again, _, _, _⟩ := right back further mid.advance rest rfl
  obtain ⟨fuel, rfl⟩ : ∃ less, fuel = less + 5 := ⟨fuel - 5, by omega⟩
  have less : (back ++ rest).length + 1 < c.tokens.length := shorter
  obtain ⟨l, parsed, same⟩ := left.operand standing here known.1 (fuel + 3) (by omega)
  obtain ⟨r, given, alike⟩ := right.operand (c := mid.advance) further rfl ends.1 (fuel + 1)
    (by
      show 8 * (back ++ rest).length + 3 ≤ fuel + 1
      omega)
  refine ⟨.binary mid.peek.place op l r, ?_, congrArg₂ (Expr.binary _ op) same alike⟩
  have reads : parseBinary (fuel + 2) op.rightPrecedence mid.advance = .ok (r, c.behind rest) :=
    binary_end given ends _
  rw [parse_operators inside lambda cond block, parseBinary, parsed]
  show parseChain (fuel + 3) 0 l mid = _
  rw [chain_goes (inside_of rfl stands.inline) known.2 (Nat.zero_le _) (atom_plain again).1 reads]
  exact chain_end ends 0 _ _

theorem negate_read (operand : AtomRead first words) :
    WholeRead (.negate place first) (Mark.minus.word :: words) := by
  intro tokens stand c rest here ends fuel enough
  cases stand with
  | @cons _ sign _ inner stands standing =>
  rw [List.cons_append] at here
  have kind : c.kind = .mark .minus := by rw [Cursor.kind, peek_of here, stands.kind]; rfl
  have shorter := length_behind here
  obtain ⟨fuel, rfl⟩ : ∃ less, fuel = less + 4 := ⟨fuel - 4, by omega⟩
  obtain ⟨e, parsed, same⟩ := operand.operand (c := c.behind (inner ++ rest)) standing rfl ends.1
    (fuel + 1) (by omega)
  refine ⟨.negate c.peek.place e, ?_, congrArg (Expr.negate _) same⟩
  have unary : parseUnary (fuel + 2) c = .ok (.negate c.peek.place e, c.behind rest) := by
    rw [parseUnary, if_pos kind, advance_of here, parsed]
    rfl
  rw [parse_operators (inside_of here stands.inline) (by simp [kind]) (by simp [kind])
    (by simp [kind]), binary_end unary ends]

theorem names_stand {names : List String} {tokens : List Token}
    (stand : List.Forall₂ Stands (names.map nameWord) tokens) :
    (∀ t ∈ tokens, t.kind = .identifier) ∧ tokens.map Token.value = names := by
  induction names generalizing tokens with
  | nil =>
    cases stand
    exact ⟨nofun, rfl⟩
  | cons name names ih =>
    cases stand with
    | @cons _ t _ _ stands later =>
      obtain ⟨kinds, values⟩ := ih later
      have value : t.value = name := by
        rw [stands.value, nameWord, Piece.value_plain (by nofun), String.ofList_toList]
      exact ⟨List.forall_mem_cons.mpr ⟨stands.kind, kinds⟩, congrArg₂ List.cons value values⟩

theorem lambda_read {params : List String} (some : params ≠ []) (body : WholeRead first words) :
    WholeRead (.lambda place params first)
      (Mark.backslash.word :: params.map nameWord ++ Mark.arrow.word :: words) := by
  intro tokens stand c rest here ends fuel enough
  obtain ⟨_, _, rfl, front, back⟩ := stand_split stand
  obtain ⟨param, params, rfl⟩ := List.exists_cons_of_ne_nil some
  cases front with
  | @cons _ mark _ _ opens names =>
  cases back with
  | @cons _ arrow _ inner points standing =>
  obtain ⟨kinds, values⟩ := names_stand names
  cases names with
  | @cons _ name _ names named listed =>
  rw [List.forall_mem_cons] at kinds
  rw [List.append_assoc, List.cons_append, List.cons_append] at here
  obtain ⟨value, values⟩ := List.cons.inj values
  have length : c.tokens.length = 1 + (1 + (names.length + (1 + (inner ++ rest).length))) := by
    rw [here]
    simp only [List.length_cons, List.length_append]
    omega
  obtain ⟨fuel, rfl⟩ : ∃ less, fuel = less + 2 := ⟨fuel - 2, by omega⟩
  obtain ⟨e, parsed, same⟩ := body inner standing (c.behind (inner ++ rest)) rest rfl ends fuel (by
    show 8 * (inner ++ rest).length + 5 ≤ fuel
    omega)
  refine ⟨.lambda mark.place (name.value :: names.map Token.value) e, ?_, ?_⟩
  · have kind : c.kind = .mark .backslash := by rw [Cursor.kind, peek_of here, opens.kind]; rfl
    have param : (c.behind (name :: (names ++ arrow :: (inner ++ rest)))).expect .identifier
        "a parameter name" = .ok (name, c.behind (names ++ arrow :: (inner ++ rest))) :=
      expect_of rfl kinds.1 _
    have params : (c.behind (names ++ arrow :: (inner ++ rest))).identifiers =
        (names.map Token.value, c.behind (arrow :: (inner ++ rest))) :=
      identifiers_of rfl rfl kinds.2 (by rw [points.kind]; rintro ⟨⟩)
    have goes : (c.behind (arrow :: (inner ++ rest))).expect (.mark .arrow) "'->'" =
        .ok (arrow, c.behind (inner ++ rest)) := expect_of rfl points.kind _
    rw [parse, if_neg (by simp [inside_of here opens.inline])]
    simp only [kind, parseLambda, advance_of here, peek_of here, List.cons_append, bind,
      Except.bind, param, params, goes, parsed, behind_behind, pure, Except.pure]
  · rw [value, values]
    exact congrArg (Expr.lambda _ _) same

theorem cond_read (condition : WholeRead first words) (yes : WholeRead second others)
    (no : WholeRead third more) :
    WholeRead (.cond place first second third) (Keyword.ifWord.word :: words ++
      Keyword.thenWord.word :: others ++ Keyword.elseWord.word :: more) := by
  intro tokens stand c rest here ends fuel enough
  obtain ⟨_, _, rfl, front, back⟩ := stand_split stand
  obtain ⟨_, _, rfl, front, middle⟩ := stand_split front
  cases front with
  | @cons _ ifWord _ one opens standing =>
  cases middle with
  | @cons _ thenWord _ two goes further =>
  cases back with
  | @cons _ elseWord _ three turns last =>
  simp only [List.append_assoc, List.cons_append] at here
  have length : c.tokens.length = 1 + (one.length + (1 + (two.length + (1 +
      (three ++ rest).length)))) := by
    rw [here]
    simp only [List.length_cons, List.length_append]
    omega
  obtain ⟨fuel, rfl⟩ : ∃ less, fuel = less + 2 := ⟨fuel - 2, by omega⟩
  obtain ⟨a, parsed, same⟩ := condition one standing
    (c.behind (one ++ thenWord :: (two ++ elseWord :: (three ++ rest)))) _ rfl
    (closing_ends (by rw [Cursor.kind, peek_of rfl, goes.kind]; simp [Keyword.word])) fuel (by
      simp only [behind, List.length_append, List.length_cons] at length ⊢
      omega)
  obtain ⟨b, taken, alike⟩ := yes two further (c.behind (two ++ elseWord :: (three ++ rest))) _ rfl
    (closing_ends (by rw [Cursor.kind, peek_of rfl, turns.kind]; simp [Keyword.word])) fuel (by
      simp only [behind, List.length_append, List.length_cons] at length ⊢
      omega)
  obtain ⟨d, given, equal⟩ := no three last (c.behind (three ++ rest)) rest rfl ends fuel (by
    simp only [behind] at length ⊢
    omega)
  refine ⟨.cond ifWord.place a b d, ?_, ?_⟩
  · have kind : c.kind = .keyword .ifWord := by rw [Cursor.kind, peek_of here, opens.kind]; rfl
    have first : (c.behind (thenWord :: (two ++ elseWord :: (three ++ rest)))).expect
        (.keyword .thenWord) "'then'" = .ok (thenWord, _) := expect_of rfl goes.kind _
    have next : (c.behind (elseWord :: (three ++ rest))).expect (.keyword .elseWord) "'else'" =
        .ok (elseWord, _) := expect_of rfl turns.kind _
    rw [parse, if_neg (by simp [inside_of here opens.inline])]
    simp only [kind, parseCond, advance_of here, peek_of here, bind, Except.bind, parsed, first,
      taken, next, given, behind_behind, pure, Except.pure]
  · show Expr.cond _ a.unplaced b.unplaced d.unplaced = _
    rw [same, alike, equal]
    rfl

def ItemsRead (items : List Expr) (words : List (TokenKind × List Char)) : Prop :=
  ∀ tokens, List.Forall₂ Stands words tokens → ∀ (c : Cursor) (rest : List Token),
    c.tokens = tokens ++ rest → (c.behind rest).kind = .mark .rightBracket →
      c.kind ≠ .mark .rightBracket ∧ ∀ fuel, 8 * c.tokens.length + 6 ≤ fuel →
        ∃ read, parseItems fuel c = .ok (read, c.behind rest) ∧
          unplacedList read = unplacedList items

theorem last_read (atom : AtomRead first words) : ItemsRead [first] words := by
  intro tokens stand c rest here closes
  obtain ⟨start, _, _, _⟩ := atom tokens stand c rest here
  refine ⟨fun kind => ?_, fun fuel enough => ?_⟩
  · simp [startsAtom, kind] at start
  · obtain ⟨fuel, rfl⟩ : ∃ less, fuel = less + 1 := ⟨fuel - 1, by omega⟩
    obtain ⟨e, parsed, same⟩ := atom.whole tokens stand c rest here
      (closing_ends (by simp [closes])) fuel (by omega)
    refine ⟨[e], ?_, congrArg (· :: []) same⟩
    simp [parseItems, parsed, closes, bind, Except.bind, pure, Except.pure]

theorem next_read {items : List Expr} (atom : AtomRead first words)
    (later : ItemsRead items others) :
    ItemsRead (first :: items) (words ++ Mark.comma.word :: others) := by
  intro tokens stand c rest here closes
  obtain ⟨front, _, rfl, standing, tail⟩ := stand_split stand
  cases tail with
  | @cons _ comma _ back stands further =>
  rw [List.append_assoc, List.cons_append] at here
  obtain ⟨start, _, shorter, _⟩ := atom front standing c _ here
  refine ⟨fun kind => ?_, fun fuel enough => ?_⟩
  · simp [startsAtom, kind] at start
  · have kind : (c.behind (comma :: (back ++ rest))).kind = .mark .comma := by
      rw [Cursor.kind, peek_of rfl, stands.kind]
      rfl
    have less : (back ++ rest).length + 1 < c.tokens.length := shorter
    obtain ⟨fuel, rfl⟩ : ∃ less, fuel = less + 1 := ⟨fuel - 1, by omega⟩
    obtain ⟨e, parsed, same⟩ := atom.whole front standing c _ here
      (closing_ends (by simp [kind])) fuel (by omega)
    have next := later back further (c.behind (back ++ rest)) rest rfl closes
    obtain ⟨others, given, alike⟩ := next.2 fuel (by
        show 8 * (back ++ rest).length + 6 ≤ fuel
        omega)
    refine ⟨e :: others, ?_, congrArg₂ List.cons same alike⟩
    simp only [parseItems, parsed, bind, Except.bind, if_pos kind]
    rw [show (c.behind (comma :: (back ++ rest))).advance = c.behind (back ++ rest) from rfl, given]
    rfl

theorem array_read {items : List Expr} (reads : items ≠ [] → ItemsRead items words)
    (none : items = [] → words = []) :
    AtomRead (.array place items) (Mark.leftBracket.word :: words ++ [Mark.rightBracket.word]) := by
  intro tokens stand c rest here
  obtain ⟨_, _, rfl, front, back⟩ := stand_split stand
  cases front with
  | @cons _ opening _ inner opens inside =>
  cases back with
  | @cons _ closing _ _ closes nothing =>
  cases nothing
  rw [List.append_assoc, List.cons_append, List.singleton_append] at here
  have kind : c.peek.kind = .mark .leftBracket := by rw [peek_of here, opens.kind]; rfl
  refine ⟨by rw [startsAtom, Cursor.kind, kind]; rfl, inside_of here opens.inline,
    by simp [here]; omega, fun fuel enough => ?_⟩
  obtain ⟨fuel, rfl⟩ : ∃ less, fuel = less + 1 := ⟨fuel - 1, by omega⟩
  have shorter := length_behind here
  let within := (c.behind (inner ++ closing :: rest)).enter 0
  have last : (within.behind (closing :: rest)).kind = .mark .rightBracket := by
    rw [Cursor.kind, peek_of rfl, closes.kind]
    rfl
  have close : (within.behind (closing :: rest)).expect (.mark .rightBracket) "']'" =
      .ok (closing, within.behind rest) := expect_of rfl closes.kind _
  rw [parseAtom]
  simp only [kind, advance_of here]
  by_cases empty : items = []
  · subst empty
    cases none rfl
    cases inside
    have last : within.kind = .mark .rightBracket := last
    refine ⟨.array c.peek.place [], ?_, rfl⟩
    rw [if_pos last]
    simp only [bind, Except.bind, pure, Except.pure]
    have ends : within.expect (.mark .rightBracket) "']'" = .ok (closing, within.behind rest) :=
      close
    rw [ends]
    rfl
  · obtain ⟨other, all⟩ := reads empty inner inside within (closing :: rest) rfl last
    obtain ⟨read, parsed, same⟩ := all fuel (by
      show 8 * (c.behind (inner ++ closing :: rest)).tokens.length + 6 ≤ fuel
      omega)
    refine ⟨.array c.peek.place read, ?_, congrArg (Expr.array _) same⟩
    rw [if_neg other, parsed]
    simp only [bind, Except.bind, close]
    rfl

end Compounds

end Parts

mutual

/-- Any expression that can be written is read back, as a whole and as a part of another one. -/
theorem written_read (also : Expr → Bool) {e : Expr} (writable : e.Writable) :
    WholeRead e (e.words also) ∧ AtomRead e (enclose also e (e.words also)) := by
  have compound : ∀ {words : List (TokenKind × List Char)}, e.isCompound = true →
      WholeRead e words → WholeRead e words ∧ AtomRead e (enclose also e words) :=
    fun is whole => ⟨whole, enclose_read whole fun plain => by rw [is] at plain; cases plain⟩
  have simple : ∀ {words : List (TokenKind × List Char)}, AtomRead e words →
      WholeRead e words ∧ AtomRead e (enclose also e words) :=
    fun atom => ⟨atom.whole, enclose_read atom.whole fun _ => atom⟩
  cases e with
  | literal place value => exact simple (literal_read writable)
  | array place items =>
    exact simple (array_read (written_items_read also writable) (by rintro rfl; rfl))
  | var place name qualifier resolved =>
    obtain ⟨writable, rfl⟩ := writable
    exact simple (name_read writable also)
  | app place function argument =>
    exact compound rfl (app_read (written_read also writable.1).2 (written_read also writable.2).2)
  | lambda place params body =>
    exact compound rfl (lambda_read writable.1 (written_read also writable.2.2).2.whole)
  | cond place condition yes no =>
    exact compound rfl (cond_read (written_read also writable.1).2.whole
      (written_read also writable.2.1).2.whole (written_read also writable.2.2).2.whole)
  | binary place op left right =>
    exact compound rfl
      (chained_read (written_read also writable.1).2 (written_read also writable.2).2)
  | negate place operand =>
    exact compound rfl (negate_read (written_read also (e := operand) writable).2)
  | block place statements => exact writable.elim

theorem written_items_read (also : Expr → Bool) {items : List Expr} (writable : ListWritable items)
    (some : items ≠ []) : ItemsRead items (itemWords also items) := by
  match items with
  | [] => exact absurd rfl some
  | [e] => exact last_read (written_read also writable.1).2
  | e :: next :: rest =>
    exact next_read (written_read also writable.1).2
      (written_items_read also writable.2 (List.cons_ne_nil next rest))

end

end Expr

end PureJs
