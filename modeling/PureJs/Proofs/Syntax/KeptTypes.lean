import PureJs.Proofs.Syntax.FormedModules
import PureJs.Proofs.Syntax.TypeText
import PureJs.Proofs.Token.Steady

/-!
The stored text of a type has the tokens of the type if and only if all pieces of the type are
steady. It is cut off by a line comment, and blanks in a string literal are lost.
-/

namespace PureJs

namespace Module

open Cursor

/-- Read on its own, the stored text of a type has the tokens of the type. -/
def Kept (stored : String) (type : List Token) : Prop :=
  ∃ tokens finish, Token.scan stored.toList = .ok (tokens ++ [finish]) ∧
    tokens.map Token.tag = type.map Token.tag

theorem kept_iff_steady {text : List Char} {before type after : List Token}
    (scanned : Token.scan text = .ok (before ++ (type ++ after))) (some : type ≠ [])
    (goes : after ≠ []) :
    ∃ front middle back, Token.Spans text type front middle back ∧
      (Kept (typeText text type) type ↔ ∀ piece ∈ middle, piece.Steady) := by
  obtain ⟨front, middle, back, spans, written, ⟨behind, within⟩, ⟨kind, leads⟩, inner, _, part,
    ends⟩ := type_squeezed scanned some goes
  have each : ∀ piece ∈ middle, ∃ c rest, Piece.first c rest = .ok piece :=
    fun piece member => within.each piece (List.mem_append_left back member)
  obtain ⟨comment, cut, gaps⟩ := within.squeezed
  have none : Piece.lexemes comment = [] := by
    apply List.filterMap_eq_nil_iff.mpr
    intro piece member
    obtain ⟨text, rfl⟩ := gaps piece member
    rfl
  have flat : '\n' ∉ (typeText text type).toList := by
    rw [written]
    exact fun member => absurd (Text.squeeze_blank _ member rfl) (by decide)
  rw [← written] at cut
  obtain ⟨row, finish, alone, is⟩ :=
    Token.scan_written ⟨⟨_, kind, cut, Piece.lead_squeezed leads comment, rfl⟩, flat⟩
  have tagged : row.map Token.tag =
      Piece.lexemes ((middle.takeWhile (!·.isRemark)).map Piece.squeezed) := by
    cases is with
    | intro opens begins others tagged => rw [tagged, Piece.lexemes_append, none, List.append_nil]
  refine ⟨front, middle, back, spans, ?_⟩
  rw [← Piece.lexemes_squeezed each ends, ← tagged, spans.tags]
  constructor
  · rintro ⟨tokens, last, again, same⟩
    rw [alone, Except.ok.injEq] at again
    rw [(List.append_inj' again rfl).1]
    exact same
  · intro same
    exact ⟨row, finish, alone, same⟩

/-- Among the tokens of a text, words of these kinds begin at the place, the name being one of them,
and the type goes on behind them as far as no token begins a line in the first column. -/
inductive TypedAt (place : Position) (kinds : List TokenKind) (name : String) (type : List Token) :
    List Token → Prop
  | intro {before words after : List Token} (here : words.head?.map Token.place = some place)
    (opens : words.map Token.kind = kinds) (named : (.identifier, name) ∈ words.map Token.tag)
    (some : type ≠ []) (goes : ∀ t ∈ type, t.opensLine = true → 1 < t.column)
    (stops : ∀ t ∈ after.head?, t.opensLine = true ∧ t.column ≤ 1) :
    TypedAt place kinds name type (before ++ words ++ (type ++ after))

def StoredAt (text : List Char) (tokens : List Token) (place : Position) (kinds : List TokenKind)
    (name stored : String) : Prop :=
  ∃ type, TypedAt place kinds name type tokens ∧ stored = typeText text type

/-- The words in front of the type in a signature. -/
def signatureKinds : List TokenKind := [.identifier, .mark .doubleColon]

/-- The words in front of the type in a foreign import. -/
def foreignKinds : List TokenKind :=
  [.keyword .foreignWord, .keyword .importWord, .identifier, .string, .mark .doubleColon]

def Item.Stored (text : List Char) (tokens : List Token) : Item → Prop
  | .signature s => StoredAt text tokens s.place signatureKinds s.name s.type
  | .declaration (.foreign f) => StoredAt text tokens f.place foreignKinds f.name f.type
  | _ => True

section Reading

variable {text : List Char} {c : Cursor} {item : Item} {after : Cursor}

theorem signature_stored (ready : c.Ready) (margin : c.margin = 1) (here : c.kind = .identifier)
    (next : c.secondKind = .mark .doubleColon)
    (parsed : parseSignature text c = .ok (item, after)) (before : List Token) :
    item.Stored text (before ++ c.tokens) := by
  have name := takes_next ready (by simp [here])
  have second : c.advance.kind = .mark .doubleColon := next
  have front := name.trans (takes_next (name.ready ready) (by simp [second]))
  obtain ⟨⟨stored, last⟩, taken, parsed⟩ := bind_gives parsed
  cases parsed
  obtain ⟨type, takes, rfl, some, goes, stops⟩ := type_takes front.stale taken
  rw [front.margin, margin] at goes stops
  rw [front.tokens, takes.tokens, ← List.append_assoc]
  refine ⟨type, .intro rfl ?_ ?_ some goes stops, rfl⟩
  · simp [signatureKinds, show c.peek.kind = _ from here, show c.advance.peek.kind = _ from second]
  · simp [Token.tag, show c.peek.kind = _ from here]

theorem foreign_stored (ready : c.Ready) (margin : c.margin = 1)
    (here : c.kind = .keyword .foreignWord) (parsed : parseForeign text c = .ok (item, after))
    (before : List Token) : item.Stored text (before ++ c.tokens) := by
  have front := takes_next ready (by simp [here])
  obtain ⟨⟨second, mid⟩, one, parsed⟩ := bind_gives parsed
  obtain ⟨_, takes, rfl, goes⟩ := Lays.expect (front.ready ready) (by simp) _ _ one
  have front := front.trans takes
  obtain ⟨⟨name, mid⟩, two, parsed⟩ := bind_gives parsed
  obtain ⟨_, takes, rfl, named⟩ := Lays.expect (front.ready ready) (by simp) _ _ two
  have front := front.trans takes
  obtain ⟨⟨javascript, mid⟩, three, parsed⟩ := bind_gives parsed
  obtain ⟨_, takes, rfl, given⟩ := Lays.expect (front.ready ready) (by simp) _ _ three
  have front := front.trans takes
  obtain ⟨⟨colons, mid⟩, four, parsed⟩ := bind_gives parsed
  obtain ⟨_, takes, rfl, typed⟩ := Lays.expect (front.ready ready) (by simp) _ _ four
  have front := front.trans takes
  obtain ⟨⟨stored, last⟩, taken, parsed⟩ := bind_gives parsed
  cases parsed
  obtain ⟨type, takes, rfl, some, free, stops⟩ := type_takes front.stale taken
  rw [front.margin, margin] at free stops
  rw [front.tokens, takes.tokens, ← List.append_assoc]
  refine ⟨type, .intro rfl ?_ ?_ some free stops, rfl⟩
  · simp [foreignKinds, show c.peek.kind = _ from here, goes, named, given, typed]
  · simp [Token.tag, named]

theorem item_stored (ready : c.Ready) (margin : c.margin = 1)
    (parsed : parseItem text c = .ok (item, after)) (before : List Token) :
    item.Stored text (before ++ c.tokens) := by
  unfold parseItem at parsed
  split at parsed
  · obtain ⟨_, _, parsed⟩ := bind_gives parsed
    cases parsed
    trivial
  · rename_i kind
    exact foreign_stored ready margin kind parsed before
  · rename_i kind
    split at parsed
    · rename_i next
      exact signature_stored ready margin kind next parsed before
    · obtain ⟨_, _, parsed⟩ := bind_gives parsed
      obtain ⟨_, _, parsed⟩ := bind_gives parsed
      cases parsed
      trivial
  · cases parsed

end Reading

theorem ofText_stored {file : String} {text : List Char} {modules : List Module}
    (parsed : ofText file text = .ok modules) :
    ∃ tokens place stop, Token.scan text = .ok (tokens ++ [Token.endOfInput place stop]) ∧
      ∀ m ∈ modules, Of (Item.Stored text tokens) m := by
  cases scanned : Token.scan text with
  | error problem =>
    rw [ofText, scanned] at parsed
    cases parsed
  | ok tokens =>
    obtain ⟨front, place, stop, rfl⟩ := Token.scan_ends scanned
    refine ⟨front, place, stop, rfl, ofText_each parsed ?_⟩
    intro tokens again c moves item after read
    rw [scanned] at again
    cases again
    have ready := (scanned_ready scanned).moves moves
    have margin : c.margin = 1 := by rw [Cursor.margin, moves.layout]; rfl
    obtain ⟨before, split⟩ := moves.suffix
    have same : before ++ c.tokens = front := by simpa [Cursor.ofTokens] using split
    rw [← same]
    exact ⟨item_stored ready margin read before, (item_reads ready text item after read).2⟩

theorem stored_kept {text : List Char} {tokens : List Token} {finish : Token} {place : Position}
    {kinds : List TokenKind} {name stored : String}
    (scanned : Token.scan text = .ok (tokens ++ [finish]))
    (typed : StoredAt text tokens place kinds name stored) :
    ∃ type front middle back, TypedAt place kinds name type tokens ∧
      Token.Spans text type front middle back ∧
      (Kept stored type ↔ ∀ piece ∈ middle, piece.Steady) := by
  obtain ⟨type, stands, rfl⟩ := typed
  have same := stands
  cases stands with
  | @intro before words after here opens named some goes stops =>
    rw [List.append_assoc, List.append_assoc type] at scanned
    obtain ⟨front, middle, back, kept⟩ := kept_iff_steady scanned some (by simp)
    exact ⟨type, front, middle, back, same, kept⟩

/-- For every signature and foreign import of a text, the type stands behind its words in the text,
and the stored text of the type has the tokens of the type exactly if, from the first of them to the
last, no line comment stands in between and no blanks stand in them but single spaces. -/
theorem types_kept_iff_steady {file : String} {text : List Char} {modules : List Module}
    (parsed : ofText file text = .ok modules) :
    ∃ tokens finish, Token.scan text = .ok (tokens ++ [finish]) ∧ finish.kind = .endOfInput ∧
      ∀ m ∈ modules,
        (∀ s ∈ m.signatures, ∃ type front middle back,
          TypedAt s.place signatureKinds s.name type tokens ∧
            Token.Spans text type front middle back ∧
            (Kept s.type type ↔ ∀ piece ∈ middle, piece.Steady)) ∧
        ∀ f, .foreign f ∈ m.declarations → ∃ type front middle back,
          TypedAt f.place foreignKinds f.name type tokens ∧
            Token.Spans text type front middle back ∧
            (Kept f.type type ↔ ∀ piece ∈ middle, piece.Steady) := by
  obtain ⟨tokens, place, stop, scanned, each⟩ := ofText_stored parsed
  refine ⟨tokens, _, scanned, rfl, fun m member => ?_⟩
  obtain ⟨name, file, start, items, rfl, stored⟩ := each m member
  constructor
  · intro s listed
    obtain ⟨item, inside, is⟩ := List.mem_filterMap.mp listed
    have fits := stored item inside
    cases item with
    | signature entry =>
      cases is
      exact stored_kept scanned fits
    | declaration entry => cases is
    | «import» entry => cases is
  · intro f listed
    obtain ⟨item, inside, is⟩ := List.mem_filterMap.mp listed
    have fits := stored item inside
    cases item with
    | declaration entry =>
      cases is
      exact stored_kept scanned fits
    | signature entry => cases is
    | «import» entry => cases is

def typedText : List Char :=
  "module A where\nf :: a {- of b -}\n  -> \"c d\"\nforeign import g \"g\" ::\n  a\t-> b\n".toList

theorem typed_text_kept :
    ∃ modules tokens finish, ofText unnamedFile typedText = .ok modules ∧
      Token.scan typedText = .ok (tokens ++ [finish]) ∧ ∀ m ∈ modules,
        (∀ s ∈ m.signatures, ∃ type, TypedAt s.place signatureKinds s.name type tokens ∧
          Kept s.type type) ∧
        ∀ f, .foreign f ∈ m.declarations → ∃ type,
          TypedAt f.place foreignKinds f.name type tokens ∧ Kept f.type type := by
  have steady : ∀ piece ∈ (Piece.ofText typedText).1, piece.Steady := by decide +kernel
  have reads : (ofText unnamedFile typedText).isOk = true := by decide +kernel
  cases parsed : ofText unnamedFile typedText with
  | error fault =>
    rw [parsed] at reads
    cases reads
  | ok modules =>
    obtain ⟨tokens, finish, scanned, _, each⟩ := types_kept_iff_steady parsed
    have within : ∀ {type front middle back}, Token.Spans typedText type front middle back →
        ∀ piece ∈ middle, piece.Steady := by
      intro type front middle back spans piece member
      apply steady
      rw [spans.whole]
      simp [member]
    refine ⟨modules, tokens, finish, rfl, scanned, fun m member => ⟨fun s here => ?_,
      fun f here => ?_⟩⟩
    · obtain ⟨type, _, _, _, typed, spans, kept⟩ := (each m member).1 s here
      exact ⟨type, typed, kept.mpr (within spans)⟩
    · obtain ⟨type, _, _, _, typed, spans, kept⟩ := (each m member).2 f here
      exact ⟨type, typed, kept.mpr (within spans)⟩

def remarkedText : List Char := "module A where\nf :: a -- b\n  -> c\nf x = x\n".toList

def remarkedTokens : List Token :=
  ((Token.scan remarkedText).toOption.getD []).dropLast

/-- The comment ends with its line in the program, and goes on to the end of the stored text. -/
theorem remark_hides_type :
    ∃ modules tokens finish m s type, ofText unnamedFile remarkedText = .ok modules ∧
      Token.scan remarkedText = .ok (tokens ++ [finish]) ∧ m ∈ modules ∧ s ∈ m.signatures ∧
      TypedAt s.place signatureKinds s.name type tokens ∧ ¬Kept s.type type := by
  have read : (ofText unnamedFile remarkedText).toOption.map (List.map Module.signatures) =
      some [[⟨⟨2, 1⟩, "f", "a -- b -> c"⟩]] := by decide +kernel
  have alone : (Token.scan "a -- b -> c".toList).toOption.map List.length = some 2 := by
    decide +kernel
  have long : ((remarkedTokens.drop 5).take 3).length = 3 := by decide +kernel
  have whole : remarkedTokens.take 3 ++ (remarkedTokens.drop 3).take 2 ++
      ((remarkedTokens.drop 5).take 3 ++ remarkedTokens.drop 8) = remarkedTokens := by
    decide +kernel
  have typed : TypedAt ⟨2, 1⟩ signatureKinds "f" ((remarkedTokens.drop 5).take 3)
      remarkedTokens := by
    have there := @TypedAt.intro ⟨2, 1⟩ signatureKinds "f" ((remarkedTokens.drop 5).take 3)
      (remarkedTokens.take 3) ((remarkedTokens.drop 3).take 2) (remarkedTokens.drop 8)
      (by decide +kernel) (by decide +kernel) (by decide +kernel) (by decide +kernel)
      (by decide +kernel) (by decide +kernel)
    rwa [whole] at there
  cases parsed : ofText unnamedFile remarkedText with
  | error fault =>
    rw [parsed] at read
    cases read
  | ok modules =>
    rw [parsed] at read
    obtain ⟨m, rfl, listed⟩ := List.map_eq_singleton_iff.mp (Option.some.inj read)
    obtain ⟨tokens, place, stop, scanned, _⟩ := ofText_stored parsed
    have these : tokens = remarkedTokens := by
      simp [remarkedTokens, scanned, Except.toOption]
    subst these
    refine ⟨[m], _, _, m, _, _, rfl, scanned, List.mem_singleton_self m,
      by rw [listed]; exact List.mem_singleton_self _, typed, ?_⟩
    rintro ⟨tokens, last, again, same⟩
    rw [show Token.scan (Signature.type _).toList = _ from again] at alone
    have two := Option.some.inj alone
    have three := congrArg List.length same
    rw [List.length_map, List.length_map, long] at three
    rw [List.length_append, List.length_singleton, three] at two
    cases two

end Module

end PureJs
