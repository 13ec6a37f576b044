import PureJs.Proofs.Program.Interfaces
import PureJs.Proofs.Syntax.ReadBack

/-!
A module of values of which each is declared on a line of its own. The expressions that the values
are declared to be are read back from its text.
-/

namespace PureJs

namespace Token

theorem tagged_stand {words : List (TokenKind × List Char)} {tokens : List Token}
    (inline : ∀ t ∈ tokens, t.opensLine = false)
    (tagged : tokens.map tag = words.map Piece.tagOf) : List.Forall₂ Stands words tokens := by
  induction words generalizing tokens with
  | nil =>
    cases List.map_eq_nil_iff.mp tagged
    exact .nil
  | cons word words ih =>
    obtain ⟨t, rest, rfl, here, later⟩ := List.map_eq_cons_iff.mp tagged
    rw [List.forall_mem_cons] at inline
    obtain ⟨kind, value⟩ := Prod.mk.inj here
    exact .cons ⟨kind, value, inline.1⟩ (ih inline.2 later)

end Token

namespace Module

open Piece Token PureJs.Expr

/-- A value, and a line on which it is declared. Which parts of the body are in parentheses that
need not be, the line shows too. -/
structure WrittenValue where
  name : String
  params : List String
  body : Expr
  also : Expr → Bool
  line : List Char

namespace WrittenValue

def bodyWords (v : WrittenValue) : List (TokenKind × List Char) :=
  if v.also v.body then inParens (v.body.words v.also) else v.body.words v.also

def words (v : WrittenValue) : List (TokenKind × List Char) :=
  nameWord v.name :: (v.params.map nameWord ++ Mark.assign.word :: v.bodyWords)

structure Writes (v : WrittenValue) : Prop where
  named : Bare v.name.toList
  params : ∀ param ∈ v.params, Bare param.toList
  body : v.body.Writable
  line : OnLine v.words v.line

/-- The value is declared as it is written, its places aside. -/
def Declares (v : WrittenValue) (d : Declaration) : Prop :=
  ∃ place read, d = .value ⟨place, v.name, v.params, read⟩ ∧ read.unplaced = v.body.unplaced

variable {v : WrittenValue}

theorem Writes.readable (writes : v.Writes) : Operand.Readable v.words := by
  have body : Operand.Readable v.bodyWords := by
    have inner := words_readable v.also writes.body
    unfold bodyWords
    split
    · exact readable_append (readable_append (Mark.readable .leftParen) inner)
        (Mark.readable .rightParen)
    · exact inner
  exact List.forall_mem_cons.mpr
    ⟨⟨writes.named.alone, writes.named.alone.flat nofun⟩,
      readable_append (readable_names writes.params) (readable_append (Mark.readable .assign) body)⟩

theorem Writes.body_read (writes : v.Writes) : WholeRead v.body v.bodyWords := by
  have whole := (written_read v.also writes.body).1
  unfold bodyWords
  split
  · exact whole.parens.whole
  · exact whole

theorem row_entry {row : List Token} (is : Token.Row (v.words.map tagOf) row) : Entry row := by
  cases is with
  | @intro t rest opens begins others tagged =>
    obtain ⟨here, later⟩ := List.cons.inj tagged
    refine ⟨t, rest, rfl, opens, begins, ?_⟩
    rw [(Prod.mk.inj here).1]
    nofun

theorem Writes.read (writes : v.Writes) (text : List Char) (finish : Token) {row more : List Token}
    (is : Token.Row (v.words.map tagOf) row) (fresh : Fresh more) :
    ∃ item, parseItem text ⟨row ++ more, finish, false, [1]⟩ =
        .ok (item, ⟨more, finish, false, [1]⟩) ∧
      ∃ d, item = .declaration d ∧ v.Declares d := by
  cases is with
  | @intro t rest opens begins others tagged =>
    obtain ⟨here, later⟩ := List.cons.inj tagged
    obtain ⟨kind, value⟩ := Prod.mk.inj here
    obtain ⟨names, _, rfl, listed, back⟩ := stand_split (tagged_stand others later)
    cases back with
    | @cons _ sign _ inner assign standing =>
    obtain ⟨kinds, values⟩ := names_stand listed
    let c := Cursor.outermost finish
    have ends : ((c (inner ++ more)).behind more).EndsChain :=
      Cursor.boundary_ends (by
        cases more with
        | nil => rfl
        | cons next others =>
          have begins := fresh next rfl
          simp [Cursor.atBoundary, Cursor.breaksLayout, Cursor.behind, Cursor.peek,
            Cursor.outermost, c, begins])
    obtain ⟨body, parsed, same⟩ := writes.body_read inner standing (c (inner ++ more)) more rfl ends
      (readingDepth (c (inner ++ more))) (by unfold readingDepth; omega)
    have value : t.value = v.name := by
      simpa [nameWord, value_plain] using value
    refine ⟨.declaration (.value ⟨t.place, v.name, v.params, body⟩), ?_, _, rfl, t.place, body, rfl,
      same⟩
    have ids : (c (names ++ sign :: (inner ++ more))).identifiers =
        (names.map Token.value, c (sign :: (inner ++ more))) :=
      Cursor.identifiers_of rfl rfl kinds (by rw [assign.kind]; rintro ⟨⟩)
    have expects : (c (sign :: (inner ++ more))).expect (.mark .assign) "'='" =
        .ok (sign, c (inner ++ more)) := Cursor.expect_of rfl assign.kind _
    have plain : (c (t :: (names ++ sign :: (inner ++ more)))).secondKind ≠
        .mark .doubleColon := by
      intro colon
      cases names with
      | nil => cases assign.kind.symm.trans colon
      | cons first rest => cases (kinds first List.mem_cons_self).symm.trans colon
    have declares : parseItem text (c (t :: (names ++ sign :: (inner ++ more)))) =
        .ok (.declaration (.value ⟨t.place, v.name, v.params, body⟩), c more) := by
      have kind : (c (t :: (names ++ sign :: (inner ++ more)))).kind = .identifier := kind
      unfold parseItem
      rw [kind]
      dsimp only
      rw [if_neg plain]
      unfold parseValue
      rw [show (c (t :: (names ++ sign :: (inner ++ more)))).advance =
        c (names ++ sign :: (inner ++ more)) from rfl, ids]
      dsimp only
      rw [expects]
      dsimp only [bind, Except.bind]
      rw [parsed, values, ← value]
      rfl
    rw [List.cons_append, List.append_assoc, List.cons_append]
    exact declares

end WrittenValue

theorem values_rows {values : List WrittenValue} {rows : List (List Token)}
    (writes : ∀ v ∈ values, v.Writes)
    (are : List.Forall₂ (fun v row => ∃ tags, tags = v.words.map tagOf ∧ Token.Row tags row)
      values rows) :
    List.Forall₂ (fun v row => v.Writes ∧ Token.Row (v.words.map tagOf) row) values rows := by
  induction are with
  | nil => exact .nil
  | cons here later ih =>
    rw [List.forall_mem_cons] at writes
    obtain ⟨_, rfl, is⟩ := here
    exact .cons ⟨writes.1, is⟩ (ih writes.2)

theorem values_entries {values : List WrittenValue} {rows : List (List Token)}
    (are : List.Forall₂ (fun v row => v.Writes ∧ Token.Row (v.words.map tagOf) row) values rows) :
    ∀ row ∈ rows, Entry row := by
  induction are with
  | nil => nofun
  | cons here later ih => exact List.forall_mem_cons.mpr ⟨WrittenValue.row_entry here.2, ih⟩

theorem items_declared {values : List WrittenValue} {items : List Item}
    (given : List.Forall₂ (fun v item => ∃ d, item = .declaration d ∧ v.Declares d) values items) :
    items.filterMap Item.import? = [] ∧ items.filterMap Item.signature? = [] ∧
      List.Forall₂ WrittenValue.Declares values (items.filterMap Item.declaration?) := by
  induction given with
  | nil => exact ⟨rfl, rfl, .nil⟩
  | cons here later ih =>
    obtain ⟨d, rfl, declares⟩ := here
    exact ⟨ih.1, ih.2.1, .cons declares ih.2.2⟩

/-- The text of a module of values, of which each stands on a line. -/
def writtenValues (name : String) (values : List WrittenValue) : List Char :=
  (Line.header name).text.toList ++ '\n' :: values.flatMap (·.line ++ ['\n'])

/-- A module is read from a text of values as what they are written for: the values are declared one
after the other, and the body of each is the expression again, its places aside. -/
theorem values_read_back {name : String} (named : Dotted name.toList) {values : List WrittenValue}
    (writes : ∀ v ∈ values, v.Writes) (file : String) :
    ∃ m, ofText file (writtenValues name values) = .ok [m] ∧ m.name = name ∧ m.imports = [] ∧
      m.signatures = [] ∧ List.Forall₂ WrittenValue.Declares values m.declarations := by
  obtain ⟨tags, header, tagged⟩ := header_written named.proper
  have written : ∀ line ∈ ((Line.header name).text.toList, tags) ::
      values.map (fun v => (v.line, v.words.map tagOf)),
      ∃ tags, Written tags line.1 ∧ tags = line.2 := by
    rw [List.forall_mem_cons, List.forall_mem_map]
    exact ⟨⟨_, header, rfl⟩,
      fun v member => ⟨_, (writes v member).line.written (writes v member).readable, rfl⟩⟩
  obtain ⟨rows, finish, scanned, are⟩ := Token.scan_rows written
  rw [List.flatMap_cons, List.flatMap_map, ← List.append_cons] at scanned
  cases are with
  | @cons _ first _ rows here later =>
    obtain ⟨_, rfl, is⟩ := here
    rw [List.forall₂_map_left_iff] at later
    have are : List.Forall₂ (fun v row => v.Writes ∧ Token.Row (v.words.map tagOf) row)
        values rows := values_rows writes later
    have entries : ∀ row ∈ rows, Entry row := values_entries are
    obtain ⟨items, read, given⟩ : ∃ items, parseItems (writtenValues name values)
        (rows.flatten.length + 1) ⟨rows.flatten, finish, false, [1]⟩ =
          .ok (items, ⟨[], finish, false, [1]⟩) ∧
        List.Forall₂ (fun v item => ∃ d, item = .declaration d ∧ v.Declares d) values items :=
      rows_read (writtenValues name values) finish are entries
        (fun v row more is fresh => is.1.read _ finish is.2 fresh)
        (Nat.lt_succ_of_le (rows_length entries))
    obtain ⟨place, whole⟩ := header_read file (writtenValues name values) finish
      ⟨_, tagged, is⟩ (entries_fresh entries) read
    rw [List.flatten_cons] at scanned
    have declared := items_declared given
    exact ⟨_, (ofText_scanned scanned).trans whole, rfl, declared⟩

def sampleValue : WrittenValue where
  name := "f"
  params := ["x"]
  body := .cond .start (.app .start (.var .start "g" (some "A.B") none) (.var .start "x" none none))
    (.lambda .start ["y", "z"] (.negate .start
      (.binary .start .sub (.var .start "y" none none) (.literal .start (.integer 10)))))
    (.array .start [.literal .start (.string "a\"\\\n"), .literal .start (.number "2.5"),
      .literal .start (.bool true), .array .start []])
  also := fun _ => false
  line := "f x=if(A.B.g x)then(\\y z->(-(y-10)))else[\"a\\\"\\\\\\n\",2.5,true,[]]".toList

example : sampleValue.line = joined sampleValue.words := by decide +kernel

theorem inner_dotted : Dotted "A.B".toList := by
  have first : LexicalChars ['A'] := ⟨rfl, List.all_eq_true.mp rfl⟩
  have second : LexicalChars ['B'] := ⟨rfl, List.all_eq_true.mp rfl⟩
  exact .more first rfl (.last second rfl)

theorem sample_writes : sampleValue.Writes := by
  have bare : ∀ name ∈ ["f", "g", "x", "y", "z"], Bare name.toList := by
    have all : ["f", "g", "x", "y", "z"].all (fun name =>
        name.toList.head?.any startsName && name.toList.all continuesName &&
          !name.toList.head?.any Text.isCapital &&
            Keyword.ofText? (String.ofList name.toList) = none) = true := by decide +kernel
    intro name member
    have parts := List.all_eq_true.mp all name member
    simp only [Bool.and_eq_true, Bool.not_eq_true', decide_eq_true_eq] at parts
    obtain ⟨⟨⟨begins, each⟩, small⟩, free⟩ := parts
    exact ⟨⟨begins, List.all_eq_true.mp each⟩, small, free⟩
  refine ⟨bare "f" (by simp), by simpa [sampleValue] using bare "x" (by simp), ?_, ?_⟩
  · have small := bare "g" (by simp)
    have function : NameWritable "g" (some "A.B") := ⟨inner_dotted, small.lexical, small.small⟩
    have params : ∀ param ∈ ["y", "z"], Bare param.toList := by
      simpa using ⟨bare "y" (by simp), bare "z" (by simp)⟩
    exact ⟨⟨⟨function, rfl⟩, bare "x" (by simp), rfl⟩,
      ⟨List.cons_ne_nil _ _, params, ⟨bare "y" (by simp), rfl⟩, by decide, by decide⟩,
      trivial, ⟨['2'], ['5'], rfl, List.cons_ne_nil _ _, List.cons_ne_nil _ _,
        List.all_eq_true.mp rfl⟩, trivial, trivial, trivial⟩
  · rw [show sampleValue.line = joined sampleValue.words by decide +kernel]
    exact joined_on_line (List.cons_ne_nil _ _)

theorem sample_read_back :
    ∃ m, ofText "values.pure" (writtenValues "A.B" [sampleValue]) = .ok [m] ∧ m.name = "A.B" ∧
      m.imports = [] ∧ m.signatures = [] ∧
      List.Forall₂ WrittenValue.Declares [sampleValue] m.declarations :=
  values_read_back inner_dotted (List.forall_mem_singleton.mpr sample_writes) _

end Module

end PureJs
