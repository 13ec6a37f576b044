import PureJs.Proofs.Js.OneTree
import PureJs.Proofs.Js.Spelling

/-!
Code that shows its operator tree: whatever its indentation, its text is cut into lexemes that have
the tree if the names and numbers in it are legal, and cannot be cut otherwise.
-/

namespace PureJs.Js

theorem Reads.looser {level other : Nat} {lexemes : List Lexeme} {tree : Tree}
    (reads : Reads level lexemes tree) (looser : other ≤ level) : Reads other lexemes tree := by
  induction level with
  | zero => exact Nat.le_zero.mp looser ▸ reads
  | succ level ih =>
    rcases Nat.lt_or_eq_of_le looser with less | rfl
    · exact ih (.tighter reads) (Nat.le_of_lt_succ less)
    · exact reads

def Begun (wanted : Char → Prop) (text : String) : Prop :=
  ∃ c tail, text.toList = c :: tail ∧ wanted c

theorem Begun.append {wanted : Char → Prop} {text : String} (begun : Begun wanted text)
    (other : String) : Begun wanted (text ++ other) := by
  obtain ⟨c, tail, chars, here⟩ := begun
  exact ⟨c, tail ++ other.toList, by rw [String.toList_append, chars]; rfl, here⟩

theorem Begun.imp {wanted other : Char → Prop} {text : String} (begun : Begun wanted text)
    (implies : ∀ c, wanted c → other c) : Begun other text := by
  obtain ⟨c, tail, chars, here⟩ := begun
  exact ⟨c, tail, chars, implies c here⟩

/-- How the text of an expression begins. One that can be called runs together with no sign in front
of it. -/
def Front (level : Nat) (c : Char) : Prop :=
  isBlank c = false ∧ (callLevel ≤ level → c ≠ '-' ∧ c ≠ '=')

/-- The text is cut into the lexemes if it is legal, and they are an expression of the level with
the tree. One that can be called is taken for no declaration of a function. -/
structure Written (level : Nat) (text : String) (legal : Prop) (lexemes : List Lexeme)
    (tree : Tree) : Prop where
  cuts : Cuts Closing text legal lexemes
  reads : Reads level lexemes tree
  begins : Begun (Front level) text
  plain : callLevel ≤ level → lexemes.head? ≠ some (.word "function")

def Shows (level : Nat) (legal : Prop) (code : Expr) (tree : Tree) : Prop :=
  ∀ indent, ∃ lexemes, Written level (code.text indent) legal lexemes tree

def ListShows (legal : Prop) (codes : List Expr) (trees : List Tree) : Prop :=
  codes.length = trees.length ∧ ∀ indent, ∃ lexemes,
    Cuts Closing (", ".intercalate (listTexts indent codes)) legal lexemes ∧
      ReadsItems lexemes trees

def BodyShows (legal : Prop) (body : List Statement) (trees : List TreeStatement) : Prop :=
  ∀ indent, ∃ lexemes,
    Cuts Anything (String.join ((bodyLines indent body).map (· ++ "\n"))) legal lexemes ∧
      ReadsBody lexemes trees

structure Word (legal : Prop) (text : String) : Prop where
  cuts : Cuts Closing text legal [.word text]
  begins : Begun (fun c => isBlank c = false ∧ c ∉ ['-', '=', '.'] ∧ c.isDigit = false) text
  free : text ∉ strictReserved

theorem keywords_reserved {word : String} (free : word ∉ strictReserved) : word ∉ keywords :=
  fun member => free (List.mem_filter.mp member).1

theorem word_begins {c : Char} (begins : beginsIdentifier c = true) :
    isBlank c = false ∧ c ∉ ['-', '=', '.'] ∧ c.isDigit = false :=
  ⟨word_visible begins, unlisted (by decide +kernel) begins, begins_no_figure begins⟩

theorem Word.of_chars {text : String} {c : Char} {tail : List Char}
    (chars : text.toList = c :: tail)
    (begins : beginsIdentifier c = true) (each : tail.all continuesWord = true)
    (free : text ∉ strictReserved) : Word True text := by
  have plain : text ≠ "return" := by
    rintro rfl
    exact free (by decide)
  exact ⟨spells_word chars begins each plain, ⟨c, tail, chars, word_begins begins⟩, free⟩

theorem Word.fronts {legal : Prop} {text : String} (word : Word legal text) (level : Nat) :
    Begun (Front level) text := by
  refine word.begins.imp fun c ⟨visible, plain, _⟩ => ⟨visible, fun _ => ?_⟩
  simp only [List.mem_cons, not_or] at plain
  exact ⟨plain.1, plain.2.1⟩

/-! Signs with blanks around them -/

section Signs

variable {next : List Char → Prop}

theorem spells_gap : Spells next " " [] := spells_blank (by decide)

theorem spells_comma : Spells next ", " [.sign ","] := by
  have comma : Spells Anything "," [.sign ","] := spells_bracket (by decide)
  have gap : Spells next " " [] := spells_gap
  simpa using comma.append gap fun _ => trivial

theorem spells_between {sign : String} (alone : Spells Parted sign [.sign sign]) :
    Spells next (" " ++ sign ++ " ") [.sign sign] := by
  have before : Spells Anything " " [] := spells_gap
  have behind : Spells next " " [] := spells_gap
  simpa using (before.append alone fun _ => trivial).append behind fun _ => rfl

end Signs

/-! Expressions that stand by themselves -/

theorem figure_fronts {c : Char} (digit : c.isDigit = true) (level : Nat) : Front level c :=
  ⟨figure_visible digit,
    fun _ => ⟨apart_from digit (by decide), apart_from digit (by decide)⟩⟩

theorem natural_begins (n : Nat) (level : Nat) : Begun (Front level) n.repr := by
  obtain ⟨c, tail, chars⟩ := List.exists_cons_of_ne_nil (@Nat.toDigits_ne_nil n 10)
  have digit : c.isDigit = true := Piece.decimal_chars n c (by simp [chars])
  exact ⟨c, tail, by rw [Nat.toList_repr, chars], figure_fronts digit level⟩

theorem shows_natural (n : Nat) : Shows primaryLevel True (.integer n) (.number n.repr) :=
  fun _ => ⟨_, spells_natural n, .primary .number, natural_begins n _, nofun⟩

theorem shows_pointed {text : String} {whole fraction : List Char}
    (pointed : Pointed text.toList whole fraction) :
    Shows primaryLevel (∃ q, DecimalLiteral text.toList q) (.number text) (.number text) := by
  refine fun _ => ⟨_, pointed_cuts pointed, .primary .number, ?_, nofun⟩
  obtain ⟨split, some, -, each, -⟩ := pointed
  obtain ⟨c, tail, rfl⟩ := List.exists_cons_of_ne_nil some
  have digit : Text.isDigit c = true := each c List.mem_cons_self
  exact ⟨c, _, split, visible_if (by decide +kernel) digit,
    fun _ => ⟨apart_from digit (by decide), apart_from digit (by decide)⟩⟩

theorem shows_negative (n : Nat) :
    Shows unaryLevel True (.integer (.negSucc n)) (.negate (.number (n + 1).repr)) := by
  intro indent
  obtain ⟨c, tail, chars, -, unsigned⟩ := natural_begins (n + 1) primaryLevel
  have spells := spells_minus.append (spells_natural (n + 1)) fun rest =>
    ⟨c, tail ++ rest, by rw [chars]; rfl, unsigned (by decide)⟩
  rw [and_self] at spells
  refine ⟨_, spells, ?_, ?_, fun call => absurd call (by decide)⟩
  · exact .negate (.tighter (.tighter (.primary .number)))
  · exact Begun.append ⟨'-', [], rfl, by decide, fun call => absurd call (by decide)⟩ _

theorem shows_string (value : String) :
    Shows primaryLevel True (.string value) (.string (Json.quote value)) := by
  intro indent
  refine ⟨_, spells_string value, .primary .string, ?_, nofun⟩
  exact (Begun.append ⟨'"', [], rfl, by decide, by decide⟩ _).append _

theorem shows_bool (value : Bool) : Shows primaryLevel True (.bool value) (.bool value) := by
  have yes : "true".toList = ['t', 'r', 'u', 'e'] := by decide
  have no : "false".toList = ['f', 'a', 'l', 's', 'e'] := by decide
  intro indent
  cases value with
  | true =>
    have spells : Spells Closing "true" [.word "true"] :=
      spells_word yes (by decide +kernel) (by decide +kernel) (by decide)
    exact ⟨_, spells, .primary .yes, ⟨_, _, yes, by decide, by decide⟩, by decide⟩
  | false =>
    have spells : Spells Closing "false" [.word "false"] :=
      spells_word no (by decide +kernel) (by decide +kernel) (by decide)
    exact ⟨_, spells, .primary .no, ⟨_, _, no, by decide, by decide⟩, by decide⟩

theorem shows_name {legal : Prop} {text : String} (word : Word legal text) :
    Shows primaryLevel legal (.name text) (.name text) := by
  have free := keywords_reserved word.free
  refine fun _ => ⟨_, word.cuts, .primary (.name free), word.fronts _, fun _ => ?_⟩
  rintro ⟨⟩
  exact free (by decide)

/-! Expressions in brackets -/

section Brackets

variable {next : List Char → Prop} {text opening closing : String} {legal : Prop}
  {lexemes : List Lexeme}

theorem cuts_closed
    (closes : closing ∈ [")", "]", "\x7d"]) (cuts : Cuts Closing text legal lexemes) :
    Cuts next (text ++ closing) legal (lexemes ++ [.sign closing]) := by
  have bracket : ∀ sign ∈ [")", "]", "\x7d"], sign ∈ brackets := by decide
  have closer : ∃ c tail, closing.toList = c :: tail ∧ c ∈ closers := by
    simp only [List.mem_cons, List.not_mem_nil, or_false] at closes
    rcases closes with rfl | rfl | rfl <;> exact ⟨_, _, rfl, by decide⟩
  obtain ⟨c, tail, chars, ends⟩ := closer
  have closed : Spells next closing [.sign closing] := spells_bracket (bracket closing closes)
  simpa using cuts.append closed (closing_begun chars ends)

theorem cuts_enclosed (opens : opening ∈ ["(", "["]) (closes : closing ∈ [")", "]", "\x7d"])
    (cuts : Cuts Closing text legal lexemes) :
    Cuts next (opening ++ text ++ closing) legal
      (.sign opening :: (lexemes ++ [.sign closing])) := by
  have bracket : ∀ sign ∈ ["(", "["], sign ∈ brackets := by decide
  have opened : Spells Anything opening [.sign opening] := spells_bracket (bracket opening opens)
  have whole : Cuts Closing (opening ++ text) legal (.sign opening :: lexemes) := by
    simpa using opened.append cuts fun _ => trivial
  exact cuts_closed closes whole

end Brackets

section Shown

variable {legal licit : Prop} {code : Expr} {tree : Tree} {codes : List Expr} {trees : List Tree}

theorem Shows.looser {level other : Nat} (shown : Shows level legal code tree)
    (looser : other ≤ level) : Shows other legal code tree := by
  intro indent
  obtain ⟨lexemes, written⟩ := shown indent
  refine ⟨lexemes, written.cuts, written.reads.looser looser, written.begins.imp fun c front => ?_,
    fun call => written.plain (Nat.le_trans call looser)⟩
  exact ⟨front.1, fun call => front.2 (Nat.le_trans call looser)⟩

theorem Shows.iff {level : Nat} (shown : Shows level legal code tree) (same : legal ↔ licit) :
    Shows level licit code tree := by
  rwa [← propext same]

theorem shows_paren (inner : Shows 0 legal code tree) :
    Shows primaryLevel legal (.paren code) tree := by
  intro indent
  obtain ⟨lexemes, written⟩ := inner indent
  exact ⟨_, cuts_enclosed (by decide) (by decide) written.cuts, .primary (.paren written.reads),
    (Begun.append ⟨'(', [], rfl, by decide, by decide⟩ _).append _, fun _ => nofun⟩

theorem list_none : ListShows True [] [] := ⟨rfl, fun _ => ⟨[], spells_nothing, .none⟩⟩

theorem list_next (here : Shows 0 legal code tree) (later : ListShows licit codes trees) :
    ListShows (legal ∧ licit) (code :: codes) (tree :: trees) := by
  obtain ⟨length, rest⟩ := later
  refine ⟨by simp [length], fun indent => ?_⟩
  obtain ⟨lexemes, written⟩ := here indent
  obtain ⟨more, cuts, reads⟩ := rest indent
  match codes, trees, length with
  | [], [], _ =>
    have known : licit := by
      by_contra illegal
      have none : lex [] = Option.none := cuts.alone.2 illegal
      rw [lex] at none
      cases none
    exact ⟨lexemes, by simpa [listTexts, known] using written.cuts, .last written.reads⟩
  | _ :: _, _ :: _, _ =>
    refine ⟨lexemes ++ .sign "," :: more, ?_, .next written.reads reads⟩
    simp only [listTexts, String.intercalate_cons_cons] at cuts ⊢
    have comma : Spells Anything ", " [.sign ","] := spells_comma
    simpa using (written.cuts.append comma (closing_begun rfl (by decide))).append cuts
      fun _ => trivial

theorem list_last (here : Shows 0 legal code tree) : ListShows legal [code] [tree] := by
  simpa using list_next here list_none

theorem shows_array (each : ListShows legal codes trees) :
    Shows primaryLevel legal (.array codes) (.array trees) := by
  intro indent
  obtain ⟨lexemes, cuts, reads⟩ := each.2 indent
  exact ⟨_, cuts_enclosed (by decide) (by decide) cuts, .primary (.array reads),
    (Begun.append ⟨'[', [], rfl, by decide, by decide⟩ _).append _, fun _ => nofun⟩

end Shown

/-! The texts of expressions by those of their parts -/

section Texts

variable (indent : Nat)

theorem call_text (callee : Expr) (args : List Expr) :
    (Expr.call callee args).text indent =
      callee.text indent ++ "(" ++ ", ".intercalate (listTexts indent args) ++ ")" := rfl

theorem entry_text (object : Expr) (key : String) :
    (Expr.entry object key).text indent =
      object.text indent ++ "[" ++ Json.quote key ++ "]" := rfl

theorem binary_text (op : Operator) (left right : Expr) :
    (Expr.binary op left right).text indent =
      left.text indent ++ " " ++ op.text ++ " " ++ right.text indent := rfl

theorem cond_text (condition yes no : Expr) :
    (Expr.cond condition yes no).text indent =
      condition.text indent ++ " ? " ++ yes.text indent ++ " : " ++ no.text indent := rfl

theorem function_text (params : List String) (body : List Statement) :
    (Expr.function params body).text indent =
      "function (" ++ ", ".intercalate params ++ ") \x7b\n" ++
        String.join ((bodyLines (indent + 1) body).map (· ++ "\n")) ++ pad indent ++ "\x7d" := rfl

end Texts

/-! Expressions that go on -/

section Longer

variable {legal licit : Prop} {text other name : String} {lexemes more : List Lexeme}
  {object callee left right : Expr} {tree first second : Tree} {args : List Expr}
  {trees : List Tree}

theorem Written.longer (written : Written callLevel text legal lexemes first)
    (goes : GoesOn callLevel first more tree)
    (cuts : Cuts Closing (text ++ other) licit (lexemes ++ more)) :
    Written callLevel (text ++ other) licit (lexemes ++ more) tree := by
  refine ⟨cuts, .longer written.reads goes, written.begins.append other, fun call => ?_⟩
  obtain ⟨lexeme, rest, rfl, -⟩ := written.reads.begins
  exact written.plain call

theorem shows_call (called : Shows callLevel legal callee tree)
    (each : ListShows licit args trees) :
    Shows callLevel (legal ∧ licit) (.call callee args) (.call tree trees) := by
  intro indent
  obtain ⟨lexemes, written⟩ := called indent
  obtain ⟨inner, cuts, reads⟩ := each.2 indent
  have enclosed : Cuts Closing ("(" ++ ", ".intercalate (listTexts indent args) ++ ")") licit _ :=
    cuts_enclosed (by decide) (by decide) cuts
  have whole := written.longer (.call reads) (written.cuts.append enclosed fun rest => by
    rw [String.append_assoc]
    exact closing_begun (String.toList_append ..) (by decide) rest)
  exact ⟨_, by simpa [call_text, String.append_assoc] using whole⟩

theorem entry_written (shown : Shows callLevel legal object tree) (key : String) (indent : Nat) :
    ∃ lexemes,
      Written callLevel ((Expr.entry object key).text indent) legal lexemes
        (.entry tree (.string (Json.quote key))) ∧
      Cuts Anything ((Expr.entry object key).text indent) legal lexemes := by
  obtain ⟨lexemes, written⟩ := shown indent
  have same : (Expr.entry object key).text indent =
      object.text indent ++ ("[" ++ Json.quote key ++ "]") := by
    simp [entry_text, String.append_assoc]
  have enclosed : Spells Anything ("[" ++ Json.quote key ++ "]") _ :=
    cuts_enclosed (by decide) (by decide) (spells_string key)
  have cuts := written.cuts.append enclosed fun rest => by
    rw [String.append_assoc]
    exact closing_begun (String.toList_append ..) (by decide) rest
  rw [same]
  rw [and_true] at cuts
  exact ⟨_, written.longer (.entry (Reads.looser (.primary .string) (by decide))) cuts.before, cuts⟩

theorem shows_entry (shown : Shows callLevel legal object tree) (key : String) :
    Shows callLevel legal (.entry object key) (.entry tree (.string (Json.quote key))) := by
  intro indent
  obtain ⟨lexemes, written, -⟩ := entry_written shown key indent
  exact ⟨lexemes, written⟩

theorem shows_property (shown : Shows callLevel legal object tree) (key : String)
    (word : Word True name) :
    Shows callLevel legal (.property (.entry object key) name)
      (.property (.entry tree (.string (Json.quote key))) name) := by
  intro indent
  obtain ⟨lexemes, written, cuts⟩ := entry_written shown key indent
  obtain ⟨c, tail, chars, visible, plain, digit⟩ := word.begins
  have pointed := spells_point.append word.cuts fun rest =>
    ⟨c, tail ++ rest, by rw [chars]; rfl, fun point => plain (by simp [point]), digit⟩
  have whole := written.longer .property (cuts.append pointed fun _ => trivial)
  rw [← String.append_assoc, and_self, and_true] at whole
  exact ⟨_, whole⟩

theorem shows_binary {op : Operator} (front : Shows op.level legal left first)
    (back : Shows (op.level + 1) licit right second) :
    Shows op.level (legal ∧ licit) (.binary op left right) (.binary op first second) := by
  intro indent
  obtain ⟨lexemes, written⟩ := front indent
  obtain ⟨more, others⟩ := back indent
  have sign : Spells Anything (" " ++ op.text ++ " ") [.sign op.text] :=
    spells_between (spells_operator op)
  have low : ¬callLevel ≤ op.level := by cases op <;> decide
  have cuts := (written.cuts.append sign fun rest => by
    rw [String.append_assoc]
    exact closing_begun (String.toList_append ..) (by decide) rest).append others.cuts
      fun _ => trivial
  have reads : Reads op.level (lexemes ++ .sign op.text :: more) (.binary op first second) :=
    .longer written.reads (.operator others.reads)
  refine ⟨_, ?_, reads, ?_, fun call => absurd call low⟩
  · simpa [binary_text, String.append_assoc] using cuts
  · exact (((written.begins.append _).append _).append _).append _

theorem shows_negate (operand : Shows callLevel legal left tree) :
    Shows unaryLevel legal (.negate left) (.negate tree) := by
  intro indent
  obtain ⟨lexemes, written⟩ := operand indent
  obtain ⟨c, tail, chars, -, unsigned⟩ := written.begins
  have cuts := spells_minus.append written.cuts fun rest =>
    ⟨c, tail ++ rest, by rw [chars]; rfl, unsigned (by decide)⟩
  rw [true_and] at cuts
  refine ⟨_, cuts, .negate (.tighter written.reads), ?_, fun call => absurd call (by decide)⟩
  exact Begun.append ⟨'-', [], rfl, by decide, fun call => absurd call (by decide)⟩ _

theorem shows_cond {lawful : Prop} {condition yes no : Expr} {third : Tree}
    (test : Shows 1 legal condition first) (left : Shows 0 licit yes second)
    (right : Shows 0 lawful no third) :
    Shows 0 (legal ∧ licit ∧ lawful) (.cond condition yes no) (.cond first second third) := by
  intro indent
  obtain ⟨one, front⟩ := test indent
  obtain ⟨two, middle⟩ := left indent
  obtain ⟨three, back⟩ := right indent
  have question : Spells Anything " ? " [.sign "?"] := by
    have sign : Spells Parted "?" [.sign "?"] := spells_parted_sign (by decide)
    simpa using spells_between sign
  have colon : Spells Anything " : " [.sign ":"] := by
    have sign : Spells Parted ":" [.sign ":"] := spells_bracket (by decide)
    simpa using spells_between sign
  have cuts := (((front.cuts.append question (closing_begun rfl (by decide))).append
    middle.cuts fun _ => trivial).append colon (closing_begun rfl (by decide))).append
      back.cuts fun _ => trivial
  refine ⟨_, ?_, .cond front.reads middle.reads back.reads, ?_, fun call => absurd call (by decide)⟩
  · simpa [cond_text, String.append_assoc, and_assoc] using cuts
  · have begun : Begun (Front 0) (condition.text indent) :=
      front.begins.imp fun c here => ⟨here.1, fun call => absurd call (by decide)⟩
    exact (((begun.append _).append _).append _).append _

end Longer

/-! Functions -/

theorem names_read (named : String → Prop) {names : List String}
    (words : ∀ name ∈ names, Word (named name) name) :
    ∃ lexemes, Cuts Closing (", ".intercalate names) (∀ name ∈ names, named name) lexemes ∧
      ReadsNames lexemes names := by
  induction names with
  | nil => exact ⟨[], by simpa using spells_nothing, .none⟩
  | cons name rest ih =>
    rw [List.forall_mem_cons] at words
    have front := words.1.cuts
    cases rest with
    | nil => exact ⟨[.word name], by simpa using front, .last words.1.free⟩
    | cons other rest =>
      obtain ⟨lexemes, later, reads⟩ := ih words.2
      have comma : Spells Anything ", " [.sign ","] := spells_comma
      refine ⟨.word name :: .sign "," :: lexemes, ?_, .next words.1.free reads⟩
      have whole := (front.append comma (closing_begun rfl (by decide))).append later
        fun _ => trivial
      rw [and_true] at whole
      rw [String.intercalate_cons_cons]
      simp only [List.forall_mem_cons] at whole ⊢
      exact whole

theorem shows_function {legal : Prop} (named : String → Prop) {params : List String}
    {body : List Statement} {trees : List TreeStatement}
    (words : ∀ param ∈ params, Word (named param) param) (shown : BodyShows legal body trees) :
    Shows 0 ((∀ param ∈ params, named param) ∧ legal) (.function params body)
      (.function params trees) := by
  have word : "function".toList = ['f', 'u', 'n', 'c', 't', 'i', 'o', 'n'] := by decide
  have function : Spells Closing "function" [.word "function"] :=
    spells_word word (by decide +kernel) (by decide +kernel) (by decide)
  have gap : Spells Anything " " [] := spells_gap
  have opening : Spells Anything "function (" [.word "function", .sign "("] := by
    have opens : Spells Anything "(" [.sign "("] := spells_bracket (by decide)
    simpa using (function.append gap (closing_begun rfl (by decide))).append opens
      fun _ => trivial
  have between : Spells Anything ") \x7b\n" [.sign ")", .sign "\x7b"] := by
    have closes : Spells Anything ")" [.sign ")"] := spells_bracket (by decide)
    have opens : Spells Anything "\x7b" [.sign "\x7b"] := spells_bracket (by decide)
    have feed : Spells Anything "\n" [] := spells_blank (by decide)
    simpa using ((closes.append gap fun _ => trivial).append opens fun _ => trivial).append feed
      fun _ => trivial
  intro indent
  obtain ⟨front, cuts, names⟩ := names_read named words
  obtain ⟨inner, runs, reads⟩ := shown (indent + 1)
  have closing : Spells Closing "\x7d" [.sign "\x7d"] := spells_bracket (by decide)
  have pad : Spells Anything (pad indent) [] := spells_pad indent
  have whole := ((((opening.append cuts fun _ => trivial).append between
    (closing_begun rfl (by decide))).append runs fun _ => trivial).append pad
      fun _ => trivial).append closing fun _ => trivial
  simp only [true_and, and_true] at whole
  refine ⟨_, ?_, Reads.looser (.primary (.function names reads)) (Nat.zero_le _), ?_,
    fun call => absurd call (by decide)⟩
  · simpa only [function_text, String.append_assoc, List.append_assoc, List.append_nil,
      List.cons_append, List.nil_append] using whole
  · have begun : Begun (Front 0) "function (" :=
      ⟨'f', _, rfl, by decide, fun call => absurd call (by decide)⟩
    exact ((((begun.append _).append _).append _).append _).append _

theorem body_none : BodyShows True [] [] := fun _ => ⟨[], spells_nothing, .none⟩

section Statements

variable {legal licit lawful : Prop} {value : Expr} {tree : Tree} {body : List Statement}
  {trees : List TreeStatement}

theorem cuts_line {next : List Char → Prop} {front value others : String}
    {lexemes inner more : List Lexeme} (begins : Cuts next front legal lexemes)
    (cuts : Cuts Closing value licit inner) (meets : ∀ rest, next (value.toList ++ rest))
    (later : Cuts Anything others lawful more) :
    Cuts Anything (front ++ value ++ ";" ++ "\n" ++ others) (legal ∧ licit ∧ lawful)
      (lexemes ++ (inner ++ .sign ";" :: more)) := by
  have ends : Spells Anything ";" [.sign ";"] := spells_bracket (by decide)
  have feed : Spells Anything "\n" [] := spells_blank (by decide)
  simpa [and_assoc] using ((((begins.append cuts meets).append ends
    (closing_begun rfl (by decide))).append feed fun _ => trivial).append later fun _ => trivial)

theorem body_var {name : String} (word : Word legal name) (shown : Shows 0 licit value tree)
    (later : BodyShows lawful body trees) :
    BodyShows (legal ∧ licit ∧ lawful) (.var name value :: body) (.var name tree :: trees) := by
  have var : "var".toList = ['v', 'a', 'r'] := by decide
  have opening : Spells Anything "var " [.word "var"] := by
    have alone : Spells Closing "var" [.word "var"] :=
      spells_word var (by decide +kernel) (by decide +kernel) (by decide)
    have gap : Spells Anything " " [] := spells_gap
    simpa using alone.append gap (closing_begun rfl (by decide))
  have sign : Spells Anything " = " [.sign "="] := by
    have equal : Spells Parted "=" [.sign "="] := spells_parted_sign (by decide)
    simpa using spells_between equal
  intro indent
  obtain ⟨inner, written⟩ := shown indent
  obtain ⟨more, others, reads⟩ := later indent
  have pad : Spells Anything (pad indent) [] := spells_pad indent
  have front := ((pad.append opening fun _ => trivial).append word.cuts
    fun _ => trivial).append sign (closing_begun rfl (by decide))
  have cuts := cuts_line front written.cuts (fun _ => trivial) others
  refine ⟨_, ?_, .var word.free written.reads reads⟩
  simpa [bodyLines, Statement.lines, String.append_assoc] using cuts

theorem body_give (shown : Shows 0 legal value tree) (later : BodyShows licit body trees) :
    BodyShows (legal ∧ licit) (.give value :: body) (.give tree :: trees) := by
  intro indent
  obtain ⟨inner, written⟩ := shown indent
  obtain ⟨more, others, reads⟩ := later indent
  obtain ⟨c, tail, chars, visible, -⟩ := written.begins
  have pad : Spells Anything (pad indent) [] := spells_pad indent
  have gap : Spells Anything " " [] := spells_gap
  have cuts := cuts_line (pad.append spells_return fun _ => trivial)
    (gap.append written.cuts fun _ => trivial)
    (fun rest => ⟨c, tail ++ rest, by rw [String.toList_append, chars]; rfl, visible⟩) others
  have joined : Js.pad indent ++ "return" ++ (" " ++ value.text indent) =
      Js.pad indent ++ "return " ++ value.text indent := by
    rw [← String.append_assoc, @String.append_assoc (Js.pad indent)]
    rfl
  rw [joined] at cuts
  refine ⟨_, ?_, .give written.reads reads⟩
  simpa [bodyLines, Statement.lines, String.append_assoc] using cuts

theorem body_run (shown : Shows callLevel legal value tree) (later : BodyShows licit body trees) :
    BodyShows (legal ∧ licit) (.run value :: body) (.run tree :: trees) := by
  intro indent
  obtain ⟨inner, written⟩ := shown indent
  obtain ⟨more, others, reads⟩ := later indent
  have pad : Spells Anything (pad indent) [] := spells_pad indent
  have cuts := cuts_line pad written.cuts (fun _ => trivial) others
  refine ⟨_, ?_, .run (written.plain (Nat.le_refl _)) (written.reads.looser (Nat.zero_le _)) reads⟩
  simpa [bodyLines, Statement.lines, String.append_assoc] using cuts

end Statements

end PureJs.Js
