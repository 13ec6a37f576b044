import PureJs.Externs
import PureJs.Proofs.Program.Formed
import PureJs.Proofs.Program.JoinedTexts
import PureJs.Proofs.Program.WellFormed
import PureJs.Proofs.Syntax.Printable

/-!
The interface of a module is a text of lines: a header, the imports that are written in the source,
and a signature for everything that is declared. Whatever the types are, no line goes on in the next
one, and so the modules that are read from the interfaces of a program are those described.
-/

namespace PureJs.Module

open Piece

inductive Line
  | header (name : String)
  | import (name : String)
  | signature (name type : String)

namespace Line

def text : Line → String
  | header name => "module " ++ name ++ " where"
  | .import name => "import " ++ name
  | signature name type => name ++ " :: " ++ type

def isHeader : Line → Bool
  | header _ => true
  | _ => false

def import? : Line → Option String
  | .import name => some name
  | _ => none

def signature? : Line → Option String
  | signature name _ => some name
  | _ => none

inductive Tagged : Line → List (TokenKind × String) → Prop
  | header {name : String} : Tagged (.header name)
      [(.keyword .moduleWord, "module"), (.proper, name), (.keyword .whereWord, "where")]
  | import {name : String} :
    Tagged (.import name) [(.keyword .importWord, "import"), (.proper, name)]
  | signature {name type : String} {tags : List (TokenKind × String)} (some : tags ≠ []) :
    Tagged (.signature name type) ((.identifier, name) :: (.mark .doubleColon, "::") :: tags)

theorem Tagged.begins {line : Line} {tags : List (TokenKind × String)} (tagged : line.Tagged tags)
    (entry : line.isHeader = false) : ∀ tag ∈ tags.head?, tag.1 ≠ .keyword .moduleWord := by
  intro tag next
  cases tagged with
  | header => cases entry
  | «import» | signature =>
    cases next
    nofun

inductive Gives : Line → Item → Prop
  | import {name : String} {place : Position} : Gives (.import name) (.import ⟨name, place, false⟩)
  | signature {name type kept : String} {place : Position} :
    Gives (.signature name type) (.signature ⟨place, name, kept⟩)

end Line

def interface (m : Module) : List Line :=
  (m.imports.filter (!·.implicit)).map (fun entry => .import entry.module) ++
    m.declaredNames.map fun name => .signature name ((m.typeOf? name).getD unknownType)

theorem externs_text (m : Module) :
    m.externs.toList =
      (.header m.name :: m.interface).flatMap fun line => line.text.toList ++ ['\n'] := by
  have lines : m.externsLines = (.header m.name :: m.interface).map Line.text := by
    simp [externsLines, interface, Line.text, Function.comp_def]
  rw [externs, lines, String.toList_join]
  simp [List.flatMap_def, Function.comp_def]

/-! Every line is written as what it says -/

theorem header_written {name : String} (alone : Alone .proper name.toList) :
    ∃ tags, Written tags (Line.header name).text.toList ∧ (Line.header name).Tagged tags := by
  have last : Alone (.keyword .whereWord) "where".toList := ⟨'w', "here".toList, rfl, rfl⟩
  have word : Alone (.keyword .moduleWord) "module".toList := ⟨'m', "odule".toList, rfl, rfl⟩
  have named := (last.written (by simp)).behind alone (by simp)
  have whole := named.behind word (by simp)
  have text : (Line.header name).text.toList =
      "module".toList ++ ' ' :: (name.toList ++ ' ' :: "where".toList) := by
    simp [Line.text]
  rw [text]
  exact ⟨_, whole, .header⟩

theorem import_written {name : String} (alone : Alone .proper name.toList) :
    ∃ tags, Written tags (Line.import name).text.toList ∧ (Line.import name).Tagged tags := by
  have word : Alone (.keyword .importWord) "import".toList := ⟨'i', "mport".toList, rfl, rfl⟩
  have whole := (alone.written (by simp)).behind word (by simp)
  have text : (Line.import name).text.toList = "import".toList ++ ' ' :: name.toList := by
    simp [Line.text]
  rw [text]
  exact ⟨_, whole, .import⟩

theorem signature_written {name type : String} (alone : Alone .identifier name.toList)
    (typed : ∃ tags, Written tags type.toList) :
    ∃ tags, Written tags (Line.signature name type).text.toList ∧
      (Line.signature name type).Tagged tags := by
  obtain ⟨tags, written⟩ := typed
  have colons : Alone (.mark .doubleColon) "::".toList := ⟨':', [':'], rfl, rfl⟩
  have whole := (written.behind colons (by simp)).behind alone (by simp)
  have text : (Line.signature name type).text.toList =
      name.toList ++ ' ' :: ("::".toList ++ ' ' :: type.toList) := by
    simp [Line.text]
  rw [text]
  exact ⟨_, whole, .signature written.some⟩

theorem unknown_written : ∃ tags, Written tags unknownType.toList := by
  have alone : Alone .identifier "_".toList := ⟨'_', [], rfl, rfl⟩
  exact ⟨_, alone.written (by simp)⟩

theorem Printable.typed {m : Module} (printable : m.Printable) (name : String) :
    ∃ tags, Written tags ((m.typeOf? name).getD unknownType).toList := by
  cases found : m.typeOf? name with
  | none => exact unknown_written
  | some type =>
    rw [typeOf?, Option.or_eq_some_iff] at found
    rcases found with signed | ⟨_, given⟩
    · obtain ⟨s, first, rfl⟩ := Option.map_eq_some_iff.mp signed
      exact printable.signed s (List.mem_of_find?_eq_some first)
    · obtain ⟨d, member, here⟩ := List.exists_of_findSome?_eq_some given
      cases d with
      | value => cases here
      | foreign f =>
        simp only [Declaration.foreign?, Option.bind_some] at here
        split at here
        · cases here
          exact printable.given f member
        · cases here

theorem Printable.written {m : Module} (printable : m.Printable) :
    ∀ line ∈ Line.header m.name :: m.interface,
      ∃ tags, Written tags line.text.toList ∧ line.Tagged tags := by
  intro line member
  rcases List.mem_cons.mp member with rfl | inside
  · exact header_written printable.name
  · rcases List.mem_append.mp inside with imported | declared
    · obtain ⟨entry, listed, rfl⟩ := List.mem_map.mp imported
      obtain ⟨there, explicit⟩ := List.mem_filter.mp listed
      exact import_written (printable.imports entry there (by simpa using explicit))
    · obtain ⟨name, listed, rfl⟩ := List.mem_map.mp declared
      obtain ⟨d, there, rfl⟩ := List.mem_map.mp listed
      exact signature_written (printable.declared d there) (printable.typed d.name)

/-! The lines are read one by one -/

section Rows

variable (text : List Char) (finish : Token)

def Fresh (more : List Token) : Prop := ∀ t ∈ more.head?, t.opensLine = true ∧ t.column = 1

theorem fresh_boundary {more : List Token} (fresh : Fresh more) :
    Cursor.expectBoundary ⟨more, finish, false, [1]⟩ = .ok () := by
  unfold Cursor.expectBoundary
  rw [if_pos]
  cases more with
  | nil => rfl
  | cons t rest =>
    have here := fresh t rfl
    simp [Cursor.atBoundary, Cursor.breaksLayout, Cursor.peek, here]

theorem type_taken {type more : List Token} (some : type ≠ [])
    (inside : ∀ t ∈ type, t.opensLine = false) (fresh : Fresh more) :
    parseType text ⟨type ++ more, finish, false, [1]⟩ =
      .ok (typeText text type, ⟨more, finish, false, [1]⟩) := by
  have goes : ∀ t ∈ type,
      (!Cursor.breaksLayout ⟨type ++ more, finish, false, [1]⟩ t) = true := by
    intro t member
    simp [Cursor.breaksLayout, inside t member]
  have stops : ∀ t ∈ more.head?,
      ¬(!Cursor.breaksLayout ⟨type ++ more, finish, false, [1]⟩ t) = true := by
    intro t next
    simp [Cursor.breaksLayout, fresh t next]
  have behind : more.takeWhile
        (!Cursor.breaksLayout ⟨type ++ more, finish, false, [1]⟩ ·) = [] ∧
      more.dropWhile (!Cursor.breaksLayout ⟨type ++ more, finish, false, [1]⟩ ·) = more := by
    cases more with
    | nil => exact ⟨rfl, rfl⟩
    | cons t rest =>
      exact ⟨List.takeWhile_cons_of_neg (stops t rfl), List.dropWhile_cons_of_neg (stops t rfl)⟩
  have before : Cursor.atBoundary ⟨type ++ more, finish, false, [1]⟩ = false := by
    obtain ⟨t, rest, rfl⟩ := List.exists_cons_of_ne_nil some
    simp [Cursor.atBoundary, Cursor.atEnd, Cursor.breaksLayout, Cursor.peek,
      inside t List.mem_cons_self]
  unfold parseType
  rw [before]
  simp only [Bool.false_eq_true, if_false, Cursor.untilBoundary]
  rw [List.takeWhile_append_of_pos goes, List.dropWhile_append_of_pos goes, behind.1, behind.2,
    List.append_nil]

def Line.Row (line : Line) (row : List Token) : Prop :=
  ∃ tags, line.Tagged tags ∧ Token.Row tags row

theorem line_read {line : Line} {row more : List Token} (is : line.Row row) (fresh : Fresh more)
    (entry : line.isHeader = false) :
    ∃ item, parseItem text ⟨row ++ more, finish, false, [1]⟩ =
      .ok (item, ⟨more, finish, false, [1]⟩) ∧ line.Gives item := by
  obtain ⟨tags, tagged, is⟩ := is
  cases is with
  | @intro first rest opens begins others same =>
    cases tagged with
    | header => cases entry
    | @«import» name =>
      simp only [List.map_cons, List.cons.injEq, List.map_eq_singleton_iff, Token.tag,
        Prod.mk.injEq] at same
      obtain ⟨⟨word, _⟩, title, rfl, kind, rfl⟩ := same
      refine ⟨.import ⟨title.value, first.place, false⟩, ?_, .import⟩
      simp [parseItem, Cursor.kind, Cursor.peek, word, parseImport, Cursor.expect,
        Cursor.advance, kind]
    | @signature name type tags some =>
      simp only [List.map_cons, List.cons.injEq, List.map_eq_cons_iff, Token.tag,
        Prod.mk.injEq] at same
      obtain ⟨⟨word, rfl⟩, colons, type, rfl, ⟨kind, _⟩, rfl⟩ := same
      have typed := type_taken text finish (by simpa using some)
        (fun t member => others t (List.mem_cons_of_mem colons member)) fresh
      refine ⟨.signature ⟨first.place, first.value, typeText text type⟩, ?_, .signature⟩
      simp [parseItem, Cursor.kind, Cursor.peek, word, parseSignature, Cursor.secondKind,
        Cursor.advance, kind, typed]

def Entry (row : List Token) : Prop :=
  ∃ t rest, row = t :: rest ∧ t.opensLine = true ∧ t.column = 1 ∧ t.kind ≠ .keyword .moduleWord

theorem Entry.starts {row : List Token} (entry : Entry row) (more : List Token) :
    Cursor.atModuleHeader ⟨row ++ more, finish, false, [1]⟩ = false ∧
      Cursor.atEnd ⟨row ++ more, finish, false, [1]⟩ = false ∧
      (Cursor.peek ⟨row ++ more, finish, false, [1]⟩).column = 1 := by
  obtain ⟨t, rest, rfl, opens, begins, kind⟩ := entry
  exact ⟨by simp [Cursor.atModuleHeader, Cursor.kind, Cursor.peek, kind], rfl, begins⟩

theorem entries_fresh {rows : List (List Token)} (entries : ∀ row ∈ rows, Entry row) :
    Fresh rows.flatten := by
  cases rows with
  | nil => nofun
  | cons row rows =>
    obtain ⟨t, rest, rfl, opens, begins, _⟩ := entries row List.mem_cons_self
    rintro t ⟨⟩
    exact ⟨opens, begins⟩

theorem rows_read {α : Type} {lines : List α} {rows : List (List Token)}
    {is : α → List Token → Prop} {gives : α → Item → Prop} (are : List.Forall₂ is lines rows)
    (entries : ∀ row ∈ rows, Entry row)
    (each : ∀ line row more, is line row → Fresh more → ∃ item,
      parseItem text ⟨row ++ more, finish, false, [1]⟩ =
        .ok (item, ⟨more, finish, false, [1]⟩) ∧ gives line item)
    {fuel : Nat} (enough : rows.length < fuel) :
    ∃ items, parseItems text fuel ⟨rows.flatten, finish, false, [1]⟩ =
      .ok (items, ⟨[], finish, false, [1]⟩) ∧ List.Forall₂ gives lines items := by
  induction are generalizing fuel with
  | nil =>
    obtain ⟨fuel, rfl⟩ := Nat.exists_eq_succ_of_ne_zero (Nat.ne_zero_of_lt enough)
    exact ⟨[], rfl, .nil⟩
  | @cons line row lines rows here later ih =>
    obtain ⟨fuel, rfl⟩ := Nat.exists_eq_succ_of_ne_zero (Nat.ne_zero_of_lt enough)
    rw [List.forall_mem_cons] at entries
    obtain ⟨items, read, given⟩ := ih entries.2 (Nat.lt_of_succ_lt_succ enough)
    have fresh := entries_fresh entries.2
    obtain ⟨item, first, gives⟩ := each line row _ here fresh
    obtain ⟨inside, some, column⟩ := entries.1.starts finish rows.flatten
    refine ⟨item :: items, ?_, .cons gives given⟩
    rw [List.flatten_cons, parseItems, inside, some]
    simp [column, first, fresh_boundary finish fresh, read, bind, Except.bind, pure, Except.pure]

theorem line_entry {line : Line} {row : List Token} (is : line.Row row)
    (entry : line.isHeader = false) : Entry row := by
  obtain ⟨tags, tagged, is⟩ := is
  cases is with
  | @intro first rest opens begins others same =>
    exact ⟨first, rest, rfl, opens, begins, tagged.begins entry first.tag (by rw [← same]; rfl)⟩

theorem line_entries {lines : List Line} {rows : List (List Token)}
    (are : List.Forall₂ Line.Row lines rows) (entries : ∀ line ∈ lines, line.isHeader = false) :
    ∀ row ∈ rows, Entry row := by
  induction are with
  | nil => nofun
  | cons here later ih =>
    rw [List.forall_mem_cons] at entries
    exact List.forall_mem_cons.mpr ⟨line_entry here entries.1, ih entries.2⟩

theorem lines_read {lines : List Line} {rows : List (List Token)}
    (are : List.Forall₂ Line.Row lines rows) (entries : ∀ line ∈ lines, line.isHeader = false)
    {fuel : Nat} (enough : rows.length < fuel) :
    ∃ items, parseItems text fuel ⟨rows.flatten, finish, false, [1]⟩ =
      .ok (items, ⟨[], finish, false, [1]⟩) ∧ List.Forall₂ Line.Gives lines items := by
  have both : List.Forall₂ (fun line row => line.Row row ∧ line.isHeader = false) lines rows := by
    clear enough
    induction are with
    | nil => exact .nil
    | cons here later ih =>
      rw [List.forall_mem_cons] at entries
      exact .cons ⟨here, entries.1⟩ (ih entries.2)
  exact rows_read text finish both (line_entries are entries)
    (fun line row more is fresh => line_read text finish is.1 fresh is.2) enough

end Rows

/-- What is read from the interface of a module. -/
structure Describes (m back : Module) : Prop where
  name : back.name = m.name
  imports : back.importedModules = (m.imports.filter (!·.implicit)).map Import.module
  explicit : ∀ entry ∈ back.imports, entry.implicit = false
  declarations : back.declarations = []
  signatures : back.signatures.map Signature.name = m.declaredNames

theorem lines_give {lines : List Line} {items : List Item}
    (given : List.Forall₂ Line.Gives lines items) :
    (items.filterMap Item.import?).map Import.module = lines.filterMap Line.import? ∧
      (∀ entry ∈ items.filterMap Item.import?, entry.implicit = false) ∧
      items.filterMap Item.declaration? = [] ∧
      (items.filterMap Item.signature?).map Signature.name = lines.filterMap Line.signature? := by
  induction given with
  | nil => exact ⟨rfl, nofun, rfl, rfl⟩
  | cons here later ih =>
    obtain ⟨imports, explicit, none, signatures⟩ := ih
    cases here with
    | «import» =>
      exact ⟨congrArg (List.cons _) imports, List.forall_mem_cons.mpr ⟨rfl, explicit⟩, none,
        signatures⟩
    | signature => exact ⟨imports, explicit, none, congrArg (List.cons _) signatures⟩

theorem interface_entries (m : Module) : ∀ line ∈ m.interface, line.isHeader = false := by
  intro line member
  rcases List.mem_append.mp member with imported | declared
  · obtain ⟨entry, _, rfl⟩ := List.mem_map.mp imported
    rfl
  · obtain ⟨name, _, rfl⟩ := List.mem_map.mp declared
    rfl

theorem rows_length {rows : List (List Token)} (entries : ∀ row ∈ rows, Entry row) :
    rows.length ≤ rows.flatten.length := by
  induction rows with
  | nil => exact Nat.le_refl 0
  | cons row rows ih =>
    rw [List.forall_mem_cons] at entries
    have rest := ih entries.2
    obtain ⟨t, tail, rfl, _⟩ := entries.1
    simp only [List.flatten_cons, List.length_append, List.length_cons]
    omega

theorem header_read (file : String) (text : List Char) (finish : Token) {name : String}
    {row more : List Token} (is : (Line.header name).Row row) (fresh : Fresh more)
    {items : List Item}
    (read : parseItems text (more.length + 1) ⟨more, finish, false, [1]⟩ =
      .ok (items, ⟨[], finish, false, [1]⟩)) :
    ∃ place, parseAll file text ((row ++ more).length + 1) ⟨row ++ more, finish, false, [1]⟩ =
      .ok [ofItems name file place items] := by
  obtain ⟨tags, ⟨⟩, is⟩ := is
  cases is with
  | @intro word rest opens begins others same =>
    simp only [List.map_cons, List.cons.injEq, List.map_eq_cons_iff, List.map_eq_nil_iff,
      Token.tag, Prod.mk.injEq] at same
    obtain ⟨⟨kind, _⟩, title, _, rfl, ⟨proper, rfl⟩, last, _, rfl, ⟨ends, _⟩, rfl⟩ := same
    refine ⟨word.place, ?_⟩
    have one : parseOne file text ⟨word :: title :: last :: more, finish, false, [1]⟩ =
        .ok (ofItems title.value file word.place items, ⟨[], finish, false, [1]⟩) := by
      simp [parseOne, Cursor.atModuleHeader, Cursor.kind, Cursor.peek, kind, opens, begins,
        Cursor.expect, Cursor.advance, proper, ends, fresh_boundary finish fresh, read, bind,
        Except.bind, pure, Except.pure]
    have nothing : parseAll file text (more.length + 3) ⟨[], finish, false, [1]⟩ = .ok [] := rfl
    show parseAll file text (more.length + 3 + 1) _ = _
    rw [parseAll]
    simp [Cursor.atEnd, one, nothing, bind, Except.bind, pure, Except.pure]

theorem Printable.read {m : Module} (printable : m.Printable) (file : String) :
    ∃ back, ofText file m.externs.toList = .ok [back] ∧ m.Describes back := by
  obtain ⟨rows, finish, scanned, are⟩ := Token.scan_rows printable.written
  rw [← externs_text] at scanned
  cases are with
  | @cons _ first _ rows header later =>
    have entries := line_entries later m.interface_entries
    obtain ⟨items, read, given⟩ := lines_read m.externs.toList finish later m.interface_entries
      (Nat.lt_succ_of_le (rows_length entries))
    obtain ⟨place, whole⟩ :=
      header_read file m.externs.toList finish header (entries_fresh entries) read
    rw [List.flatten_cons] at scanned
    rw [ofText_scanned scanned, whole]
    obtain ⟨imports, explicit, none, signatures⟩ := lines_give given
    refine ⟨_, rfl, rfl, imports.trans ?_, explicit, none, signatures.trans ?_⟩
    · simp [interface, List.filterMap_map, Function.comp_def, Line.import?]
    · simp [interface, List.filterMap_map, Function.comp_def, Line.signature?]

theorem Describes.relocate {m back : Module} (describes : m.Describes back)
    (f : Position → Position) : m.Describes (back.relocate f) := by
  refine ⟨describes.name, ?_, ?_, ?_, ?_⟩
  · rw [← describes.imports]
    simp only [importedModules, Module.relocate, List.map_map]
    rfl
  · intro entry member
    obtain ⟨source, inside, rfl⟩ := List.mem_map.mp member
    exact describes.explicit source inside
  · simp [Module.relocate, describes.declarations]
  · rw [← describes.signatures]
    simp only [Module.relocate, List.map_map]
    rfl

theorem interfaces_read {modules : List Module} (printable : ∀ m ∈ modules, m.Printable)
    (file : String) :
    ∃ back, ofText file (['\n'].intercalate (modules.map (·.externs.toList))) = .ok back ∧
      List.Forall₂ Describes modules back := by
  induction modules with
  | nil => exact ⟨[], ofText_nil file, .nil⟩
  | cons m rest ih =>
    rw [List.forall_mem_cons] at printable
    obtain ⟨first, read, describes⟩ := printable.1.read file
    obtain ⟨others, further, all⟩ := ih printable.2
    cases rest with
    | nil =>
      cases all
      exact ⟨[first], by simpa [List.intercalate_singleton] using read, .cons describes .nil⟩
    | cons next rest =>
      have joined := ofText_join read further
      rw [← List.singleton_append, ← List.append_assoc] at joined
      rw [List.map_cons, List.map_cons, List.intercalate_cons_cons]
      exact ⟨_, joined, .cons describes
        (List.forall₂_map_right_iff.mpr (all.imp fun _ _ same => same.relocate _))⟩

theorem with_prelude_printable {options : Options} {program : List Module} {m : Module}
    (printable : m.Printable) : (withPrelude options program m).Printable := by
  unfold withPrelude
  split
  · refine ⟨printable.name, ?_, printable.declared, printable.signed, printable.given⟩
    rw [List.forall_mem_cons]
    exact ⟨nofun, printable.imports⟩
  · exact printable

theorem resolve_printable {m : Module} (printable : m.Printable) (modules : List Module) :
    (resolve modules m).Printable := by
  refine ⟨printable.name, printable.imports, ?_, printable.signed, ?_⟩
  · intro d member
    obtain ⟨source, inside, same⟩ := List.mem_map.mp member
    have alone := printable.declared source inside
    cases source <;> subst same <;> exact alone
  · intro f member
    obtain ⟨source, inside, same⟩ := List.mem_map.mp member
    cases source with
    | value => cases same
    | foreign =>
      cases same
      exact printable.given f inside

theorem check_printable {options : Options} {modules ordered : List Module}
    (printable : ∀ m ∈ modules, m.Printable) (checked : check options modules = .ok ordered) :
    ∀ m ∈ ordered, m.Printable := by
  obtain ⟨sorted, accepted, rfl⟩ := check_accepted checked
  intro m member
  obtain ⟨source, inside, rfl⟩ := List.mem_map.mp member
  have listed := accepted.order.members source inside
  rw [add_prelude_eq] at listed
  obtain ⟨origin, there, rfl⟩ := List.mem_map.mp listed
  exact resolve_printable (with_prelude_printable (printable origin there)) _

/-- The interfaces of the modules of an accepted program can be read. They are modules of the same
names in the same order, that import what is imported in writing, declare nothing, and give a type
to everything that is declared. -/
theorem interfaces_readable {options : Options} {units : List SourceUnit}
    {modules ordered : List Module} (parsed : parseUnits units = .ok modules)
    (checked : check options modules = .ok ordered) (file : String) :
    ∃ back, ofText file (externsOf ordered).toList = .ok back ∧
      List.Forall₂ Describes ordered back := by
  have printable := check_printable (parseUnits_each (fun _ _ _ => ofText_printable) parsed) checked
  rw [externsOf, String.toList_intercalate, List.map_map]
  exact interfaces_read printable file

def annotatedUnits : List SourceUnit :=
  [⟨none, "module Prelude where\nid x = x\nmodule B where\n" ++
    "f :: a \x7b- b\n -\x7d \"c\\\n\t d\"  -- e\n  :: g\nf = 1\n"⟩,
  ⟨some "a", "module A where\nimport B\nforeign import h \"1\" :: if\n  = -- \x7b-\n  do\nk x = f"⟩]

theorem annotated_units_readable :
    ∃ modules ordered back, parseUnits annotatedUnits = .ok modules ∧
      check Options.default modules = .ok ordered ∧
      (∃ m ∈ optimized Options.default ordered,
        m.typeOf? "f" = some "a \x7b- b -\x7d \"c\\ d\" -- e :: g") ∧
      ofText unnamedFile (externsOf ordered).toList = .ok back ∧
      List.Forall₂ Describes ordered back := by
  obtain ⟨modules, ordered, parsed, checked, m, member, d, _, typed⟩ :=
    has_value (show hasValue Options.default annotatedUnits (fun m _ =>
      m.typeOf? "f" = some "a \x7b- b -\x7d \"c\\ d\" -- e :: g") = true by decide +kernel)
  obtain ⟨back, read, describes⟩ := interfaces_readable parsed checked unnamedFile
  exact ⟨modules, ordered, back, parsed, checked, ⟨m, member, of_decide_eq_true typed⟩, read,
    describes⟩

end PureJs.Module
