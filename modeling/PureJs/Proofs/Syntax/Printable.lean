import PureJs.Proofs.Syntax.LaidOutModules
import PureJs.Proofs.Syntax.TypeText

/-!
The names and types in the interface of a module are lines that begin with a lexeme.
-/

namespace PureJs

namespace Module

theorem token_alone {text : List Char} {tokens : List Token} {t : Token}
    (scanned : Token.scan text = .ok tokens) (member : t ∈ tokens) {kind : TokenKind}
    (is : t.kind = kind) (inside : kind ≠ .endOfInput) (plain : kind ≠ .string) :
    Piece.Alone kind t.value.toList := by
  subst is
  have made := Token.scan_lexemes scanned (fun _ _ _ _ => Piece.first_alone) t member
  rcases made with ⟨finish, stop, rfl⟩ | ⟨part, alone, value⟩
  · exact absurd rfl inside
  · rw [value, Piece.value_plain plain, String.toList_ofList]
    exact alone

/-- The names and types in the interface of a module can be written on lines of their own. -/
structure Printable (m : Module) : Prop where
  name : Piece.Alone .proper m.name.toList
  imports : ∀ entry ∈ m.imports, entry.implicit = false → Piece.Alone .proper entry.module.toList
  declared : ∀ d ∈ m.declarations, Piece.Alone .identifier d.name.toList
  signed : ∀ s ∈ m.signatures, ∃ tags, Piece.Written tags s.type.toList
  given : ∀ f, .foreign f ∈ m.declarations → ∃ tags, Piece.Written tags f.type.toList

/-- What of a part of a module belongs to its interface can be written on a line of its own. -/
structure Item.Printable (item : Item) : Prop where
  imports : ∀ entry ∈ item.import?, Piece.Alone .proper entry.module.toList
  declared : ∀ d ∈ item.declaration?, Piece.Alone .identifier d.name.toList
  signed : ∀ s ∈ item.signature?, ∃ tags, Piece.Written tags s.type.toList
  given : ∀ f, item.declaration? = some (.foreign f) → ∃ tags, Piece.Written tags f.type.toList

theorem item_printable {text : List Char} {before part after : List Token} {item : Item}
    (scanned : Token.scan text = .ok (before ++ (part ++ after))) (goes : after ≠ [])
    (laid : item.LaidOut text part) : item.Printable := by
  have alone : ∀ t ∈ part, ∀ {kind : TokenKind}, t.kind = kind → kind ≠ .endOfInput →
      kind ≠ .string → Piece.Alone kind t.value.toList := by
    intro t member kind
    exact token_alone scanned (by simp [member])
  have typed : ∀ {front type}, part = front ++ type → type ≠ [] →
      ∃ tags, Piece.Written tags (typeText text type).toList := by
    rintro front type rfl some
    rw [List.append_assoc, ← List.append_assoc] at scanned
    exact type_written scanned some goes
  cases laid with
  | @«import» word name opens named =>
    refine ⟨?_, nofun, nofun, nofun⟩
    rintro _ ⟨⟩
    exact alone name (by simp) named (by simp) (by simp)
  | @foreign word second name javascript colons type opens goes named given is some =>
    refine ⟨nofun, ?_, nofun, ?_⟩
    · rintro _ ⟨⟩
      exact alone name (by simp) named (by simp) (by simp)
    · rintro _ ⟨⟩
      exact @typed [word, second, name, javascript, colons] type rfl some
  | @signature name colons type named is some =>
    refine ⟨nofun, nofun, ?_, nofun⟩
    rintro _ ⟨⟩
    exact @typed [name, colons] type rfl some
  | @value name assign params inner body named each is laid =>
    refine ⟨nofun, ?_, nofun, nofun⟩
    rintro _ ⟨⟩
    exact alone name (by simp) named (by simp) (by simp)

theorem items_printable {text : List Char} {before after : List Token} {items : List Item}
    {parts : List (List Token)} (laid : List.Forall₂ (Item.LaidOut text) items parts)
    (scanned : Token.scan text = .ok (before ++ (parts.flatten ++ after))) (goes : after ≠ []) :
    ∀ item ∈ items, item.Printable := by
  induction laid generalizing before with
  | nil => nofun
  | @cons item part items parts here later ih =>
    rw [List.flatten_cons, List.append_assoc] at scanned
    have first := item_printable scanned (by simp [goes]) here
    rw [← List.append_assoc] at scanned
    rw [List.forall_mem_cons]
    exact ⟨first, ih scanned⟩

theorem module_printable {file : String} {text : List Char} {before after : List Token}
    {parts : List (List Token)} {m : Module}
    (scanned : Token.scan text = .ok (before ++ (parts.flatten ++ after))) (goes : after ≠ [])
    (laid : m.LaidOut file text parts) : m.Printable := by
  cases laid with
  | @intro word name last items parts opens named ends laid =>
    have titled := token_alone (t := name) scanned (by simp) named (by simp) (by simp)
    rw [List.flatten_cons, List.append_assoc, ← List.append_assoc] at scanned
    have each := items_printable laid scanned goes
    constructor
    · exact titled
    · intro entry member _
      obtain ⟨item, inside, is⟩ := List.mem_filterMap.mp member
      exact (each item inside).imports entry is
    · intro d member
      obtain ⟨item, inside, is⟩ := List.mem_filterMap.mp member
      exact (each item inside).declared d is
    · intro s member
      obtain ⟨item, inside, is⟩ := List.mem_filterMap.mp member
      exact (each item inside).signed s is
    · intro f member
      obtain ⟨item, inside, is⟩ := List.mem_filterMap.mp member
      exact (each item inside).given f is

theorem modules_printable {file : String} {text : List Char} {before after : List Token}
    {modules : List Module} {groups : List (List (List Token))}
    (laid : List.Forall₂ (LaidOut file text) modules groups)
    (scanned : Token.scan text = .ok (before ++ ((groups.map List.flatten).flatten ++ after)))
    (goes : after ≠ []) : ∀ m ∈ modules, m.Printable := by
  induction laid generalizing before with
  | nil => nofun
  | @cons m parts modules groups here later ih =>
    rw [List.map_cons, List.flatten_cons, List.append_assoc] at scanned
    have first := module_printable scanned (by simp [goes]) here
    rw [← List.append_assoc] at scanned
    rw [List.forall_mem_cons]
    exact ⟨first, ih scanned⟩

theorem ofText_printable {file : String} {text : List Char} {modules : List Module}
    (parsed : ofText file text = .ok modules) : ∀ m ∈ modules, m.Printable := by
  obtain ⟨place, stop, groups, scanned, laid, _⟩ := ofText_laid_out parsed
  rw [← List.nil_append (_ ++ _)] at scanned
  exact modules_printable laid scanned (List.cons_ne_nil _ [])

end Module

end PureJs
