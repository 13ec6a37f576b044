import Mathlib.Data.List.Forall2
import PureJs.Proofs.Syntax.FormedModules
import PureJs.Proofs.Syntax.LaidOut
import PureJs.Proofs.Syntax.TypeText
import PureJs.Proofs.Token.Places

/-!
The tokens of a text fall into the headers of its modules and the parts of these, each of which
begins in the first column. A later token of a part stands there only where the layout is not looked
at.
-/

namespace PureJs

open Cursor Token

/-- The kinds of the tokens that a module or a part of it begins with. -/
inductive Opening : List TokenKind → Prop
  | module : Opening [.keyword .moduleWord, .proper, .keyword .whereWord]
  | import : Opening [.keyword .importWord, .proper]
  | foreign : Opening [.keyword .foreignWord, .keyword .importWord, .identifier, .string,
      .mark .doubleColon]
  | signature : Opening [.identifier, .mark .doubleColon]
  | value (params : Nat) :
    Opening (.identifier :: List.replicate params .identifier ++ [.mark .assign])

/-- Of the tokens behind the first, one that opens its line in the first column, outside parentheses
and brackets, belongs to the opening or is taken without regard to the layout. -/
def Opened (part : List Token) : Prop :=
  ∀ before t after, part = before ++ t :: after → before ≠ [] → depth before = 0 →
    t.opensLine = true → t.column ≤ 1 →
      (∃ back rest, after = back ++ rest ∧ Opening ((before ++ t :: back).map Token.kind)) ∨
        Unchecked before t after

structure Begins (part : List Token) : Prop where
  first : ∃ token rest, part = token :: rest ∧ token.opensLine = true ∧ token.column = 1
  others : Opened part

theorem Opening.flat {kinds : List TokenKind} (opening : Opening kinds) :
    ∀ kind ∈ kinds, kind.turn = 0 := by
  intro kind member
  cases opening with
  | value params =>
    simp only [List.cons_append, List.mem_cons, List.mem_append, List.mem_replicate,
      List.not_mem_nil, or_false] at member
    rcases member with rfl | ⟨_, rfl⟩ | rfl <;> rfl
  | module | «import» | foreign | signature =>
    simp only [List.mem_cons, List.not_mem_nil, or_false] at member
    rcases member with rfl | rfl | rfl | rfl | rfl <;> rfl

theorem free_starts {column : Nat} {tokens : List Token}
    (free : ∀ t ∈ tokens, t.opensLine = true → column < t.column) : Starts column tokens := by
  intro t rest split
  exact free t (by simp [split])

theorem free_kept {column : Nat} {tokens : List Token}
    (free : ∀ t ∈ tokens, t.opensLine = true → column < t.column) : Kept column tokens := by
  intro before t after split _ _ opens here
  have further := free t (by simp [split]) opens
  omega

def Placed (tokens : List Token) : Prop :=
  ∀ token ∈ tokens, token.opensLine = false → 1 < token.column

theorem Cursor.Takes.placed {c after : Cursor} {taken : List Token} (takes : c.Takes taken after)
    (placed : Placed c.tokens) : Placed taken ∧ Placed after.tokens := by
  rw [takes.tokens] at placed
  exact List.forall_mem_append.mp placed

/-- Behind an opening, nothing stands in the first column but what is taken without regard to the
layout: no do block begins there inside a line. -/
theorem opened_of {front back : List Token} (opening : Opening (front.map Token.kind))
    (kept : Kept 1 back) (starts : Starts 1 back)
    (placed : Placed back) :
    Opened (front ++ back) := by
  have balanced : Balanced front := by
    apply balanced_flat
    intro token member
    exact opening.flat token.kind (List.mem_map_of_mem member)
  intro before t after split some level opens here
  have later : ∀ more, before = front ++ more → back = more ++ t :: after →
      Unchecked before t after := by
    rintro more rfl inside
    cases more with
    | nil =>
      have further := starts t after inside opens
      omega
    | cons token others =>
      rw [depth_append, balanced.total, Int.zero_add] at level
      rcases kept _ t after inside (List.cons_ne_nil token others) level opens here with
        unchecked | inner
      · exact unchecked.behind front
      · cases inner with
        | @intro _ middle word first left _ _ free reached =>
          have listed : first ∈ back := by
            rw [inside, left]
            simp
          have further := placed first listed free
          omega
  rcases List.append_eq_append_iff.mp split with ⟨more, same, inside⟩ | ⟨more, inside, rest⟩
  · exact .inr (later more same inside)
  · cases more with
    | nil =>
      rw [List.append_nil] at inside
      exact .inr (later [] (by simp [inside]) rest.symm)
    | cons token others =>
      rw [List.cons_append, List.cons.injEq] at rest
      obtain ⟨rfl, rfl⟩ := rest
      exact .inl ⟨others, back, rfl, inside ▸ opening⟩

theorem Opening.opened {part : List Token} (opening : Opening (part.map Token.kind)) :
    Opened part := by
  have nothing : Opened (part ++ []) :=
    opened_of opening (free_kept (by simp)) (free_starts (by simp)) (by simp [Placed])
  simpa using nothing

namespace Module

inductive Item.LaidOut (text : List Char) : Item → List Token → Prop
  | import {word name : Token} (opens : word.kind = .keyword .importWord)
    (named : name.kind = .proper) :
    Item.LaidOut text (.import ⟨name.value, word.place, false⟩) [word, name]
  | foreign {word second name javascript colons : Token} {type : List Token}
    (opens : word.kind = .keyword .foreignWord) (goes : second.kind = .keyword .importWord)
    (named : name.kind = .identifier) (given : javascript.kind = .string)
    (typed : colons.kind = .mark .doubleColon) (some : type ≠ []) :
    Item.LaidOut text
      (.declaration (.foreign ⟨word.place, name.value, javascript.value, typeText text type⟩))
      (word :: second :: name :: javascript :: colons :: type)
  | signature {name colons : Token} {type : List Token} (named : name.kind = .identifier)
    (typed : colons.kind = .mark .doubleColon) (some : type ≠ []) :
    Item.LaidOut text (.signature ⟨name.place, name.value, typeText text type⟩)
      (name :: colons :: type)
  | value {name assign : Token} {params inner : List Token} {body : Expr}
    (named : name.kind = .identifier) (each : ∀ param ∈ params, param.kind = .identifier)
    (is : assign.kind = .mark .assign) (laid : body.LaidOut inner) :
    Item.LaidOut text
      (.declaration (.value ⟨name.place, name.value, params.map Token.value, body⟩))
      (name :: params ++ assign :: inner)

/-- A module is written with its header and its parts. -/
inductive LaidOut (file : String) (text : List Char) : Module → List (List Token) → Prop
  | intro {word name last : Token} {items : List Item} {parts : List (List Token)}
    (opens : word.kind = .keyword .moduleWord) (named : name.kind = .proper)
    (ends : last.kind = .keyword .whereWord)
    (laid : List.Forall₂ (Item.LaidOut text) items parts) :
    LaidOut file text (ofItems name.value file word.place items) ([word, name, last] :: parts)

section Items

variable {text : List Char} {c : Cursor} (ready : c.Ready) (margin : c.margin = 1)
  (placed : Placed c.tokens)

theorem type_lays (stale : c.fresh = false) : Lays c (fun type taken =>
    type = typeText text taken ∧ taken ≠ [] ∧ ∀ t ∈ taken, t.opensLine = true → c.margin < t.column)
    (parseType text c) := by
  intro stored after parsed
  obtain ⟨type, takes, same, some, goes, _⟩ := type_takes stale parsed
  exact ⟨type, takes, same, some, goes⟩

include ready

theorem import_lays (here : c.kind = .keyword .importWord) :
    Lays c (fun item taken => item.LaidOut text taken ∧ Opened taken) (parseImport c) := by
  have takes := takes_next ready (by simp [here])
  unfold parseImport
  apply Lays.after_taking takes
  apply Lays.bind (Lays.expect (takes.ready ready) (by simp))
  rintro name mid _ one ⟨rfl, named⟩
  have opening : Opening ([c.peek, name].map Token.kind) := by
    simpa [show c.peek.kind = _ from here, named] using Opening.import
  exact Lays.ok one.stale ⟨.import here named, opening.opened⟩

include margin placed

theorem foreign_lays (here : c.kind = .keyword .foreignWord) :
    Lays c (fun item taken => item.LaidOut text taken ∧ Opened taken) (parseForeign text c) := by
  have takes := takes_next ready (by simp [here])
  have ready := takes.ready ready
  unfold parseForeign
  apply Lays.after_taking takes
  apply Lays.bind (Lays.expect ready (by simp))
  rintro second mid _ one ⟨rfl, goes⟩
  have ready := one.ready ready
  apply Lays.bind (Lays.expect ready (by simp))
  rintro name mid _ two ⟨rfl, named⟩
  have ready := two.ready ready
  apply Lays.bind (Lays.expect ready (by simp))
  rintro javascript mid _ three ⟨rfl, given⟩
  have ready := three.ready ready
  apply Lays.bind (Lays.expect ready (by simp))
  rintro colons mid _ four ⟨rfl, typed⟩
  apply Lays.bind (type_lays four.stale)
  rintro _ after type rest ⟨rfl, some, free⟩
  have front := (((takes.trans one).trans two).trans three).trans four
  rw [front.margin, margin] at free
  have opening : Opening ([c.peek, second, name, javascript, colons].map Token.kind) := by
    simpa [show c.peek.kind = _ from here, goes, named, given, typed] using Opening.foreign
  have whole := opened_of opening (free_kept free) (free_starts free)
    (rest.placed (front.placed placed).2).1
  refine Lays.ok rest.stale ?_
  rw [List.append_nil]
  exact ⟨.foreign here goes named given typed some, whole⟩

theorem signature_lays (here : c.kind = .identifier) (next : c.secondKind = .mark .doubleColon) :
    Lays c (fun item taken => item.LaidOut text taken ∧ Opened taken) (parseSignature text c) := by
  have takes := takes_next ready (by simp [here])
  have second : c.advance.kind = .mark .doubleColon := next
  have front := takes.trans (takes_next (takes.ready ready) (by simp [second]))
  unfold parseSignature
  apply Lays.after_taking front
  apply Lays.bind (type_lays front.stale)
  rintro _ after type rest ⟨rfl, some, free⟩
  rw [front.margin, margin] at free
  have opening : Opening ([c.peek, c.advance.peek].map Token.kind) := by
    simpa [show c.peek.kind = _ from here, show c.advance.peek.kind = _ from second]
      using Opening.signature
  have whole := opened_of opening (free_kept free) (free_starts free)
    (rest.placed (front.placed placed).2).1
  refine Lays.ok rest.stale ?_
  rw [List.append_nil]
  exact ⟨.signature here second some, whole⟩

theorem value_lays (here : c.kind = .identifier) :
    Lays c (fun item taken => item.LaidOut text taken ∧ Opened taken) (parseValue c) := by
  have takes := takes_next ready (by simp [here])
  obtain ⟨params, each, values, others⟩ := takes_identifiers takes.stale
  have first := takes.trans others
  unfold parseValue
  dsimp only
  rw [values]
  apply Lays.after_taking first
  apply Lays.bind (Lays.expect (first.ready ready) (by simp))
  rintro assign mid _ one ⟨rfl, is⟩
  have front := first.trans one
  apply Lays.bind ((Expr.all_lay _).parse mid (front.ready ready))
  intro body after inner rest fits
  rw [front.margin, margin] at fits
  have opening : Opening ((c.peek :: params ++ [assign]).map Token.kind) := by
    have kinds := Opening.value params.length
    simpa [Expr.identifier_kinds each, show c.peek.kind = _ from here, is] using kinds
  have whole := opened_of opening fits.1.2.kept (fits.2 one.stale)
    (rest.placed (front.placed placed).2).1
  refine Lays.ok rest.stale ⟨?_, ?_⟩
  · simpa using Item.LaidOut.value here each is fits.1.1
  · simpa using whole

theorem item_lays :
    Lays c (fun item taken => item.LaidOut text taken ∧ Opened taken) (parseItem text c) := by
  unfold parseItem
  split
  · rename_i kind
    exact import_lays ready kind
  · rename_i kind
    exact foreign_lays ready margin placed kind
  · rename_i kind
    split
    · rename_i next
      exact signature_lays ready margin placed kind next
    · exact value_lays ready margin placed kind
  · exact Lays.error _

end Items

theorem boundary_lays {α : Type} {c : Cursor} {good : α → List Token → Prop}
    {result : Except ParseFault (α × Cursor)} (lays : c.atBoundary = true → Lays c good result) :
    Lays c good (do c.expectBoundary; result) := by
  unfold Cursor.expectBoundary
  split
  · rename_i here
    exact lays here
  · exact Lays.error _

theorem boundary_opens {c : Cursor} (stale : c.fresh = false) (here : c.atBoundary = true)
    (inside : ¬c.atEnd = true) : c.peek.opensLine = true := by
  rw [atBoundary, Bool.or_eq_true] at here
  rcases here with last | breaks
  · exact absurd last inside
  · simp only [stale, breaksLayout, Bool.not_false, Bool.true_and, Bool.and_eq_true] at breaks
    exact breaks.1

theorem item_some {text : List Char} {item : Item} {part : List Token}
    (laid : item.LaidOut text part) : part ≠ [] := by
  cases laid <;> simp

theorem items_lay (text : List Char) (fuel : Nat) {c : Cursor} (ready : c.Ready)
    (margin : c.margin = 1) (placed : Placed c.tokens) (stale : c.fresh = false)
    (here : c.atBoundary = true) :
    Lays c (fun items taken => ∃ parts, taken = parts.flatten ∧
      List.Forall₂ (Item.LaidOut text) items parts ∧ ∀ part ∈ parts, Begins part)
      (parseItems text fuel c) := by
  induction fuel generalizing c with
  | zero => exact Lays.error _
  | succ fuel ih =>
    unfold parseItems
    split
    · exact Lays.ok stale ⟨[], rfl, .nil, by simp⟩
    · rename_i goes
      split
      · exact Lays.error _
      · rename_i column
        apply Lays.bind (item_lays ready margin placed)
        intro item after part takes laid
        apply boundary_lays
        intro next
        apply Lays.bind (ih (takes.ready ready) (takes.margin.trans margin)
          (takes.placed placed).2 takes.stale next)
        rintro others last _ further ⟨parts, rfl, all, begins⟩
        refine Lays.ok further.stale ⟨part :: parts, by simp, .cons laid.1 all, ?_⟩
        obtain ⟨first, rest, split⟩ := List.exists_cons_of_ne_nil (item_some laid.1)
        have same := takes_peek takes split
        have opens : first.opensLine = true := by
          rw [← same]
          apply boundary_opens stale here
          intro last
          simp [last] at goes
        have begin : first.column = 1 := by
          rw [← same]
          exact Decidable.of_not_not column
        rw [List.forall_mem_cons]
        exact ⟨⟨⟨first, rest, split, opens, begin⟩, laid.2⟩, begins⟩

theorem one_lays (file : String) (text : List Char) {c : Cursor} (ready : c.Ready)
    (margin : c.margin = 1) (placed : Placed c.tokens) :
    Lays c (fun m taken => ∃ parts, taken = parts.flatten ∧ m.LaidOut file text parts ∧
      ∀ part ∈ parts, Begins part) (parseOne file text c) := by
  unfold parseOne
  split
  · exact Lays.error _
  · rename_i header
    simp only [Cursor.atModuleHeader, Bool.not_eq_true', Bool.not_eq_false, Bool.and_eq_true,
      decide_eq_true_eq] at header
    obtain ⟨⟨here, opens⟩, begin⟩ := header
    have takes := takes_next ready (by simp [here])
    have ready := takes.ready ready
    apply Lays.after_taking takes
    apply Lays.bind (Lays.expect ready (by simp))
    rintro name mid _ one ⟨rfl, named⟩
    have ready := one.ready ready
    apply Lays.bind (Lays.expect ready (by simp))
    rintro last mid _ two ⟨rfl, ends⟩
    have front := (takes.trans one).trans two
    apply boundary_lays
    intro next
    apply Lays.bind (items_lay text _ (two.ready ready) (front.margin.trans margin)
      (front.placed placed).2 front.stale next)
    rintro items after _ rest ⟨parts, rfl, laid, begins⟩
    have opening : Opening ([c.peek, name, last].map Token.kind) := by
      simpa [show c.peek.kind = _ from here, named, ends] using Opening.module
    refine Lays.ok rest.stale ⟨[c.peek, name, last] :: parts, by simp, ?_, ?_⟩
    · exact .intro here named ends laid
    · rw [List.forall_mem_cons]
      exact ⟨⟨⟨c.peek, [name, last], rfl, opens, begin⟩, opening.opened⟩, begins⟩

theorem all_laid_out (file : String) (text : List Char) (fuel : Nat) {c : Cursor} (ready : c.Ready)
    (margin : c.margin = 1) (placed : Placed c.tokens) {modules : List Module}
    (parsed : parseAll file text fuel c = .ok modules) :
    ∃ groups, c.tokens = (groups.map List.flatten).flatten ∧
      List.Forall₂ (LaidOut file text) modules groups ∧
      ∀ parts ∈ groups, ∀ part ∈ parts, Begins part := by
  induction fuel generalizing c modules with
  | zero => cases parsed
  | succ fuel ih =>
    unfold parseAll at parsed
    split at parsed
    · rename_i last
      cases parsed
      exact ⟨[], by simpa [atEnd] using last, .nil, by simp⟩
    · cases first : parseOne file text c with
      | error fault =>
        simp only [first, bind, Except.bind] at parsed
        cases parsed
      | ok pair =>
        obtain ⟨m, after⟩ := pair
        obtain ⟨_, takes, parts, rfl, laid, begins⟩ :=
          one_lays file text ready margin placed m after first
        cases rest : parseAll file text fuel after with
        | error fault =>
          simp only [first, rest, bind, Except.bind] at parsed
          cases parsed
        | ok others =>
          simp only [first, rest, bind, Except.bind] at parsed
          cases parsed
          obtain ⟨groups, tokens, all, each⟩ := ih (takes.ready ready) (takes.margin.trans margin)
            (takes.placed placed).2 rest
          refine ⟨parts :: groups, ?_, .cons laid all, ?_⟩
          · rw [takes.tokens, tokens, List.map_cons, List.flatten_cons]
          · rw [List.forall_mem_cons]
            exact ⟨begins, each⟩

theorem ofText_laid_out {file : String} {text : List Char} {modules : List Module}
    (parsed : ofText file text = .ok modules) :
    ∃ place stop groups,
      Token.scan text = .ok ((groups.map List.flatten).flatten ++ [endOfInput place stop]) ∧
        List.Forall₂ (LaidOut file text) modules groups ∧
        ∀ parts ∈ groups, ∀ part ∈ parts, Begins part := by
  unfold ofText at parsed
  split at parsed
  · cases parsed
  · rename_i tokens scanned
    obtain ⟨front, place, stop, rfl⟩ := Token.scan_ends scanned
    have placed : Placed front := by
      intro token member
      exact Token.scan_columns scanned token (by simp [member])
    have same : (Cursor.ofTokens (front ++ [endOfInput place stop])).tokens = front := by
      simp [Cursor.ofTokens]
    obtain ⟨groups, split, laid, begins⟩ := all_laid_out file text _ (scanned_ready scanned) rfl
      (by rw [same]; exact placed) parsed
    rw [same] at split
    subst split
    exact ⟨place, stop, groups, scanned, laid, begins⟩

/-- The tokens of a text that can be read are those of its modules, in parts that begin in the first
column. -/
theorem layout_begins_parts {file : String} {text : List Char} {modules : List Module}
    (parsed : ofText file text = .ok modules) :
    ∃ tokens finish groups, Token.scan text = .ok (tokens ++ [finish]) ∧
      finish.kind = .endOfInput ∧ tokens = (groups.map List.flatten).flatten ∧
      List.Forall₂ (LaidOut file text) modules groups ∧
      ∀ parts ∈ groups, ∀ part ∈ parts, Begins part := by
  obtain ⟨place, stop, groups, scanned, laid, begins⟩ := ofText_laid_out parsed
  exact ⟨_, endOfInput place stop, groups, scanned, rfl, rfl, laid, begins⟩

def tidyText : List Char :=
  "module A where\nimport B\nf x = do\n  y <- x\n  g (y +\n1)\nmodule B where\nf ::\n  a\n".toList

theorem tidy_text_parts :
    ∃ modules, ofText unnamedFile tidyText = .ok modules ∧
      ∃ tokens finish groups, Token.scan tidyText = .ok (tokens ++ [finish]) ∧
        finish.kind = .endOfInput ∧ tokens = (groups.map List.flatten).flatten ∧
        List.Forall₂ (LaidOut unnamedFile tidyText) modules groups ∧
        ∀ parts ∈ groups, ∀ part ∈ parts, Begins part := by
  have reads : (ofText unnamedFile tidyText).isOk = true := by decide +kernel
  cases parsed : ofText unnamedFile tidyText with
  | error fault =>
    rw [parsed] at reads
    cases reads
  | ok modules => exact ⟨modules, rfl, layout_begins_parts parsed⟩

def beginnings (m : Module) : List Position :=
  m.place :: m.imports.map Import.place ++ m.declarations.map Declaration.place ++
    m.signatures.map Signature.place

def strayText : List Char := "module A where\nf\nx = 1\n".toList

/-- The second line names a value without saying what it is, and yet the third is joined to it: a
parameter list is read on whatever the layout is. -/
theorem stray_line_joined :
    ∃ modules tokens t, ofText unnamedFile strayText = .ok modules ∧
      Token.scan strayText = .ok tokens ∧ (∀ token ∈ tokens, token.turn = 0) ∧ t ∈ tokens ∧
      t.kind = .identifier ∧ t.opensLine = true ∧ t.column = 1 ∧
      ∀ m ∈ modules, t.place ∉ m.beginnings := by
  have test : (match ofText unnamedFile strayText, Token.scan strayText with
      | .ok modules, .ok tokens => decide ((∀ token ∈ tokens, token.turn = 0) ∧ ∃ t ∈ tokens,
          t.kind = .identifier ∧ t.opensLine = true ∧ t.column = 1 ∧
            ∀ m ∈ modules, t.place ∉ m.beginnings)
      | _, _ => false) = true := by decide +kernel
  split at test
  · rename_i modules tokens parsed scanned
    obtain ⟨flat, t, member, kind, opens, begin, apart⟩ := of_decide_eq_true test
    exact ⟨modules, tokens, t, parsed, scanned, flat, member, kind, opens, begin, apart⟩
  · cases test

end Module

end PureJs
