import PureJs.Proofs.Syntax.Carried

/-!
A module, with every part of it, is read inside its surroundings as it is alone, with other places;
and behind the modules of a text, the reading goes on with those that follow.
-/

namespace PureJs

def Import.relocate (f : Position → Position) (entry : Import) : Import :=
  { entry with place := f entry.place }

def Signature.relocate (f : Position → Position) (s : Signature) : Signature :=
  { s with place := f s.place }

def Declaration.relocate (f : Position → Position) : Declaration → Declaration
  | .value d => .value { d with place := f d.place, body := d.body.relocate f }
  | .foreign d => .foreign { d with place := f d.place }

namespace Module

def relocate (f : Position → Position) (m : Module) : Module :=
  { m with
    place := f m.place
    imports := m.imports.map (Import.relocate f)
    declarations := m.declarations.map (Declaration.relocate f)
    signatures := m.signatures.map (Signature.relocate f) }

theorem relocate_relocate (f g : Position → Position) (m : Module) :
    (m.relocate f).relocate g = m.relocate (g ∘ f) := by
  have declarations : ∀ d : Declaration, (d.relocate f).relocate g = d.relocate (g ∘ f) := by
    intro d
    cases d with
    | value d => simp only [Declaration.relocate, Expr.relocate_relocate, Function.comp]
    | foreign d => rfl
  simp only [relocate, List.map_map]
  congr 2
  exact funext declarations

theorem relocate_id (m : Module) : m.relocate id = m := by
  have declarations : ∀ d : Declaration, d.relocate id = d := by
    intro d
    cases d with
    | value d => simp only [Declaration.relocate, Expr.relocate_id, id]
    | foreign d => rfl
  have same : ∀ {α : Type} (change : α → α) (list : List α), (∀ entry, change entry = entry) →
      list.map change = list := by
    intro α change list same
    rw [funext same]
    exact List.map_id' list
  simp only [relocate, same (Import.relocate id) m.imports fun _ => rfl,
    same (Signature.relocate id) m.signatures fun _ => rfl,
    same (Declaration.relocate id) m.declarations declarations, id]

def Item.relocate (f : Position → Position) : Item → Item
  | .import entry => .import (entry.relocate f)
  | .declaration entry => .declaration (entry.relocate f)
  | .signature entry => .signature (entry.relocate f)

theorem relocate_items (f : Position → Position) (name file : String) (place : Position)
    (items : List Item) :
    ofItems name file (f place) (items.map (Item.relocate f)) =
      (ofItems name file place items).relocate f := by
  have each : ∀ {α : Type} (pick : Item → Option α) (change : α → α),
      (∀ item : Item, pick (item.relocate f) = (pick item).map change) →
        (items.map (Item.relocate f)).filterMap pick = (items.filterMap pick).map change := by
    intro α pick change same
    rw [List.filterMap_map, List.map_filterMap]
    exact congrArg (List.filterMap · items) (funext same)
  have imports := each Item.import? (Import.relocate f) fun item => by cases item <;> rfl
  have declarations := each Item.declaration? (Declaration.relocate f) fun item => by
    cases item <;> rfl
  have signatures := each Item.signature? (Signature.relocate f) fun item => by cases item <;> rfl
  simp only [ofItems, relocate, imports, declarations, signatures]

open Cursor

def Stands (around : Surroundings) (text whole : List Char) : Prop :=
  ∃ front back, whole = front ++ text ++ back ∧ front.length = around.offset

structure Outer (text : List Char) (c : Cursor) : Prop where
  proper : c.Proper
  margin : c.margin = 1
  within : ∀ t ∈ c.tokens, t.stop ≤ text.length

section

variable {around : Surroundings} {text whole : List Char} {c after : Cursor} {taken : List Token}

theorem Outer.open (outer : Outer text c) : c.Open := fun _ => Nat.le_of_eq outer.margin.symm

theorem Outer.takes (outer : Outer text c) (takes : c.Takes taken after) : Outer text after where
  proper := takes.proper outer.proper
  margin := takes.margin.trans outer.margin
  within := by
    intro t member
    apply outer.within
    rw [takes.tokens]
    exact List.mem_append_right taken member

theorem type_text_stands (stands : Stands around text whole)
    (within : ∀ t ∈ taken, t.stop ≤ text.length) :
    typeText whole (taken.map around.move) = typeText text taken := by
  obtain ⟨front, back, rfl, offset⟩ := stands
  unfold typeText
  rw [List.head?_map, List.getLast?_map]
  cases taken.head? with
  | none => rfl
  | some first =>
    cases ends : taken.getLast? with
    | none => rfl
    | some last =>
      have inside := within last (List.mem_of_getLast? ends)
      have length : (last.stop + around.offset) - (first.start + around.offset) =
          last.stop - first.start := by omega
      have fits : last.stop - first.start ≤ (text.drop first.start).length := by
        rw [List.length_drop]
        omega
      have source : ((front ++ text ++ back).drop (first.start + around.offset)).take
          ((last.stop + around.offset) - (first.start + around.offset)) =
            (text.drop first.start).take (last.stop - first.start) := by
        rw [length, ← offset, Nat.add_comm, List.append_assoc, List.drop_append, List.drop_append,
          List.drop_eq_nil_of_le (Nat.le_add_right ..), Nat.add_sub_cancel_left, List.nil_append,
          List.take_append_of_le_length fits]
      simp only [Option.map_some, Surroundings.move, Token.moved, source]

variable (sound : around.Sound) (outer : Outer text c)
include sound outer

theorem type_carries (stands : Stands around text whole) (stale : c.fresh = false) :
    Carries around c id (parseType text c) (parseType whole (c.inside around)) := by
  unfold parseType
  rw [inside_boundary sound outer.open fun _ => stale]
  split
  · exact Carries.error _
  · have margin : 1 ≤ c.margin := Nat.le_of_eq outer.margin.symm
    have within : ∀ t ∈ c.untilBoundary.1, t.stop ≤ text.length :=
      fun t member => outer.within t ((List.takeWhile_prefix _).subset member)
    rw [inside_until_boundary sound margin]
    dsimp only
    rw [type_text_stands stands within]
    intro type after same _
    cases same
    exact ⟨outer.open, rfl⟩

end

section Items

variable {around : Surroundings} {text whole : List Char} {c after : Cursor} {taken : List Token}
  (sound : around.Sound) (stands : Stands around text whole) (outer : Outer text c)
include outer

theorem import_carries (here : c.kind = .keyword .importWord) :
    Carries around c (.relocate (.below around.lines)) (parseImport c)
      (parseImport (c.inside around)) := by
  have ready := outer.proper.ready
  have some := some_of_kind ready here (by simp)
  have takes := takes_next ready (by simp [here])
  have ready := takes.ready ready
  unfold parseImport
  rw [inside_advance some, inside_peek some]
  apply Carries.after_taking takes
  apply Carries.bind (Lays.expect ready (by simp)) (Carries.expect ready (by simp))
  intro name mid _ _ _
  exact Carries.ok (Item.import ⟨name.value, c.peek.place, false⟩)

include sound

theorem value_carries (here : c.kind = .identifier) :
    Carries around c (.relocate (.below around.lines)) (parseValue c)
      (parseValue (c.inside around)) := by
  have ready := outer.proper.ready
  have some := some_of_kind ready here (by simp)
  have takes := takes_next ready (by simp [here])
  obtain ⟨params, _, _, others⟩ := takes_identifiers takes.stale
  have front := takes.trans others
  have ready := front.ready ready
  unfold parseValue
  rw [inside_advance some, inside_peek some, inside_identifiers sound]
  dsimp only
  apply Carries.after_taking front
  apply Carries.bind (Lays.expect ready (by simp)) (Carries.expect ready (by simp))
  intro assign mid _ one _
  have proper := one.proper (front.proper outer.proper)
  have deep : Expr.readingDepth mid ≤ Expr.readingDepth (mid.inside around) := by
    simp only [Expr.readingDepth, inside, List.length_append, List.length_map]
    omega
  apply Carries.bind ((Expr.all_lay _).parse mid proper.ready)
    ((Expr.all_carry sound deep).parse mid proper)
  intro body after inner _ _
  exact Carries.ok (Item.declaration (.value
    ⟨c.peek.place, c.peek.value, c.advance.identifiers.1, body⟩))

include stands

theorem foreign_carries (here : c.kind = .keyword .foreignWord) :
    Carries around c (.relocate (.below around.lines)) (parseForeign text c)
      (parseForeign whole (c.inside around)) := by
  have some := some_of_kind outer.proper.ready here (by simp)
  have takes := takes_next outer.proper.ready (by simp [here])
  have outer := outer.takes takes
  have ready := outer.proper.ready
  unfold parseForeign
  rw [inside_advance some, inside_peek some]
  apply Carries.after_taking takes
  apply Carries.bind (Lays.expect ready (by simp)) (Carries.expect ready (by simp))
  intro second mid _ one _
  have outer := outer.takes one
  have ready := outer.proper.ready
  apply Carries.bind (Lays.expect ready (by simp)) (Carries.expect ready (by simp))
  intro name mid _ two _
  have outer := outer.takes two
  have ready := outer.proper.ready
  apply Carries.bind (Lays.expect ready (by simp)) (Carries.expect ready (by simp))
  intro javascript mid _ three _
  have outer := outer.takes three
  have ready := outer.proper.ready
  apply Carries.bind (Lays.expect ready (by simp)) (Carries.expect ready (by simp))
  intro colons mid _ four _
  have outer := outer.takes four
  apply Carries.bind (type_lays four.stale) (type_carries sound outer stands four.stale)
  intro type after _ _ _
  exact Carries.ok (Item.declaration (.foreign
    ⟨c.peek.place, name.value, javascript.value, type⟩))

theorem signature_carries (here : c.kind = .identifier)
    (next : c.secondKind = .mark .doubleColon) :
    Carries around c (.relocate (.below around.lines)) (parseSignature text c)
      (parseSignature whole (c.inside around)) := by
  have ready := outer.proper.ready
  have some := some_of_kind ready here (by simp)
  have takes := takes_next ready (by simp [here])
  have second : c.advance.kind = .mark .doubleColon := next
  have further := some_of_kind (takes.ready ready) second (by simp)
  have front := takes.trans (takes_next (takes.ready ready) (by simp [second]))
  unfold parseSignature
  rw [inside_advance some, inside_advance further, inside_peek some]
  apply Carries.after_taking front
  apply Carries.bind (type_lays front.stale)
    (type_carries sound (outer.takes front) stands front.stale)
  intro type after _ _ _
  exact Carries.ok (Item.signature ⟨c.peek.place, c.peek.value, type⟩)

theorem item_carries : Carries around c (.relocate (.below around.lines)) (parseItem text c)
    (parseItem whole (c.inside around)) := by
  have ready := outer.proper.ready
  by_cases none : c.tokens = []
  · have last : c.kind = .endOfInput := by simp [Cursor.kind, peek, none, ready.finish]
    unfold parseItem
    rw [last]
    exact Carries.error _
  · unfold parseItem
    rw [inside_kind none]
    split
    · rename_i kind
      exact import_carries outer kind
    · rename_i kind
      exact foreign_carries sound stands outer kind
    · rename_i kind
      have second : (c.inside around).secondKind = .mark .doubleColon ↔
          c.secondKind = .mark .doubleColon :=
        inside_second_iff sound ready none (by simp) (by simp)
      by_cases next : c.secondKind = .mark .doubleColon
      · rw [if_pos next, if_pos (second.mpr next)]
        exact signature_carries sound stands outer kind next
      · rw [if_neg next, if_neg (mt second.mp next)]
        exact value_carries sound outer kind
    · exact Carries.error _

omit stands in
theorem boundary_carries {α : Type} {move : α → α} {result inner : Except ParseFault (α × Cursor)}
    (stale : c.fresh = false)
    (carries : c.atBoundary = true → Carries around c move result inner) :
    Carries around c move (do c.expectBoundary; result)
      (do (c.inside around).expectBoundary; inner) := by
  unfold Cursor.expectBoundary
  rw [inside_boundary sound outer.open fun _ => stale]
  split
  · rename_i here
    exact carries here
  · exact Carries.error _

theorem items_carry {fuel more : Nat} (le : fuel ≤ more) (stale : c.fresh = false) :
    Carries around c (List.map (.relocate (.below around.lines))) (parseItems text fuel c)
      (parseItems whole more (c.inside around)) := by
  induction fuel generalizing c more with
  | zero => exact Carries.error _
  | succ fuel ih =>
    cases more with
    | zero => exact absurd le (Nat.not_succ_le_zero fuel)
    | succ more =>
      unfold parseItems
      rw [inside_module_over sound]
      split
      · exact Carries.ok []
      · rename_i goes
        have some : c.tokens ≠ [] := by
          intro none
          simp [atEnd, none] at goes
        have column : (around.move c.peek).column = c.peek.column := rfl
        rw [inside_peek some, column]
        split
        · exact Carries.error _
        · have ready := outer.proper.ready
          apply Carries.bind (item_lays ready outer.margin outer.proper.placed)
            (item_carries sound stands outer)
          intro item after part takes _
          have outer := outer.takes takes
          apply boundary_carries sound outer takes.stale
          intro here
          apply Carries.bind (items_lay text fuel outer.proper.ready outer.margin
            outer.proper.placed takes.stale here) (ih outer (Nat.le_of_succ_le_succ le) takes.stale)
          intro others last back _ _
          exact Carries.ok (item :: others)

theorem one_carries (file : String) :
    Carries around c (.relocate (.below around.lines)) (parseOne file text c)
      (parseOne file whole (c.inside around)) := by
  unfold parseOne
  by_cases header : c.atModuleHeader = true
  · have kind : c.kind = .keyword .moduleWord := by
      simp only [Cursor.atModuleHeader, Bool.and_eq_true, decide_eq_true_eq] at header
      exact header.1.1
    have some := some_of_kind outer.proper.ready kind (by simp)
    have same : (c.inside around).atModuleHeader = c.atModuleHeader := by
      obtain ⟨token, rest, tokens⟩ := List.exists_cons_of_ne_nil some
      simp [atModuleHeader, Cursor.kind, Cursor.inside, tokens, peek, Surroundings.move,
        Token.moved, Token.column, Position.below]
    have takes := takes_next outer.proper.ready (by simp [kind])
    have outer := outer.takes takes
    have ready := outer.proper.ready
    rw [same, header, inside_advance some, inside_peek some]
    simp only [Bool.not_true, Bool.false_eq_true, if_false]
    apply Carries.after_taking takes
    apply Carries.bind (Lays.expect ready (by simp)) (Carries.expect ready (by simp))
    intro name mid _ one _
    have outer := outer.takes one
    have ready := outer.proper.ready
    apply Carries.bind (Lays.expect ready (by simp)) (Carries.expect ready (by simp))
    intro last mid _ two _
    have outer := outer.takes two
    have ready := outer.proper.ready
    apply boundary_carries sound outer two.stale
    intro here
    have enough : mid.tokens.length + 1 ≤ (mid.inside around).tokens.length + 1 := by
      simp only [Cursor.inside, List.length_append, List.length_map]
      omega
    apply Carries.bind (items_lay text _ ready outer.margin outer.proper.placed two.stale here)
      (items_carry sound stands outer enough two.stale)
    intro items after rest _ _
    have moved := relocate_items (.below around.lines) name.value file c.peek.place items
    show Carries around after _ (.ok (_, after)) (.ok (ofItems name.value file
      (c.peek.place.below around.lines) (items.map (Item.relocate (.below around.lines))), _))
    rw [moved]
    exact Carries.ok _
  · have missing : (!c.atModuleHeader) = true := by simpa using header
    rw [missing]
    exact Carries.error _

/-- The modules of a text are read where it stands in a whole one, and then those behind it. -/
theorem all_carry (file : String) (stale : c.fresh = false) {fuel least more : Nat}
    (enough : fuel + least ≤ more + 1) {modules others : List Module}
    (parsed : parseAll file text fuel c = .ok modules)
    (later : ∀ more, least ≤ more →
      parseAll file whole more ⟨around.behind, around.finish, false, c.layout⟩ = .ok others) :
    parseAll file whole more (c.inside around) =
      .ok (modules.map (relocate (.below around.lines)) ++ others) := by
  induction fuel generalizing c more modules with
  | zero => cases parsed
  | succ fuel ih =>
    by_cases none : c.tokens = []
    · have here : c.inside around = ⟨around.behind, around.finish, false, c.layout⟩ := by
        simp [Cursor.inside, none, stale]
      rw [parseAll, if_pos (by simp [atEnd, none])] at parsed
      cases parsed
      rw [here]
      exact later more (by omega)
    · rw [parseAll, if_neg (by simp [atEnd, none])] at parsed
      cases first : parseOne file text c with
      | error fault =>
        simp only [first, bind, Except.bind] at parsed
        cases parsed
      | ok pair =>
        obtain ⟨m, after⟩ := pair
        cases rest : parseAll file text fuel after with
        | error fault =>
          simp only [first, rest, bind, Except.bind] at parsed
          cases parsed
        | ok more_modules =>
          simp only [first, rest, bind, Except.bind] at parsed
          cases parsed
          obtain ⟨taken, takes, _⟩ := one_lays file text outer.proper.ready outer.margin
            outer.proper.placed m after first
          have outer' := outer.takes takes
          have carried := (one_carries sound stands outer file m after first outer'.open).2
          rw [← takes.layout] at later
          cases more with
          | zero =>
            have empty : fuel = 0 := by omega
            subst empty
            cases rest
          | succ more =>
            have enough : fuel + least ≤ more + 1 := by omega
            have further := ih outer' takes.stale enough rest later
            rw [parseAll, if_neg (by simp [atEnd, Cursor.inside, none])]
            simp only [carried, further, bind, Except.bind]
            rfl

end Items

end Module

end PureJs
