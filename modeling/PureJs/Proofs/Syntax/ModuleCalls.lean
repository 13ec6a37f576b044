import PureJs.Proofs.Syntax.Calls
import PureJs.Syntax.ModuleParser

/-!
The calls that the parts of the parser of whole texts make of one another and, in the body of a
value declaration, of the expression parser. No call is left out.
-/

namespace PureJs.Module

open Cursor

/-- A part of the parser, with what it is given beside the cursor and the text. -/
inductive Reader
  | modules (bound : Nat)
  | module
  | parts (bound : Nat)
  | part
  | import
  | foreign
  | signature
  | value
  | type
  | expression (reader : Expr.Reader) (bound : Nat)

structure Call where
  reader : Reader
  cursor : Cursor

/-- The cursor behind what is read, without what was made of it. Modules are read up to the end. -/
def Call.run (file : String) (text : List Char) : Call → Except ParseFault (Option Cursor)
  | ⟨.modules bound, c⟩ => (parseAll file text bound c).map fun _ => none
  | ⟨.module, c⟩ => (parseOne file text c).map (some ·.2)
  | ⟨.parts bound, c⟩ => (parseItems text bound c).map (some ·.2)
  | ⟨.part, c⟩ => (parseItem text c).map (some ·.2)
  | ⟨.import, c⟩ => (parseImport c).map (some ·.2)
  | ⟨.foreign, c⟩ => (parseForeign text c).map (some ·.2)
  | ⟨.signature, c⟩ => (parseSignature text c).map (some ·.2)
  | ⟨.value, c⟩ => (parseValue c).map (some ·.2)
  | ⟨.type, c⟩ => (parseType text c).map (some ·.2)
  | ⟨.expression reader bound, c⟩ => (Expr.Call.run ⟨reader, bound, c⟩).map some

/-- One part calls another, after what it has called before has returned. A bound that does not come
from the caller may be any that is large enough. -/
inductive Calls (file : String) (text : List Char) : Call → Call → Prop
  | module {bound : Nat} {c : Cursor} (more : ¬c.atEnd = true) :
    Calls file text ⟨.modules (bound + 1), c⟩ ⟨.module, c⟩
  | modules {bound : Nat} {c mid : Cursor} {m : Module} (more : ¬c.atEnd = true)
      (read : parseOne file text c = .ok (m, mid)) :
    Calls file text ⟨.modules (bound + 1), c⟩ ⟨.modules bound, mid⟩
  | parts {bound : Nat} {c mid after : Cursor} {name word : Token}
      (header : c.atModuleHeader = true)
      (named : c.advance.expect .proper "a module name" = .ok (name, mid))
      (goes : mid.expect (.keyword .whereWord) "'where'" = .ok (word, after))
      (ends : after.expectBoundary = .ok ()) (enough : after.tokens.length + 1 ≤ bound) :
    Calls file text ⟨.module, c⟩ ⟨.parts bound, after⟩
  | part {bound : Nat} {c : Cursor} (more : ¬(c.atEnd || c.atModuleHeader) = true)
      (begins : c.peek.column = 1) :
    Calls file text ⟨.parts (bound + 1), c⟩ ⟨.part, c⟩
  | further {bound : Nat} {c mid : Cursor} {item : Item}
      (more : ¬(c.atEnd || c.atModuleHeader) = true) (begins : c.peek.column = 1)
      (read : parseItem text c = .ok (item, mid)) (ends : mid.expectBoundary = .ok ()) :
    Calls file text ⟨.parts (bound + 1), c⟩ ⟨.parts bound, mid⟩
  | import {c : Cursor} (word : c.kind = .keyword .importWord) :
    Calls file text ⟨.part, c⟩ ⟨.import, c⟩
  | foreign {c : Cursor} (word : c.kind = .keyword .foreignWord) :
    Calls file text ⟨.part, c⟩ ⟨.foreign, c⟩
  | signature {c : Cursor} (named : c.kind = .identifier)
      (typed : c.secondKind = .mark .doubleColon) :
    Calls file text ⟨.part, c⟩ ⟨.signature, c⟩
  | value {c : Cursor} (named : c.kind = .identifier)
      (untyped : ¬c.secondKind = .mark .doubleColon) :
    Calls file text ⟨.part, c⟩ ⟨.value, c⟩
  | foreignType {c second third fourth after : Cursor} {word name javascript colons : Token}
      (goes : c.advance.expect (.keyword .importWord) "'import'" = .ok (word, second))
      (named : second.expect .identifier "an identifier" = .ok (name, third))
      (given : third.expect .string "a JavaScript string" = .ok (javascript, fourth))
      (typed : fourth.expect (.mark .doubleColon) "'::'" = .ok (colons, after)) :
    Calls file text ⟨.foreign, c⟩ ⟨.type, after⟩
  | signatureType {c : Cursor} : Calls file text ⟨.signature, c⟩ ⟨.type, c.advance.advance⟩
  | body {bound : Nat} {c after : Cursor} {assign : Token}
      (is : c.advance.identifiers.2.expect (.mark .assign) "'='" = .ok (assign, after))
      (enough : Expr.readingDepth after ≤ bound) :
    Calls file text ⟨.value, c⟩ ⟨.expression .expression bound, after⟩
  | inside {call next : Expr.Call} (calls : Expr.Calls call next) :
    Calls file text ⟨.expression call.reader call.bound, call.cursor⟩
      ⟨.expression next.reader next.bound, next.cursor⟩

variable {file : String} {text : List Char}

def Call.Overruns (file : String) (text : List Char) (call : Call) : Prop :=
  ∃ next, Calls file text call next ∧ next.run file text = .error .exhausted

theorem Calls.blames {α : Type} {call next : Call} {result : Except ParseFault α}
    (calls : Calls file text call next) (f : α → Option Cursor)
    (same : next.run file text = result.map f) : Blames (call.Overruns file text) result :=
  ⟨fun ends => ⟨next, calls, same.trans (map_exhausted.mpr ends)⟩⟩

theorem boundary_blames (reason : Prop) (c : Cursor) : Blames reason c.expectBoundary := by
  unfold Cursor.expectBoundary
  split
  · exact Blames.ok _
  · exact Blames.malformed _ _

section Parts

variable {bound : Nat} {c : Cursor}

theorem modules_blame : Blames (Call.Overruns file text ⟨.modules (bound + 1), c⟩)
    (parseAll file text (bound + 1) c) := by
  unfold parseAll
  split
  · exact Blames.ok _
  · rename_i more
    apply Blames.bind ((Calls.module more).blames _ rfl)
    intro _ read
    exact Blames.bind ((Calls.modules more read).blames _ rfl) fun _ _ => Blames.ok _

theorem module_blames : Blames (Call.Overruns file text ⟨.module, c⟩) (parseOne file text c) := by
  unfold parseOne
  split
  · exact Blames.malformed _ _
  · rename_i header
    apply Blames.bind (Blames.expect ..)
    intro _ named
    apply Blames.bind (Blames.expect ..)
    intro _ goes
    apply Blames.bind (boundary_blames _ _)
    intro _ ends
    have calls : Calls file text ⟨.module, c⟩ _ :=
      .parts (by simpa using header) named goes ends (Nat.le_refl _)
    exact Blames.bind (calls.blames _ rfl) fun _ _ => Blames.ok _

theorem parts_blame : Blames (Call.Overruns file text ⟨.parts (bound + 1), c⟩)
    (parseItems text (bound + 1) c) := by
  unfold parseItems
  split
  · exact Blames.ok _
  · rename_i more
    split
    · exact Blames.malformed _ _
    · rename_i begins
      have begins : c.peek.column = 1 := Decidable.of_not_not begins
      apply Blames.bind ((Calls.part more begins).blames _ rfl)
      intro _ read
      apply Blames.bind (boundary_blames _ _)
      intro _ ends
      exact Blames.bind ((Calls.further more begins read ends).blames _ rfl) fun _ _ => Blames.ok _

theorem part_blames : Blames (Call.Overruns file text ⟨.part, c⟩) (parseItem text c) := by
  unfold parseItem
  split
  · rename_i word
    exact (Calls.import word).blames _ rfl
  · rename_i word
    exact (Calls.foreign word).blames _ rfl
  · rename_i named
    split
    · rename_i typed
      exact (Calls.signature named typed).blames _ rfl
    · rename_i untyped
      exact (Calls.value named untyped).blames _ rfl
  · exact Blames.malformed _ _

theorem import_blames (reason : Prop) : Blames reason (parseImport c) := by
  unfold parseImport
  exact Blames.bind (Blames.expect ..) fun _ _ => Blames.ok _

theorem foreign_blames :
    Blames (Call.Overruns file text ⟨.foreign, c⟩) (parseForeign text c) := by
  unfold parseForeign
  apply Blames.bind (Blames.expect ..)
  intro _ goes
  apply Blames.bind (Blames.expect ..)
  intro _ named
  apply Blames.bind (Blames.expect ..)
  intro _ given
  apply Blames.bind (Blames.expect ..)
  intro _ typed
  have calls : Calls file text ⟨.foreign, c⟩ _ := .foreignType goes named given typed
  exact Blames.bind (calls.blames _ rfl) fun _ _ => Blames.ok _

theorem signature_blames :
    Blames (Call.Overruns file text ⟨.signature, c⟩) (parseSignature text c) := by
  unfold parseSignature
  exact Blames.bind (Calls.signatureType.blames _ rfl) fun _ _ => Blames.ok _

theorem value_blames : Blames (Call.Overruns file text ⟨.value, c⟩) (parseValue c) := by
  unfold parseValue
  apply Blames.bind (Blames.expect ..)
  rintro ⟨_, after⟩ is
  have calls : Calls file text ⟨.value, c⟩ _ := .body is (Nat.le_refl _)
  have same := comp_map Prod.snd some (Expr.parse (Expr.readingDepth after) after)
  exact Blames.bind (calls.blames _ same.symm) fun _ _ => Blames.ok _

theorem type_blames (reason : Prop) : Blames reason (parseType text c) := by
  unfold parseType
  split
  · exact Blames.malformed _ _
  · exact Blames.ok _

end Parts

def Reader.Spent : Reader → Prop
  | .modules bound | .parts bound | .expression _ bound => bound = 0
  | _ => False

theorem Call.overruns {call : Call} (ends : call.run file text = .error .exhausted) :
    call.reader.Spent ∨ call.Overruns file text := by
  obtain ⟨reader, c⟩ := call
  cases reader with
  | modules bound =>
    cases bound with
    | zero => exact .inl rfl
    | succ bound => exact .inr (modules_blame.because (map_exhausted.mp ends))
  | module => exact .inr (module_blames.because (map_exhausted.mp ends))
  | parts bound =>
    cases bound with
    | zero => exact .inl rfl
    | succ bound => exact .inr (parts_blame.because (map_exhausted.mp ends))
  | part => exact .inr (part_blames.because (map_exhausted.mp ends))
  | «import» => exact .inr ((import_blames _).because (map_exhausted.mp ends))
  | foreign => exact .inr (foreign_blames.because (map_exhausted.mp ends))
  | signature => exact .inr (signature_blames.because (map_exhausted.mp ends))
  | value => exact .inr (value_blames.because (map_exhausted.mp ends))
  | type => exact .inr ((type_blames _).because (map_exhausted.mp ends))
  | expression reader bound =>
    rcases Expr.Call.overruns (map_exhausted.mp ends) with spent | ⟨next, calls, ends⟩
    · exact .inl spent
    · exact .inr ⟨_, .inside calls, map_exhausted.mpr ends⟩

end PureJs.Module
