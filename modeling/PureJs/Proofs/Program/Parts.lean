import PureJs.Proofs.Program.Formed
import PureJs.Proofs.Program.Literals
import PureJs.Proofs.Program.TailCalls

/-!
The parts of an expression have the shape of those that are read, and literals of the kinds that the
whole has.
-/

namespace PureJs

namespace Expr

theorem list_formed_each {items : List Expr} (formed : ListFormed items) :
    ∀ e ∈ items, e.Formed := by
  induction items with
  | nil => nofun
  | cons e rest ih => exact List.forall_mem_cons.mpr ⟨formed.1, ih formed.2⟩

theorem statements_formed_each {statements : List Statement}
    (formed : StatementsFormed statements) : ∀ s ∈ statements, s.Formed := by
  induction statements with
  | nil => nofun
  | cons s rest ih =>
    have parts := (statements_formed_cons s rest).mp formed
    exact List.forall_mem_cons.mpr ⟨parts.1, ih parts.2⟩

theorem statement_formed {s : Statement} (formed : s.Formed) :
    s.expr.Formed ∧ ∀ x ∈ s.name?, Lexical x := by
  cases s with
  | bind | define => exact ⟨formed.2.1, by rintro _ ⟨⟩; exact formed.1⟩
  | run => exact ⟨formed.1, nofun⟩

theorem part_formed {e inner : Expr} {step : Branch} (formed : e.Formed)
    (here : e.part? step = some inner) : inner.Formed := by
  cases e with
  | array place items =>
    cases step with
    | item index => exact list_formed_each formed inner (List.mem_of_getElem? here)
    | _ => cases here
  | block place statements =>
    cases step with
    | statement index =>
      obtain ⟨s, known, rfl⟩ := Option.map_eq_some_iff.mp here
      exact (statement_formed
        (statements_formed_each formed.1 s (List.mem_of_getElem? known))).1
    | _ => cases here
  | literal | var => cases step <;> cases here
  | lambda => cases step <;> cases here; exact formed.2.2
  | negate => cases step <;> cases here; exact formed
  | app | binary =>
    cases step <;> cases here
    · exact formed.1
    · exact formed.2
  | cond =>
    cases step <;> cases here
    · exact formed.1
    · exact formed.2.1
    · exact formed.2.2

section Literals

variable {wanted : Literal → Prop}

theorem list_literals_each {items : List Expr} (each : ListEachLiteral wanted items) :
    ∀ e ∈ items, e.EachLiteral wanted := by
  induction items with
  | nil => nofun
  | cons e rest ih => exact List.forall_mem_cons.mpr ⟨each.1, ih each.2⟩

theorem statements_literals_each {statements : List Statement}
    (each : StatementsEachLiteral wanted statements) :
    ∀ s ∈ statements, s.expr.EachLiteral wanted := by
  induction statements with
  | nil => nofun
  | cons s rest ih =>
    rw [List.forall_mem_cons]
    cases s <;> exact ⟨each.1, ih each.2⟩

theorem part_literals {e inner : Expr} {step : Branch} (each : e.EachLiteral wanted)
    (here : e.part? step = some inner) : inner.EachLiteral wanted := by
  cases e with
  | array place items =>
    cases step with
    | item index => exact list_literals_each each inner (List.mem_of_getElem? here)
    | _ => cases here
  | block place statements =>
    cases step with
    | statement index =>
      obtain ⟨s, known, rfl⟩ := Option.map_eq_some_iff.mp here
      exact statements_literals_each each s (List.mem_of_getElem? known)
    | _ => cases here
  | literal | var => cases step <;> cases here
  | lambda | negate => cases step <;> cases here; exact each
  | app | binary =>
    cases step <;> cases here
    · exact each.1
    · exact each.2
  | cond =>
    cases step <;> cases here
    · exact each.1
    · exact each.2.1
    · exact each.2.2

end Literals

/-- What passes from an expression to each of its parts passes to what stands at the end of a way.
-/
theorem at_of_parts {holds : Expr → Prop}
    (parts : ∀ {e inner step}, holds e → e.part? step = some inner → holds inner) {e part : Expr}
    {path : List Branch} (here : holds e) (stands : e.at? path = some part) : holds part := by
  induction path generalizing e with
  | nil =>
    cases stands
    exact here
  | cons step path ih =>
    obtain ⟨inner, first, later⟩ := Option.bind_eq_some_iff.mp stands
    exact ih (parts here first) later

end Expr

end PureJs
