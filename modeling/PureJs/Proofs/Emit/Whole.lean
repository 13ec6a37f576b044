import Mathlib.Algebra.Group.Nat.Defs
import PureJs.Proofs.Emit.ModuleScopes
import PureJs.Proofs.Emit.SelfCalls

/-!
No code is missing, and every whole number can be written out. The emitter leaves a hole for a do
block without statements and for a loop without parameters, of which a program that can be read has
none.
-/

namespace PureJs

namespace Js

mutual

def Expr.Whole : Expr → Prop
  | .hole => False
  | .integer n => n.natAbs < 10 ^ Text.digitLimit
  | .number _ | .string _ | .bool _ | .name _ => True
  | .array items => ListWhole items
  | .property object _ | .entry object _ => object.Whole
  | .call callee args => callee.Whole ∧ ListWhole args
  | .paren inner | .negate inner => inner.Whole
  | .cond condition yes no => condition.Whole ∧ yes.Whole ∧ no.Whole
  | .binary _ left right => left.Whole ∧ right.Whole
  | .function _ body => BodyWhole body
  | .object properties => PropertiesWhole properties

def ListWhole : List Expr → Prop
  | [] => True
  | e :: rest => e.Whole ∧ ListWhole rest

def PropertiesWhole : List (String × Expr) → Prop
  | [] => True
  | (_, e) :: rest => e.Whole ∧ PropertiesWhole rest

def Statement.Whole : Statement → Prop
  | .var _ value | .give value | .run value => value.Whole
  | .assign target value => target.Whole ∧ value.Whole
  | .branch condition yes no => condition.Whole ∧ BodyWhole yes ∧ BodyWhole no
  | .loop _ body => BodyWhole body
  | .again _ | .verbatim _ => True

def BodyWhole : List Statement → Prop
  | [] => True
  | s :: rest => s.Whole ∧ BodyWhole rest

end

theorem body_whole_iff {statements : List Statement} :
    BodyWhole statements ↔ ∀ s ∈ statements, s.Whole := by
  induction statements with
  | nil => simp [BodyWhole]
  | cons s rest ih => simp [BodyWhole, ih]

theorem properties_whole {properties : List (String × Expr)}
    (each : ∀ entry ∈ properties, entry.2.Whole) : PropertiesWhole properties := by
  induction properties with
  | nil => trivial
  | cons entry rest ih =>
    rw [List.forall_mem_cons] at each
    exact ⟨each.1, ih each.2⟩

end Js

namespace Emit

section Pieces

theorem giving_whole (param : String) {code : Js.Expr} (whole : code.Whole) :
    (giving param code).Whole := ⟨whole, trivial⟩

theorem operand_whole (e : Expr) {code : Js.Expr} (whole : code.Whole) :
    (asOperand e code).Whole := by
  unfold asOperand
  split <;> exact whole

theorem callee_whole (e : Expr) {code : Js.Expr} (whole : code.Whole) :
    (asCallee e code).Whole := by
  unfold asCallee
  split <;> exact whole

theorem perform_whole (e : Expr) {code : Js.Expr} (whole : code.Whole) :
    (perform e code).Whole := ⟨callee_whole e whole, trivial⟩

theorem literal_whole {value : Literal} (fits : value.Fits) : (literal value).Whole := by
  cases value with
  | integer n => exact fits
  | number text => trivial
  | string value => trivial
  | bool value => trivial

theorem select_whole (module name : String) : (Js.select (Js.moduleObject module) name).Whole := by
  unfold Js.select
  split <;> trivial

theorem var_whole (setting : Setting) (name : String) (resolved : Option String) :
    (var setting name resolved).Whole := by
  unfold var
  split
  · trivial
  · split
    · trivial
    · exact select_whole _ name

theorem curried_whole (params : List String) {code : Js.Expr} (whole : code.Whole) :
    (curried params code).Whole := by
  induction params with
  | nil => exact whole
  | cons param rest ih => exact giving_whole param ih

end Pieces

theorem block_has_statements {statements : List Statement}
    (ends : statements.getLast?.any Statement.isRun = true) : statements ≠ [] := by
  intro none
  subst none
  cases ends

section Whole

variable {setting : Setting}

mutual

theorem expr_whole {e : Expr} (formed : e.Formed) : (expr setting e).Whole := by
  cases e with
  | literal place value => exact literal_whole formed
  | array place items => exact list_whole formed
  | var place name qualifier resolved => exact var_whole setting name resolved
  | app place function argument =>
    exact ⟨callee_whole _ (expr_whole formed.1), expr_whole formed.2, trivial⟩
  | lambda place params body => exact curried_whole params (expr_whole formed.2.2)
  | cond place condition yes no =>
    exact ⟨operand_whole _ (expr_whole formed.1), operand_whole _ (expr_whole formed.2.1),
      operand_whole _ (expr_whole formed.2.2)⟩
  | binary place op left right =>
    exact ⟨operand_whole _ (expr_whole formed.1), operand_whole _ (expr_whole formed.2)⟩
  | negate place operand =>
    have inner : operand.Formed := formed
    exact operand_whole operand (expr_whole inner)
  | block place statements =>
    have some := block_has_statements formed.2
    unfold expr
    split
    · exact direct_whole formed.1 some
    · exact chained_whole formed.1 some

theorem list_whole {items : List Expr} (formed : Expr.ListFormed items) :
    Js.ListWhole (list setting items) := by
  cases items with
  | nil => trivial
  | cons e rest => exact ⟨expr_whole formed.1, list_whole formed.2⟩

theorem direct_whole {statements : List Statement} (formed : Expr.StatementsFormed statements)
    (some : statements ≠ []) : Js.BodyWhole (direct setting statements) := by
  match statements, formed with
  | [], _ => exact absurd rfl some
  | [.bind _ _ e], formed | [.define _ _ e], formed =>
    exact ⟨perform_whole e (expr_whole formed.2.1), trivial⟩
  | [.run _ e], formed => exact ⟨perform_whole e (expr_whole formed.1), trivial⟩
  | .bind _ name e :: second :: rest, formed =>
    exact ⟨perform_whole e (expr_whole formed.2.1),
      direct_whole formed.2.2 (List.cons_ne_nil second rest)⟩
  | .define _ name e :: second :: rest, formed =>
    exact ⟨expr_whole formed.2.1, direct_whole formed.2.2 (List.cons_ne_nil second rest)⟩
  | .run _ e :: second :: rest, formed =>
    exact ⟨perform_whole e (expr_whole formed.1),
      direct_whole formed.2 (List.cons_ne_nil second rest)⟩

theorem chained_whole {statements : List Statement} (formed : Expr.StatementsFormed statements)
    (some : statements ≠ []) : (chained setting statements).Whole := by
  match statements, formed with
  | [], _ => exact absurd rfl some
  | [.bind _ _ e], formed | [.define _ _ e], formed => exact expr_whole formed.2.1
  | [.run _ e], formed => exact expr_whole formed.1
  | .define _ name e :: second :: rest, formed =>
    have later := chained_whole formed.2.2 (List.cons_ne_nil second rest)
    exact ⟨giving_whole name later, expr_whole formed.2.1, trivial⟩
  | .bind _ name e :: second :: rest, formed =>
    have later := chained_whole formed.2.2 (List.cons_ne_nil second rest)
    exact ⟨⟨trivial, expr_whole formed.2.1, trivial⟩, giving_whole name later, trivial⟩
  | .run _ e :: second :: rest, formed =>
    have later := chained_whole formed.2 (List.cons_ne_nil second rest)
    exact ⟨⟨trivial, expr_whole formed.1, trivial⟩, giving_whole _ later, trivial⟩

end

variable {d : ValueDeclaration}

theorem tail_whole {e : Expr} (formed : e.Formed) : Js.BodyWhole (tail setting d e) := by
  induction e using ValueDeclaration.hasTailCall.induct with
  | case1 place condition yes no ihYes ihNo =>
    exact ⟨⟨expr_whole formed.1, ihYes formed.2.1, ihNo formed.2.2⟩, trivial⟩
  | case2 e other =>
    rw [tail_other setting d other]
    cases call : d.selfCall? setting.module e with
    | none => exact ⟨expr_whole formed, trivial⟩
    | some args =>
      have given : ∀ arg ∈ args, arg.Formed := by
        rw [← (ValueDeclaration.self_call_eq call).2.1]
        exact Expr.unapply_formed formed
      dsimp only
      rw [Js.body_whole_iff]
      intro s member
      simp only [List.mem_append, List.mem_map, List.mem_singleton] at member
      obtain (⟨arg, inside, rfl⟩ | ⟨param, _, rfl⟩) | rfl := member
      · exact expr_whole (given arg.2 (List.of_mem_zip inside).2)
      · exact ⟨trivial, trivial⟩
      · trivial

theorem loop_function_whole (formed : d.body.Formed) {params : List String} (some : params ≠ []) :
    (loopFunction setting d params).Whole := by
  induction params with
  | nil => exact absurd rfl some
  | cons param rest ih =>
    cases rest with
    | cons second more => exact giving_whole param (ih (List.cons_ne_nil second more))
    | nil =>
      show Js.BodyWhole (loopBody setting d)
      rw [loopBody, Js.body_whole_iff]
      intro s member
      simp only [List.mem_append, List.mem_map, List.mem_singleton] at member
      obtain ⟨param, _, rfl⟩ | rfl := member
      · trivial
      · exact tail_whole formed

end Whole

theorem declaration_whole (options : Options) (setting : Setting) {d : Declaration}
    (formed : d.Formed) : (declaration options setting d).Whole := by
  cases d with
  | foreign f => trivial
  | value d =>
    have body : d.body.Formed := ValueDeclaration.Formed.body formed
    show Js.Expr.Whole _
    split
    · rename_i loops
      have some : d.params ≠ [] := by
        intro none
        simp [ValueDeclaration.isTailRecursive, none] at loops
      exact loop_function_whole body some
    · exact curried_whole d.params (expr_whole body)

theorem module_whole (options : Options) {m : Module} (formed : m.Formed)
    (distinct : m.declaredNames.Nodup) : (m.emit options).Whole := by
  rw [Module.emit_body]
  refine ⟨trivial, ?_, trivial⟩
  show Js.BodyWhole (m.body options)
  rw [Module.body, Js.body_whole_iff]
  intro s member
  rcases List.mem_append.mp member with front | last
  · rcases List.mem_append.mp front with helper | declared
    · split at helper
      · rw [List.mem_singleton.mp helper]
        simp [bindHelper, giving, Js.Statement.Whole, Js.Expr.Whole, Js.BodyWhole, Js.ListWhole]
      · exact absurd helper List.not_mem_nil
    · obtain ⟨d, inside, rfl⟩ := List.mem_map.mp declared
      exact declaration_whole _ _
        (formed d ((Module.mem_ordered_declarations distinct).mp inside))
  · rw [List.mem_singleton.mp last]
    apply Js.properties_whole
    intro entry inside
    obtain ⟨name, _, rfl⟩ := List.mem_map.mp inside
    trivial

theorem program_whole [Simplifier] {options : Options} {header : List String}
    {units : List SourceUnit}
    {modules ordered : List Module} (read : parseUnits units = .ok modules)
    (checked : Module.check options modules = .ok ordered) :
    Js.BodyWhole (Module.emitProgram options header
      (selected options (withoutDeadCode options (optimized options ordered)))).body := by
  rw [Js.body_whole_iff]
  intro s member
  rcases List.mem_append.mp member with front | last
  · obtain ⟨m, inside, rfl⟩ := List.mem_map.mp front
    obtain ⟨_, source, there, _, fewer⟩ := emitted_source inside
    refine module_whole options ?_ (emitted_declared_distinct checked inside)
    exact fun d declared => optimized_formed read checked source there d (fewer.subset declared)
  · split at last
    · rw [List.mem_singleton.mp last]
      exact ⟨trivial, trivial⟩
    · exact absurd last List.not_mem_nil

end Emit

end PureJs
