import PureJs.Proofs.Emit.Whole
import PureJs.Proofs.Fallible.Order

/-!
Writing code by asking lists for their entries: do blocks for their first or last statement, the
functions of a loop for the parameter of their turn. Trees of the shape that the parser gives have
all of these entries, and the code is then that of the emitter.
-/

namespace PureJs.Fallible

open Emit (Setting)

instance (value : Literal) : Decidable value.Fits :=
  match value with
  | .integer n => inferInstanceAs (Decidable (n.natAbs < 10 ^ Text.digitLimit))
  | .number _ | .string _ | .bool _ => inferInstanceAs (Decidable True)

mutual

/-- The code of an expression. Every kind of expression has some. -/
def expr (setting : Setting) : Expr → Except Fault Js.Expr
  | .literal _ value => if value.Fits then pure (Emit.literal value) else .error .digits
  | .array _ items => do pure (.array (← list setting items))
  | .var _ name _ resolved => pure (Emit.var setting name resolved)
  | .app _ function argument => do
    let callee ← expr setting function
    pure (.call (Emit.asCallee function callee) [← expr setting argument])
  | .lambda _ params body => do pure (Emit.curried params (← expr setting body))
  | .cond _ condition yes no => do
    pure (.cond (Emit.asOperand condition (← expr setting condition))
      (Emit.asOperand yes (← expr setting yes)) (Emit.asOperand no (← expr setting no)))
  | .binary _ op left right => do
    pure (.binary op.toJs (Emit.asOperand left (← expr setting left))
      (Emit.asOperand right (← expr setting right)))
  | .negate _ operand => do pure (.negate (Emit.asOperand operand (← expr setting operand)))
  | .block _ statements =>
    if setting.directBlocks then do pure (.function [] (← direct setting statements))
    else chained setting statements

def list (setting : Setting) : List Expr → Except Fault (List Js.Expr)
  | [] => pure []
  | e :: rest => do
    let first ← expr setting e
    pure (first :: (← list setting rest))

def direct (setting : Setting) : List Statement → Except Fault (List Js.Statement)
  | [] => .error .index
  | [.bind _ _ e] | [.define _ _ e] | [.run _ e] => do
    pure [.give (Emit.perform e (← expr setting e))]
  | .bind _ name e :: rest => do
    let action ← expr setting e
    pure (.var (Js.identifier name) (Emit.perform e action) :: (← direct setting rest))
  | .define _ name e :: rest => do
    let value ← expr setting e
    pure (.var (Js.identifier name) value :: (← direct setting rest))
  | .run _ e :: rest => do
    let action ← expr setting e
    pure (.run (Emit.perform e action) :: (← direct setting rest))

def chained (setting : Setting) : List Statement → Except Fault Js.Expr
  | [] => .error .index
  | [.bind _ _ e] | [.define _ _ e] | [.run _ e] => expr setting e
  | .define _ name e :: rest => do
    let inner ← chained setting rest
    pure (.call (.paren (Emit.giving (Js.identifier name) inner)) [← expr setting e])
  | .bind _ name e :: rest => do
    let inner ← chained setting rest
    pure (.call (.call (.name Emit.bindName) [← expr setting e])
      [Emit.giving (Js.identifier name) inner])
  | .run _ e :: rest => do
    let inner ← chained setting rest
    pure (.call (.call (.name Emit.bindName) [← expr setting e])
      [Emit.giving Emit.unusedName inner])

end

/-- The code of an expression in tail position of a loop. -/
def tail (setting : Setting) (d : ValueDeclaration) : Expr → Except Fault (List Js.Statement)
  | .cond _ condition yes no => do
    let test ← expr setting condition
    let first ← tail setting d yes
    pure [.branch test first (← tail setting d no)]
  | e =>
    match d.selfCall? setting.module e with
    | none => do pure [.give (← expr setting e)]
    | some args => do
      let nexts ← (d.params.zip args).mapM fun arg => do
        pure (Js.Statement.var (Emit.nextName arg.1) (← expr setting arg.2))
      pure (nexts ++
        d.params.map (fun param =>
          .assign (.name (Js.identifier param)) (.name (Emit.nextName param))) ++
        [.again Emit.loopLabel])

/-- The function of the parameter at the index, with those of the later ones inside, and the loop in
the last one. -/
def loopFrom (setting : Setting) (d : ValueDeclaration) (index : Nat) : Except Fault Js.Expr :=
  match d.params[index]? with
  | none => .error .index
  | some param =>
    if index + 1 < d.params.length then do
      pure (Emit.giving (Emit.copyName param) (← loopFrom setting d (index + 1)))
    else do
      let round ← tail setting d d.body
      pure (.function [Emit.copyName param]
        (d.params.map (fun param => .var (Js.identifier param) (.name (Emit.copyName param))) ++
          [.loop Emit.loopLabel round]))
termination_by d.params.length - index

def declaration (options : Options) (setting : Setting) : Declaration → Except Fault Js.Statement
  | .foreign d => pure (.verbatim d.javascript)
  | .value d => do
    let value ←
      if options.loops && d.isTailRecursive setting.module then loopFrom setting d 0
      else do pure (Emit.curried d.params (← expr setting d.body))
    pure (.var (Js.identifier d.name) value)

def emit (options : Options) (m : Module) : Except Fault Js.Statement := do
  let body ← m.orderedDeclarations.mapM (declaration options ⟨m.name, options.directBlocks⟩)
  let helper := if Js.statementsUse Emit.bindName body then [Emit.bindHelper] else []
  let exports := Js.Expr.object (m.declaredNames.map fun name =>
    (name, Js.Expr.name (Js.identifier name)))
  pure (.assign (Js.moduleObject m.name)
    (.call (.paren (.function [] (helper ++ body ++ [.give exports]))) []))

def emitProgram (options : Options) (header : List String) (modules : List Module) :
    Except Fault Js.Program := do
  let blocks ← modules.mapM (emit options)
  let entry := match options.entryModule with
    | some name => [.run (.call (.property (Js.moduleObject name) "main") [])]
    | none => []
  pure ⟨header, blocks ++ entry, options.browserNamespace⟩

section Formed

variable {setting : Setting}

mutual

theorem expr_eq {e : Expr} (formed : e.Formed) :
    expr setting e = .ok (Emit.expr setting e) := by
  cases e with
  | literal place value => exact if_pos formed
  | array place items =>
    have inner : Expr.ListFormed items := formed
    rw [expr, list_eq inner]
    rfl
  | var place name qualifier resolved => rfl
  | app place function argument =>
    rw [expr, expr_eq formed.1, expr_eq formed.2]
    rfl
  | lambda place params body =>
    rw [expr, expr_eq formed.2.2]
    rfl
  | cond place condition yes no =>
    rw [expr, expr_eq formed.1, expr_eq formed.2.1, expr_eq formed.2.2]
    rfl
  | binary place op left right =>
    rw [expr, expr_eq formed.1, expr_eq formed.2]
    rfl
  | negate place operand =>
    have inner : operand.Formed := formed
    rw [expr, expr_eq inner]
    rfl
  | block place statements =>
    have some := Emit.block_has_statements formed.2
    rw [expr, Emit.expr]
    split
    · rw [direct_eq formed.1 some]
      rfl
    · exact chained_eq formed.1 some

theorem list_eq {items : List Expr} (formed : Expr.ListFormed items) :
    list setting items = .ok (Emit.list setting items) := by
  cases items with
  | nil => rfl
  | cons e rest =>
    rw [list, expr_eq formed.1, list_eq formed.2]
    rfl

theorem direct_eq {statements : List Statement} (formed : Expr.StatementsFormed statements)
    (some : statements ≠ []) :
    direct setting statements = .ok (Emit.direct setting statements) := by
  match statements, formed with
  | [], _ => exact absurd rfl some
  | [.bind _ _ e], formed | [.define _ _ e], formed =>
    rw [direct, expr_eq formed.2.1]
    rfl
  | [.run _ e], formed =>
    rw [direct, expr_eq formed.1]
    rfl
  | .bind _ _ e :: second :: rest, formed | .define _ _ e :: second :: rest, formed =>
    rw [direct, expr_eq formed.2.1, direct_eq formed.2.2 (List.cons_ne_nil second rest)]
    · rfl
    · simp
  | .run _ e :: second :: rest, formed =>
    rw [direct, expr_eq formed.1, direct_eq formed.2 (List.cons_ne_nil second rest)]
    · rfl
    · simp

theorem chained_eq {statements : List Statement} (formed : Expr.StatementsFormed statements)
    (some : statements ≠ []) :
    chained setting statements = .ok (Emit.chained setting statements) := by
  match statements, formed with
  | [], _ => exact absurd rfl some
  | [.bind _ _ e], formed | [.define _ _ e], formed => exact expr_eq formed.2.1
  | [.run _ e], formed => exact expr_eq formed.1
  | .bind _ _ e :: second :: rest, formed | .define _ _ e :: second :: rest, formed =>
    rw [chained, expr_eq formed.2.1, chained_eq formed.2.2 (List.cons_ne_nil second rest)]
    · rfl
    · simp
  | .run _ e :: second :: rest, formed =>
    rw [chained, expr_eq formed.1, chained_eq formed.2 (List.cons_ne_nil second rest)]
    · rfl
    · simp

end

-- a block without statements has no shape, and no code either
example : expr ⟨"A", true⟩ (.block ⟨1, 1⟩ []) = .error .index := rfl

variable {d : ValueDeclaration}

theorem tail_eq {e : Expr} (formed : e.Formed) :
    tail setting d e = .ok (Emit.tail setting d e) := by
  induction e using ValueDeclaration.hasTailCall.induct with
  | case1 place condition yes no ihYes ihNo =>
    rw [tail, expr_eq formed.1, ihYes formed.2.1, ihNo formed.2.2]
    rfl
  | case2 e other =>
    rw [Emit.tail_other setting d other, tail.eq_2 setting d e other]
    cases call : d.selfCall? setting.module e with
    | none =>
      dsimp only
      rw [expr_eq formed]
      rfl
    | some args =>
      have given : ∀ arg ∈ args, arg.Formed := by
        rw [← (ValueDeclaration.self_call_eq call).2.1]
        exact Expr.unapply_formed formed
      have nexts : ((d.params.zip args).mapM fun arg => do
          pure (Js.Statement.var (Emit.nextName arg.1) (← expr setting arg.2))) =
            Except.ok ((d.params.zip args).map fun arg =>
              .var (Emit.nextName arg.1) (Emit.expr setting arg.2)) := by
        refine map_ok fun arg member => ?_
        rw [expr_eq (given arg.2 (List.of_mem_zip member).2)]
        rfl
      dsimp only
      rw [nexts]
      rfl

theorem loop_from_eq (formed : d.body.Formed) {index : Nat} (inside : index < d.params.length) :
    loopFrom setting d index = .ok (Emit.loopFunction setting d (d.params.drop index)) := by
  fun_induction loopFrom setting d index with
  | case1 index missing =>
    rw [List.getElem?_eq_none_iff] at missing
    omega
  | case2 index param found more ih =>
    have front : d.params.drop index = param :: d.params.drop (index + 1) := by
      obtain ⟨_, rfl⟩ := List.getElem?_eq_some_iff.mp found
      exact List.drop_eq_getElem_cons inside
    cases later : d.params.drop (index + 1) with
    | nil =>
      rw [List.drop_eq_nil_iff] at later
      omega
    | cons second rest =>
      rw [ih more, front, later]
      rfl
  | case3 index param found last =>
    have front : d.params.drop index = [param] := by
      obtain ⟨_, rfl⟩ := List.getElem?_eq_some_iff.mp found
      rw [List.drop_eq_getElem_cons inside, List.drop_eq_nil_of_le (by omega)]
    rw [tail_eq formed, front]
    rfl

end Formed

theorem declaration_eq (options : Options) (setting : Setting) {d : Declaration}
    (formed : d.Formed) :
    declaration options setting d = .ok (Emit.declaration options setting d) := by
  cases d with
  | foreign f => rfl
  | value d =>
    have body : d.body.Formed := ValueDeclaration.Formed.body formed
    unfold declaration Emit.declaration
    dsimp only
    split
    · rename_i loops
      have some : 0 < d.params.length := by
        refine List.length_pos_iff.mpr fun none => ?_
        simp [ValueDeclaration.isTailRecursive, none] at loops
      rw [loop_from_eq body some, List.drop_zero]
      rfl
    · rw [expr_eq body]
      rfl

theorem emit_eq (options : Options) {m : Module} (formed : m.Formed) :
    emit options m = .ok (m.emit options) := by
  have body : m.orderedDeclarations.mapM (declaration options ⟨m.name, options.directBlocks⟩) =
      .ok (m.orderedDeclarations.map
        (Emit.declaration options ⟨m.name, options.directBlocks⟩)) :=
    map_ok fun d member =>
      declaration_eq options _ (formed d (m.ordered_declarations_subset member))
  unfold emit
  rw [body]
  rfl

theorem emit_program_eq (options : Options) (header : List String) {modules : List Module}
    (formed : ∀ m ∈ modules, m.Formed) :
    emitProgram options header modules = .ok (Module.emitProgram options header modules) := by
  unfold emitProgram
  rw [map_ok fun m member => emit_eq options (formed m member)]
  rfl

end PureJs.Fallible
