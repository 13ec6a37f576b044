import PureJs.Proofs.Program.Checked
import PureJs.Proofs.Program.Fold
import PureJs.Proofs.Syntax.Printable

/-!
The literals of a program. They are made from tokens, names are resolved without touching them, and
folding makes no numbers with a fraction.
-/

namespace PureJs

namespace Expr

mutual

def EachLiteral (wanted : Literal → Prop) : Expr → Prop
  | literal _ value => wanted value
  | array _ items => ListEachLiteral wanted items
  | var _ _ _ _ => True
  | app _ function argument => function.EachLiteral wanted ∧ argument.EachLiteral wanted
  | lambda _ _ body => body.EachLiteral wanted
  | cond _ condition yes no =>
    condition.EachLiteral wanted ∧ yes.EachLiteral wanted ∧ no.EachLiteral wanted
  | binary _ _ left right => left.EachLiteral wanted ∧ right.EachLiteral wanted
  | negate _ operand => operand.EachLiteral wanted
  | block _ statements => StatementsEachLiteral wanted statements

def ListEachLiteral (wanted : Literal → Prop) : List Expr → Prop
  | [] => True
  | e :: rest => e.EachLiteral wanted ∧ ListEachLiteral wanted rest

def StatementsEachLiteral (wanted : Literal → Prop) : List Statement → Prop
  | [] => True
  | .bind _ _ e :: rest | .define _ _ e :: rest | .run _ e :: rest =>
    e.EachLiteral wanted ∧ StatementsEachLiteral wanted rest

end

variable {wanted : Literal → Prop}

section Resolve

variable {lookup : Occurrence → Except Problem (Option String)}

mutual

theorem resolve_literals {e : Expr} (each : e.EachLiteral wanted) (locals : List String) :
    (e.resolveWith lookup locals).EachLiteral wanted := by
  cases e with
  | literal place value => exact each
  | array place items => exact resolve_list_literals each locals
  | var place name qualifier resolved =>
    unfold resolveWith
    split <;> trivial
  | app place function argument | binary place op function argument =>
    exact ⟨resolve_literals each.1 locals, resolve_literals each.2 locals⟩
  | lambda place params body =>
    have inner : body.EachLiteral wanted := each
    exact resolve_literals inner (params ++ locals)
  | cond place condition yes no =>
    exact ⟨resolve_literals each.1 locals, resolve_literals each.2.1 locals,
      resolve_literals each.2.2 locals⟩
  | negate place operand =>
    have inner : operand.EachLiteral wanted := each
    exact resolve_literals inner locals
  | block place statements => exact resolve_statements_literals each locals

theorem resolve_list_literals {items : List Expr} (each : ListEachLiteral wanted items)
    (locals : List String) : ListEachLiteral wanted (resolveList lookup locals items) := by
  cases items with
  | nil => trivial
  | cons e rest => exact ⟨resolve_literals each.1 locals, resolve_list_literals each.2 locals⟩

theorem resolve_statements_literals {statements : List Statement}
    (each : StatementsEachLiteral wanted statements) (locals : List String) :
    StatementsEachLiteral wanted (resolveStatements lookup locals statements) := by
  match statements, each with
  | [], _ => trivial
  | .bind _ name _ :: rest, each | .define _ name _ :: rest, each =>
    exact ⟨resolve_literals each.1 locals, resolve_statements_literals each.2 (name :: locals)⟩
  | .run _ _ :: rest, each =>
    exact ⟨resolve_literals each.1 locals, resolve_statements_literals each.2 locals⟩

end

end Resolve

def Foldable (wanted : Literal → Prop) : Prop :=
  (∀ n, wanted (.integer n)) ∧ (∀ value, wanted (.string value)) ∧ ∀ value, wanted (.bool value)

theorem combine_literal [Simplifier] (foldable : Foldable wanted) {op : Operator}
    {left right value : Literal}
    (known : left.combine? op right = some value) : wanted value := by
  cases value with
  | integer n => exact foldable.1 n
  | string value => exact foldable.2.1 value
  | bool value => exact foldable.2.2 value
  | number text =>
    unfold Literal.combine? at known
    split at known
    · split at known
      · obtain ⟨known, -⟩ := Option.filter_eq_some_iff.mp known
        rcases integers_give known with ⟨_, ⟨⟩⟩ | ⟨_, ⟨⟩⟩
      · cases known
    · obtain ⟨_, ⟨⟩⟩ := bools_give known
    · split at known <;> cases known
    · cases known

theorem fold_binary_literals [Simplifier] (foldable : Foldable wanted) {place : Position}
    {op : Operator}
    {left right : Expr} (first : left.EachLiteral wanted) (second : right.EachLiteral wanted) :
    (foldBinary place op left right).EachLiteral wanted := by
  unfold foldBinary
  split
  · split
    · rename_i known
      exact combine_literal foldable known
    · exact ⟨first, second⟩
  · exact ⟨first, second⟩

theorem fold_negate_literals (foldable : Foldable wanted) {place : Position} {operand : Expr}
    (each : operand.EachLiteral wanted) : (foldNegate place operand).EachLiteral wanted := by
  unfold foldNegate
  split
  · exact foldable.1 _
  · exact each

theorem fold_cond_literals {place : Position} {condition yes no : Expr}
    (first : condition.EachLiteral wanted) (second : yes.EachLiteral wanted)
    (third : no.EachLiteral wanted) : (foldCond place condition yes no).EachLiteral wanted := by
  unfold foldCond
  split
  · split
    · exact second
    · exact third
  · exact ⟨first, second, third⟩

mutual

theorem fold_literals [Simplifier] (foldable : Foldable wanted) {e : Expr}
    (each : e.EachLiteral wanted) :
    e.fold.EachLiteral wanted := by
  cases e with
  | literal place value => exact each
  | array place items => exact fold_list_literals foldable each
  | var place name qualifier resolved => trivial
  | app place function argument =>
    exact ⟨fold_literals foldable each.1, fold_literals foldable each.2⟩
  | lambda place params body =>
    show body.fold.EachLiteral wanted
    exact fold_literals foldable each
  | cond place condition yes no =>
    exact fold_cond_literals (fold_literals foldable each.1) (fold_literals foldable each.2.1)
      (fold_literals foldable each.2.2)
  | binary place op left right =>
    exact fold_binary_literals foldable (fold_literals foldable each.1)
      (fold_literals foldable each.2)
  | negate place operand =>
    have inner : operand.EachLiteral wanted := each
    exact fold_negate_literals foldable (fold_literals foldable inner)
  | block place statements => exact fold_statements_literals foldable each

theorem fold_list_literals [Simplifier] (foldable : Foldable wanted) {items : List Expr}
    (each : ListEachLiteral wanted items) : ListEachLiteral wanted (foldList items) := by
  cases items with
  | nil => trivial
  | cons e rest => exact ⟨fold_literals foldable each.1, fold_list_literals foldable each.2⟩

theorem fold_statements_literals [Simplifier] (foldable : Foldable wanted)
    {statements : List Statement}
    (each : StatementsEachLiteral wanted statements) :
    StatementsEachLiteral wanted (foldStatements statements) := by
  match statements, each with
  | [], _ => trivial
  | .bind .. :: rest, each | .define .. :: rest, each | .run .. :: rest, each =>
    exact ⟨fold_literals foldable each.1, fold_statements_literals foldable each.2⟩

end

/-! From the tokens on -/

def MakesEach (wanted : Literal → Prop) (tokens : List Token) : Prop :=
  ∀ t ∈ tokens, ∀ e : Expr, e.Leaf t → e.EachLiteral wanted

mutual

theorem laid_each {e : Expr} {tokens : List Token} :
    e.LaidOut tokens → MakesEach wanted tokens → e.EachLiteral wanted
  | .leaf leaf, makes => makes _ (List.mem_singleton_self _) _ leaf
  | .paren _ _ laid, makes => laid_each laid fun t member => makes t (by simp [member])
  | .array _ _ laid, makes => laid_items_each laid fun t member => makes t (by simp [member])
  | .app first second, makes =>
    ⟨laid_each first fun t member => makes t (by simp [member]),
      laid_each second fun t member => makes t (by simp [member])⟩
  | .lambda _ _ _ _ laid, makes => by
    have inner := laid_each laid fun t member => makes t (by simp [member])
    exact inner
  | .cond _ _ _ test left right, makes =>
    ⟨laid_each test fun t member => makes t (by simp [member]),
      laid_each left fun t member => makes t (by simp [member]),
      laid_each right fun t member => makes t (by simp [member])⟩
  | .binary _ first second, makes =>
    ⟨laid_each first fun t member => makes t (by simp [member]),
      laid_each second fun t member => makes t (by simp [member])⟩
  | .negate _ laid, makes => by
    have inner := laid_each laid fun t member => makes t (List.mem_cons_of_mem _ member)
    exact inner
  | .block _ laid, makes =>
    laid_statements_each laid fun t member => makes t (List.mem_cons_of_mem _ member)

theorem laid_items_each {items : List Expr} {tokens : List Token} :
    ItemsLaidOut items tokens → MakesEach wanted tokens → ListEachLiteral wanted items
  | .nil, _ => trivial
  | .last laid, makes => ⟨laid_each laid makes, trivial⟩
  | .next laid _ later, makes =>
    ⟨laid_each laid fun t member => makes t (by simp [member]),
      laid_items_each later fun t member => makes t (by simp [member])⟩

theorem laid_statement_each {s : Statement} {tokens : List Token} :
    s.LaidOut tokens → MakesEach wanted tokens → s.expr.EachLiteral wanted
  | .bind _ _ laid, makes => laid_each laid fun t member => makes t (by simp [member])
  | .define _ _ _ _ laid, makes => by
    have inner := laid_each laid fun t member => makes t (by simp [member])
    show Expr.EachLiteral wanted (if _ then _ else _)
    split <;> exact inner
  | .run laid, makes => laid_each laid makes

theorem laid_statements_each {column : Nat} {statements : List Statement} {tokens : List Token} :
    StatementsLaidOut column statements tokens → MakesEach wanted tokens →
      StatementsEachLiteral wanted statements
  | .last (s := s) laid _, makes => by
    have inner := laid_statement_each laid makes
    cases s <;> exact ⟨inner, trivial⟩
  | .next (s := s) laid _ later, makes => by
    have inner := laid_statement_each laid fun t member =>
      makes t (List.mem_append_left _ member)
    have others := laid_statements_each later fun t member => makes t (by simp [member])
    cases s <;> exact ⟨inner, others⟩

end

def Makes (wanted : Literal → Prop) (tokens : List Token) : Prop :=
  ∀ t ∈ tokens, t.kind = .number → wanted (.number t.value)

theorem Makes.each (foldable : Foldable wanted) {tokens : List Token}
    (makes : Makes wanted tokens) : MakesEach wanted tokens := by
  intro t member e leaf
  cases leaf with
  | integer => exact foldable.1 _
  | number kind => exact makes t member kind
  | string => exact foldable.2.1 _
  | yes | no => exact foldable.2.2 _
  | name | qualified => trivial

theorem laid_literals (foldable : Foldable wanted) {e : Expr} {tokens : List Token}
    (laid : e.LaidOut tokens) (makes : Makes wanted tokens) : e.EachLiteral wanted :=
  laid_each laid (makes.each foldable)

end Expr

def Module.EachLiteral (wanted : Literal → Prop) (m : Module) : Prop :=
  ∀ d, Declaration.value d ∈ m.declarations → d.body.EachLiteral wanted

theorem Module.check_literals {wanted : Literal → Prop} {options : Options}
    {modules ordered : List Module} (each : ∀ m ∈ modules, m.EachLiteral wanted)
    (checked : check options modules = .ok ordered) : ∀ m ∈ ordered, m.EachLiteral wanted := by
  obtain ⟨sorted, accepted, rfl⟩ := check_accepted checked
  rw [List.forall_mem_map]
  intro source there d declared
  obtain ⟨written, listed, rfl⟩ := resolve_values declared
  obtain ⟨origin, member, _, same⟩ := add_prelude_declarations (accepted.order.members source there)
  exact Expr.resolve_literals (each origin member written (same ▸ listed)) written.params

end PureJs
