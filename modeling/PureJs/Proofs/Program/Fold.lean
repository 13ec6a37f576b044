import Mathlib.Algebra.Group.Nat.Defs
import PureJs.Program.Fold
import PureJs.Proofs.Program.Scope
import PureJs.Proofs.Syntax.Formed

/-!
Folding only takes names away: those that are left are used in the same order, under the same
binders and for the same values.
-/

namespace PureJs.Expr

theorem fold_binary_occurrences [Simplifier] (locals : List String) (place : Position)
    (op : Operator)
    (left right : Expr) :
    ((foldBinary place op left right).occurrences locals).Sublist
      (left.occurrences locals ++ right.occurrences locals) := by
  unfold foldBinary
  split
  · split
    · exact List.nil_sublist _
    · exact List.Sublist.refl _
  · exact List.Sublist.refl _

theorem fold_negate_occurrences (locals : List String) (place : Position) (operand : Expr) :
    ((foldNegate place operand).occurrences locals).Sublist (operand.occurrences locals) := by
  unfold foldNegate
  split
  · exact List.nil_sublist _
  · exact List.Sublist.refl _

theorem fold_cond_occurrences (locals : List String) (place : Position)
    (condition yes no : Expr) :
    ((foldCond place condition yes no).occurrences locals).Sublist
      (condition.occurrences locals ++ yes.occurrences locals ++ no.occurrences locals) := by
  unfold foldCond
  split
  · split
    · exact (List.sublist_append_right _ _).trans (List.sublist_append_left _ _)
    · exact List.sublist_append_right _ _
  · exact List.Sublist.refl _

mutual

theorem fold_occurrences [Simplifier] (locals : List String) (e : Expr) :
    (e.fold.occurrences locals).Sublist (e.occurrences locals) := by
  cases e with
  | literal place value => exact List.Sublist.refl _
  | array place items => exact fold_list_occurrences locals items
  | var place name qualifier resolved => exact List.Sublist.refl _
  | app place function argument =>
    exact (fold_occurrences locals function).append (fold_occurrences locals argument)
  | lambda place params body => exact fold_occurrences (params ++ locals) body
  | cond place condition yes no =>
    exact (fold_cond_occurrences locals place _ _ _).trans
      (((fold_occurrences locals condition).append (fold_occurrences locals yes)).append
        (fold_occurrences locals no))
  | binary place op left right =>
    exact (fold_binary_occurrences locals place op _ _).trans
      ((fold_occurrences locals left).append (fold_occurrences locals right))
  | negate place operand =>
    exact (fold_negate_occurrences locals place _).trans (fold_occurrences locals operand)
  | block place statements => exact fold_statement_occurrences locals statements

theorem fold_list_occurrences [Simplifier] (locals : List String) (items : List Expr) :
    (listOccurrences locals (foldList items)).Sublist (listOccurrences locals items) := by
  cases items with
  | nil => exact List.Sublist.refl _
  | cons e rest =>
    exact (fold_occurrences locals e).append (fold_list_occurrences locals rest)

theorem fold_statement_occurrences [Simplifier] (locals : List String)
    (statements : List Statement) :
    (statementOccurrences locals (foldStatements statements)).Sublist
      (statementOccurrences locals statements) := by
  match statements with
  | [] => exact List.Sublist.refl _
  | .bind _ name e :: rest | .define _ name e :: rest =>
    exact (fold_occurrences locals e).append (fold_statement_occurrences (name :: locals) rest)
  | .run _ e :: rest =>
    exact (fold_occurrences locals e).append (fold_statement_occurrences locals rest)

end

theorem fold_references [Simplifier] {e : Expr} : e.fold.references ⊆ e.references := by
  intro ⟨target, name⟩ member
  obtain ⟨use, inside, same⟩ := (mem_references []).mp member
  exact (mem_references []).mpr ⟨use, (fold_occurrences [] e).subset inside, same⟩

section Formed

theorem exact_fits {n : Int} (exact : isExact n = true) : (Literal.integer n).Fits := by
  have most : (2 : Nat) ^ 53 < 10 ^ Text.digitLimit :=
    Nat.lt_of_lt_of_le (by decide : 2 ^ 53 < 10 ^ 16)
      (Nat.pow_le_pow_right (by decide) (by decide))
  have limit : exactLimit = 9007199254740992 := rfl
  unfold isExact at exact
  rw [limit] at exact
  simp only [Bool.and_eq_true, decide_eq_true_eq] at exact
  exact Nat.lt_of_le_of_lt (by omega) most

theorem bools_give [Simplifier] {op : Operator} {a b : Bool} {value : Literal}
    (known : op.onBools? a b = some value) : ∃ c, value = .bool c := by
  cases op
  case and | or | equal | notEqual =>
    obtain ⟨c, -, rfl⟩ := Option.map_eq_some_iff.mp known
    exact ⟨c, rfl⟩
  all_goals cases known

theorem integers_give [Simplifier] {op : Operator} {a b : Int} {value : Literal}
    (known : op.onIntegers? a b = some value) :
    (∃ n, value = .integer n) ∨ ∃ c, value = .bool c := by
  cases op
  case add | sub | mul =>
    obtain ⟨n, -, rfl⟩ := Option.map_eq_some_iff.mp known
    exact .inl ⟨n, rfl⟩
  case equal | notEqual | less | lessEqual | greater | greaterEqual =>
    obtain ⟨c, -, rfl⟩ := Option.map_eq_some_iff.mp known
    exact .inr ⟨c, rfl⟩
  all_goals cases known

theorem combine_fits [Simplifier] {op : Operator} {left right value : Literal}
    (known : left.combine? op right = some value) : value.Fits := by
  cases value with
  | number text => trivial
  | string value => trivial
  | bool value => trivial
  | integer n =>
    unfold Literal.combine? at known
    split at known
    · split at known
      · have exact := (Option.filter_eq_some_iff.mp known).2
        simp only [Literal.isInexact, Bool.not_not] at exact
        exact exact_fits exact
      · cases known
    · obtain ⟨_, ⟨⟩⟩ := bools_give known
    · split at known <;> cases known
    · cases known

theorem fold_binary_formed [Simplifier] {place : Position} {op : Operator} {left right : Expr}
    (first : left.Formed) (second : right.Formed) : (foldBinary place op left right).Formed := by
  unfold foldBinary
  split
  · split
    · rename_i known
      exact combine_fits known
    · exact ⟨first, second⟩
  · exact ⟨first, second⟩

theorem fold_negate_formed {place : Position} {operand : Expr} (formed : operand.Formed) :
    (foldNegate place operand).Formed := by
  unfold foldNegate
  split
  · rename_i n
    show (-n).natAbs < _
    rw [Int.natAbs_neg]
    exact formed
  · exact formed

theorem fold_cond_formed {place : Position} {condition yes no : Expr} (first : condition.Formed)
    (second : yes.Formed) (third : no.Formed) : (foldCond place condition yes no).Formed := by
  unfold foldCond
  split
  · split
    · exact second
    · exact third
  · exact ⟨first, second, third⟩

theorem fold_last_runs [Simplifier] (statements : List Statement) :
    (foldStatements statements).getLast?.any Statement.isRun =
      statements.getLast?.any Statement.isRun := by
  match statements with
  | [] => rfl
  | [.bind ..] | [.define ..] | [.run ..] => rfl
  | .bind .. :: second :: rest | .define .. :: second :: rest | .run .. :: second :: rest =>
    have others := fold_last_runs (second :: rest)
    cases second <;> simpa [foldStatements] using others

mutual

theorem fold_formed [Simplifier] {e : Expr} (formed : e.Formed) : e.fold.Formed := by
  cases e with
  | literal place value => exact formed
  | array place items => exact fold_list_formed formed
  | var place name qualifier resolved => exact formed
  | app place function argument => exact ⟨fold_formed formed.1, fold_formed formed.2⟩
  | lambda place params body => exact ⟨formed.1, formed.2.1, fold_formed formed.2.2⟩
  | cond place condition yes no =>
    exact fold_cond_formed (fold_formed formed.1) (fold_formed formed.2.1) (fold_formed formed.2.2)
  | binary place op left right =>
    exact fold_binary_formed (fold_formed formed.1) (fold_formed formed.2)
  | negate place operand => exact fold_negate_formed (fold_formed formed)
  | block place statements =>
    exact ⟨fold_statements_formed formed.1, (fold_last_runs statements).trans formed.2⟩

theorem fold_list_formed [Simplifier] {items : List Expr} (formed : ListFormed items) :
    ListFormed (foldList items) := by
  cases items with
  | nil => trivial
  | cons e rest => exact ⟨fold_formed formed.1, fold_list_formed formed.2⟩

theorem fold_statements_formed [Simplifier] {statements : List Statement}
    (formed : StatementsFormed statements) :
    StatementsFormed (foldStatements statements) := by
  match statements, formed with
  | [], _ => trivial
  | .bind .. :: rest, formed | .define .. :: rest, formed =>
    exact ⟨formed.1, fold_formed formed.2.1, fold_statements_formed formed.2.2⟩
  | .run .. :: rest, formed => exact ⟨fold_formed formed.1, fold_statements_formed formed.2⟩

end

end Formed

end PureJs.Expr
