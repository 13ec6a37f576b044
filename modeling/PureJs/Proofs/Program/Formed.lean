import PureJs.Proofs.Program.Checked
import PureJs.Proofs.Program.Fold
import PureJs.Proofs.Syntax.FormedModules

/-!
Programs keep the shape that they are read with: resolving names and folding literals change neither
the names nor the ends of do blocks.
-/

namespace PureJs

namespace Expr

section Resolve

variable {lookup : Occurrence → Except Problem (Option String)}

theorem resolve_last_runs (locals : List String) (statements : List Statement) :
    (resolveStatements lookup locals statements).getLast?.any Statement.isRun =
      statements.getLast?.any Statement.isRun := by
  match statements with
  | [] => rfl
  | [.bind ..] | [.define ..] | [.run ..] => rfl
  | .bind _ name _ :: second :: rest | .define _ name _ :: second :: rest =>
    have others := resolve_last_runs (name :: locals) (second :: rest)
    cases second <;> simpa [resolveStatements] using others
  | .run _ _ :: second :: rest =>
    have others := resolve_last_runs locals (second :: rest)
    cases second <;> simpa [resolveStatements] using others

mutual

theorem resolve_formed {e : Expr} (formed : e.Formed) (locals : List String) :
    (e.resolveWith lookup locals).Formed := by
  cases e with
  | literal place value => exact formed
  | array place items => exact resolve_list_formed formed locals
  | var place name qualifier resolved =>
    unfold resolveWith
    split <;> exact formed
  | app place function argument =>
    exact ⟨resolve_formed formed.1 locals, resolve_formed formed.2 locals⟩
  | lambda place params body =>
    exact ⟨formed.1, formed.2.1, resolve_formed formed.2.2 (params ++ locals)⟩
  | cond place condition yes no =>
    exact ⟨resolve_formed formed.1 locals, resolve_formed formed.2.1 locals,
      resolve_formed formed.2.2 locals⟩
  | binary place op left right =>
    exact ⟨resolve_formed formed.1 locals, resolve_formed formed.2 locals⟩
  | negate place operand =>
    have inner : operand.Formed := formed
    exact resolve_formed inner locals
  | block place statements =>
    exact ⟨resolve_statements_formed formed.1 locals,
      (resolve_last_runs locals statements).trans formed.2⟩

theorem resolve_list_formed {items : List Expr} (formed : ListFormed items)
    (locals : List String) : ListFormed (resolveList lookup locals items) := by
  cases items with
  | nil => trivial
  | cons e rest => exact ⟨resolve_formed formed.1 locals, resolve_list_formed formed.2 locals⟩

theorem resolve_statements_formed {statements : List Statement}
    (formed : StatementsFormed statements) (locals : List String) :
    StatementsFormed (resolveStatements lookup locals statements) := by
  match statements, formed with
  | [], _ => trivial
  | .bind _ name _ :: rest, formed | .define _ name _ :: rest, formed =>
    exact ⟨formed.1, resolve_formed formed.2.1 locals,
      resolve_statements_formed formed.2.2 (name :: locals)⟩
  | .run _ _ :: rest, formed =>
    exact ⟨resolve_formed formed.1 locals, resolve_statements_formed formed.2 locals⟩

end

end Resolve

mutual

theorem occurrences_lexical {e : Expr} (formed : e.Formed) {locals : List String}
    (lexical : ∀ x ∈ locals, Lexical x) :
    ∀ use ∈ e.occurrences locals, Lexical use.name ∧ ∀ x ∈ use.locals, Lexical x := by
  cases e with
  | literal place value => exact fun use none => absurd none List.not_mem_nil
  | array place items => exact list_occurrences_lexical formed lexical
  | var place name qualifier resolved =>
    intro use only
    rw [List.mem_singleton.mp only]
    exact ⟨formed, lexical⟩
  | app place function argument =>
    exact List.forall_mem_append.mpr
      ⟨occurrences_lexical formed.1 lexical, occurrences_lexical formed.2 lexical⟩
  | lambda place params body =>
    exact occurrences_lexical formed.2.2 (List.forall_mem_append.mpr ⟨formed.2.1, lexical⟩)
  | cond place condition yes no =>
    exact List.forall_mem_append.mpr ⟨List.forall_mem_append.mpr
      ⟨occurrences_lexical formed.1 lexical, occurrences_lexical formed.2.1 lexical⟩,
      occurrences_lexical formed.2.2 lexical⟩
  | binary place op left right =>
    exact List.forall_mem_append.mpr
      ⟨occurrences_lexical formed.1 lexical, occurrences_lexical formed.2 lexical⟩
  | negate place operand =>
    have inner : operand.Formed := formed
    exact occurrences_lexical inner lexical
  | block place statements => exact statement_occurrences_lexical formed.1 lexical

theorem list_occurrences_lexical {items : List Expr} (formed : ListFormed items)
    {locals : List String} (lexical : ∀ x ∈ locals, Lexical x) :
    ∀ use ∈ listOccurrences locals items, Lexical use.name ∧ ∀ x ∈ use.locals, Lexical x := by
  cases items with
  | nil => exact fun use none => absurd none List.not_mem_nil
  | cons e rest =>
    exact List.forall_mem_append.mpr
      ⟨occurrences_lexical formed.1 lexical, list_occurrences_lexical formed.2 lexical⟩

theorem statement_occurrences_lexical {statements : List Statement}
    (formed : StatementsFormed statements) {locals : List String}
    (lexical : ∀ x ∈ locals, Lexical x) :
    ∀ use ∈ statementOccurrences locals statements,
      Lexical use.name ∧ ∀ x ∈ use.locals, Lexical x := by
  match statements, formed with
  | [], _ => exact fun use none => absurd none List.not_mem_nil
  | .bind _ name _ :: rest, formed | .define _ name _ :: rest, formed =>
    exact List.forall_mem_append.mpr ⟨occurrences_lexical formed.2.1 lexical,
      statement_occurrences_lexical formed.2.2 (List.forall_mem_cons.mpr ⟨formed.1, lexical⟩)⟩
  | .run _ _ :: rest, formed =>
    exact List.forall_mem_append.mpr
      ⟨occurrences_lexical formed.1 lexical, statement_occurrences_lexical formed.2 lexical⟩

end

end Expr

namespace Module

theorem resolve_module_formed {m : Module} (formed : m.Formed) (modules : List Module) :
    (resolve modules m).Formed := by
  intro d member
  obtain ⟨source, inside, same⟩ := List.mem_map.mp member
  have whole := formed source inside
  cases source with
  | value v =>
    subst same
    exact ⟨whole.name, whole.params, Expr.resolve_formed whole.body v.params⟩
  | foreign f =>
    subst same
    exact whole

theorem optimize_formed [Simplifier] {m : Module} (formed : m.Formed) : m.optimize.Formed := by
  intro d member
  obtain ⟨source, inside, same⟩ := List.mem_map.mp member
  have whole := formed source inside
  cases source with
  | value v =>
    subst same
    exact ⟨whole.name, whole.params, Expr.fold_formed whole.body⟩
  | foreign f =>
    subst same
    exact whole

theorem check_formed {options : Options} {modules ordered : List Module}
    (formed : ∀ m ∈ modules, m.Formed) (checked : check options modules = .ok ordered) :
    ∀ m ∈ ordered, m.Formed := by
  obtain ⟨sorted, accepted, rfl⟩ := check_accepted checked
  intro m member
  obtain ⟨source, inside, rfl⟩ := List.mem_map.mp member
  apply resolve_module_formed
  intro d declared
  obtain ⟨origin, there, _, same⟩ := add_prelude_declarations (accepted.order.members source inside)
  exact formed origin there d (same ▸ declared)

end Module

theorem optimized_keeps_formed [Simplifier] {options : Options} {ordered : List Module}
    (formed : ∀ m ∈ ordered, m.Formed) : ∀ m ∈ optimized options ordered, m.Formed := by
  unfold optimized
  split
  · exact formed
  · intro m member
    obtain ⟨source, inside, rfl⟩ := List.mem_map.mp member
    exact Module.optimize_formed (formed source inside)

theorem optimized_formed [Simplifier] {options : Options} {units : List SourceUnit}
    {modules ordered : List Module} (read : parseUnits units = .ok modules)
    (checked : Module.check options modules = .ok ordered) :
    ∀ m ∈ optimized options ordered, m.Formed :=
  optimized_keeps_formed (Module.check_formed (parseUnits_formed read) checked)

theorem optimized_params_distinct [Simplifier] {options : Options} {modules ordered : List Module}
    (checked : Module.check options modules = .ok ordered) {m : Module}
    (member : m ∈ optimized options ordered) {d : ValueDeclaration}
    (value : Declaration.value d ∈ m.declarations) : d.params.Nodup := by
  obtain ⟨sorted, accepted, rfl⟩ := Module.check_accepted checked
  have resolved : ∀ {source : Module}, source ∈ sorted → ∀ {v : ValueDeclaration},
      Declaration.value v ∈
        (Module.resolve (Module.addPrelude options modules) source).declarations →
          v.params.Nodup := by
    intro source there v declared
    obtain ⟨written, listed, same⟩ := Module.resolve_values declared
    rw [same]
    exact accepted.params source there written listed
  unfold optimized at member
  split at member
  · obtain ⟨source, there, rfl⟩ := List.mem_map.mp member
    exact resolved there value
  · obtain ⟨plain, listed, rfl⟩ := List.mem_map.mp member
    obtain ⟨source, there, rfl⟩ := List.mem_map.mp listed
    obtain ⟨origin, declared, same⟩ := List.mem_map.mp value
    cases origin with
    | foreign f => cases same
    | value v =>
      cases same
      exact resolved (v := v) there declared

/-- What a name in the code of an accepted program refers to is what it is found to be. -/
theorem optimized_found [Simplifier] {options : Options} {modules ordered : List Module}
    (checked : Module.check options modules = .ok ordered) {m : Module}
    (member : m ∈ optimized options ordered) {d : ValueDeclaration}
    (value : Declaration.value d ∈ m.declarations) {use : Occurrence}
    (inside : use ∈ d.body.occurrences d.params) :
    ∃ source, source.name = m.name ∧
      Module.lookup (Module.addPrelude options modules) source use = .ok use.resolved := by
  obtain ⟨sorted, accepted, rfl⟩ := Module.check_accepted checked
  unfold optimized at member
  split at member
  · obtain ⟨source, there, rfl⟩ := List.mem_map.mp member
    exact ⟨source, rfl, accepted.resolved there value inside⟩
  · obtain ⟨resolved, listed, rfl⟩ := List.mem_map.mp member
    obtain ⟨source, there, rfl⟩ := List.mem_map.mp listed
    obtain ⟨origin, declared, same⟩ := List.mem_map.mp value
    cases origin with
    | foreign f => cases same
    | value v =>
      cases same
      exact ⟨source, rfl, accepted.resolved there declared
        ((Expr.fold_occurrences v.params v.body).subset inside)⟩

def hasValue [Simplifier] (options : Options) (units : List SourceUnit)
    (test : Module → ValueDeclaration → Bool) : Bool :=
  match parseUnits units with
  | .error _ => false
  | .ok modules =>
    match Module.check options modules with
    | .error _ => false
    | .ok ordered => (optimized options ordered).any fun m =>
        m.declarations.any fun d => d.value?.any (test m)

theorem has_value [Simplifier] {options : Options} {units : List SourceUnit}
    {test : Module → ValueDeclaration → Bool} (has : hasValue options units test = true) :
    ∃ modules ordered, parseUnits units = .ok modules ∧ Module.check options modules = .ok ordered ∧
      ∃ m ∈ optimized options ordered, ∃ d, Declaration.value d ∈ m.declarations ∧
        test m d = true := by
  unfold hasValue at has
  split at has
  · cases has
  · rename_i modules read
    split at has
    · cases has
    · rename_i ordered checked
      obtain ⟨m, member, inside⟩ := List.any_eq_true.mp has
      obtain ⟨d, declared, passes⟩ := List.any_eq_true.mp inside
      cases d with
      | foreign f => cases passes
      | value d => exact ⟨modules, ordered, read, checked, m, member, d, declared, passes⟩

end PureJs
