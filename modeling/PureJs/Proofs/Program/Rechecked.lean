import PureJs.Proofs.Program.InputOrder

/-!
What the check has made of a program is a program that it leaves as it is. All imports of the
Prelude are there, the modules stand in order, and every name has been given what it is found to be,
so that none of the steps finds anything left to do.
-/

namespace PureJs

namespace Expr

section Settled

variable {lookup : Occurrence → Except Problem (Option String)}

mutual

theorem resolve_settled {locals : List String} {e : Expr}
    (settled : ∀ use ∈ e.occurrences locals, lookup use = .ok use.resolved) :
    e.resolveWith lookup locals = e := by
  cases e with
  | literal place value => rfl
  | array place items => rw [resolveWith, resolve_list_settled settled]
  | var place name qualifier resolved =>
    have found : lookup ⟨place, name, qualifier, resolved, locals⟩ = .ok resolved :=
      settled _ List.mem_cons_self
    rw [resolveWith, found]
  | app place function argument =>
    obtain ⟨first, second⟩ := List.forall_mem_append.mp settled
    rw [resolveWith, resolve_settled first, resolve_settled second]
  | lambda place params body =>
    have inner : ∀ use ∈ body.occurrences (params ++ locals), lookup use = .ok use.resolved :=
      settled
    rw [resolveWith, resolve_settled inner]
  | cond place condition yes no =>
    obtain ⟨front, third⟩ := List.forall_mem_append.mp settled
    obtain ⟨first, second⟩ := List.forall_mem_append.mp front
    rw [resolveWith, resolve_settled first, resolve_settled second, resolve_settled third]
  | binary place op left right =>
    obtain ⟨first, second⟩ := List.forall_mem_append.mp settled
    rw [resolveWith, resolve_settled first, resolve_settled second]
  | negate place operand =>
    have inner : ∀ use ∈ operand.occurrences locals, lookup use = .ok use.resolved := settled
    rw [resolveWith, resolve_settled inner]
  | block place statements => rw [resolveWith, resolve_statements_settled settled]

theorem resolve_list_settled {locals : List String} {items : List Expr}
    (settled : ∀ use ∈ listOccurrences locals items, lookup use = .ok use.resolved) :
    resolveList lookup locals items = items := by
  cases items with
  | nil => rfl
  | cons e rest =>
    obtain ⟨first, others⟩ := List.forall_mem_append.mp settled
    rw [resolveList, resolve_settled first, resolve_list_settled others]

theorem resolve_statements_settled {locals : List String} {statements : List Statement}
    (settled : ∀ use ∈ statementOccurrences locals statements, lookup use = .ok use.resolved) :
    resolveStatements lookup locals statements = statements := by
  match statements with
  | [] => rfl
  | .bind _ name e :: rest | .define _ name e :: rest | .run _ e :: rest =>
    obtain ⟨first, others⟩ := List.forall_mem_append.mp settled
    rw [resolveStatements, resolve_settled first, resolve_statements_settled others]

end

end Settled

end Expr

namespace Module

variable {options : Options} {modules : List Module}

theorem InOrder.map {change : Module → Module} (name : ∀ m, (change m).name = m.name)
    (imports : ∀ m, (change m).importedModules = m.importedModules) (order : InOrder modules) :
    InOrder (modules.map change) := by
  intro before m after split imported member reached
  obtain ⟨front, behind, rfl, rfl, second⟩ := List.map_eq_append_iff.mp split
  obtain ⟨source, back, rfl, rfl, rfl⟩ := List.map_eq_cons_iff.mp second
  obtain ⟨other, inside, rfl⟩ := List.mem_map.mp member
  rw [name, imports] at reached
  exact List.mem_map_of_mem (order front source back rfl other inside reached)

theorem with_prelude_present {program : List Module} {m : Module}
    (there : m.Imports options program preludeName → preludeName ∈ m.importedModules) :
    withPrelude options program m = m := by
  unfold withPrelude
  rw [if_neg]
  rintro ⟨wanted, present, other, missing⟩
  exact missing (there (Or.inr ⟨rfl, wanted, other, present⟩))

theorem lookup_congr {others : List Module} {m other : Module}
    (declared : declares others = declares modules) (name : other.name = m.name)
    (imports : other.importedModules = m.importedModules)
    (names : other.declaredNames = m.declaredNames) :
    lookup others other = lookup modules m := by
  funext use
  unfold lookup exporters
  rw [declared, name, imports, names]

theorem WellDeclared.resolve {m : Module} (whole : m.WellDeclared) :
    (resolve modules m).WellDeclared := by
  refine ⟨?_, ?_, whole.signed, ?_⟩
  · rw [resolve_declared_names]
    exact whole.declared
  · intro d member
    obtain ⟨source, declared, rfl⟩ := resolve_values member
    exact whole.params source declared
  · intro s signed
    obtain ⟨d, declared, named⟩ := whole.defined s signed
    exact ⟨_, List.mem_map_of_mem declared, named⟩

section Checked

variable {program sorted : List Module}

theorem declares_resolved (perm : sorted.Perm program) :
    declares (sorted.map (resolve program)) = declares program := by
  rw [← declares_perm perm]
  funext target name
  unfold declares
  rw [List.any_map]
  simp only [Function.comp_def, resolve_declared_names]
  rfl

theorem lookup_resolved (perm : sorted.Perm program) (m : Module) :
    lookup (sorted.map (resolve program)) (resolve program m) = lookup program m :=
  lookup_congr (declares_resolved perm) rfl rfl (resolve_declared_names program m)

theorem Accepted.resolve_again (accepted : Accepted program sorted) {m : Module}
    (member : m ∈ sorted) :
    resolve (sorted.map (resolve program)) (resolve program m) = resolve program m := by
  have perm := accepted.order.perm accepted.distinct
  have same : (resolve (sorted.map (resolve program)) (resolve program m)).declarations =
      (resolve program m).declarations := by
    refine (List.map_congr_left ?_).trans (List.map_id _)
    intro d declared
    cases d with
    | foreign f => rfl
    | value d =>
      have settled : ∀ use ∈ d.body.occurrences d.params,
          lookup program m use = .ok use.resolved := fun use => accepted.resolved member declared
      rw [← lookup_resolved perm] at settled
      simp only [Expr.resolve_settled settled, id]
  calc resolve (sorted.map (resolve program)) (resolve program m)
    _ = { resolve program m with declarations := (resolve program m).declarations } := by
      rw [← same]
      rfl
    _ = resolve program m := rfl

theorem Accepted.findings_again (accepted : Accepted program sorted) {m : Module}
    (member : m ∈ sorted) (fine : findings program m = []) :
    findings (sorted.map (resolve program)) (resolve program m) = [] := by
  rw [findings_nil_iff, lookup_resolved (accepted.order.perm accepted.distinct)]
  refine ⟨(findings_nil_iff.mp fine).1.resolve, ?_⟩
  intro d declared use inside
  exact ⟨_, accepted.resolved member declared inside⟩

end Checked

theorem add_prelude_again {sorted : List Module} (perm : sorted.Perm (addPrelude options modules)) :
    addPrelude options (sorted.map (resolve (addPrelude options modules))) =
      sorted.map (resolve (addPrelude options modules)) := by
  have names : (sorted.map (resolve (addPrelude options modules))).map Module.name =
      sorted.map Module.name := List.map_map
  rw [add_prelude_eq]
  refine (List.map_congr_left ?_).trans (List.map_id _)
  intro m member
  obtain ⟨middle, inside, rfl⟩ := List.mem_map.mp member
  have there := perm.mem_iff.mp inside
  rw [add_prelude_eq] at there
  obtain ⟨source, _, rfl⟩ := List.mem_map.mp there
  apply with_prelude_present
  rintro (written | ⟨_, wanted, other, present⟩)
  · exact written
  · rw [names, (perm.map Module.name).mem_iff, add_prelude_names] at present
    have other : source.name ≠ preludeName := fun same => other (with_prelude_name.trans same)
    exact mem_imported_with_prelude.mpr (Or.inr ⟨rfl, wanted, other, present⟩)

theorem imports_known_again {sorted : List Module} (perm : sorted.Perm modules)
    (known : unknownImports modules = []) :
    unknownImports (sorted.map (resolve modules)) = [] := by
  have names : (sorted.map (resolve modules)).map Module.name = sorted.map Module.name :=
    List.map_map
  have listed := imports_known_perm perm.symm known
  rw [unknown_imports_nil_iff] at listed ⊢
  rw [names, List.forall_mem_map]
  exact listed

/-- A program that has been checked is accepted again, and nothing about it changes: neither its
modules and their order, nor their imports, nor what their names refer to. -/
theorem check_again {ordered : List Module} (checked : check options modules = .ok ordered) :
    check options ordered = .ok ordered := by
  have distinct := checked_names_distinct checked
  obtain ⟨once, known, sorted, order, fine, rfl⟩ := check_ok_iff.mp checked
  have accepted := accepted_of_findings once known order fine
  have perm := accepted.order.perm accepted.distinct
  have complete := add_prelude_again perm
  have stays : sort (sorted.map (resolve (addPrelude options modules))) =
      .ok (sorted.map (resolve (addPrelude options modules))) :=
    sort_in_order distinct
      ((accepted.order.in_order accepted.distinct).map (fun _ => rfl) fun _ => rfl)
  rw [check_ok_iff, complete]
  refine ⟨distinct, imports_known_again perm known, _, stays, ?_, ?_⟩
  · rw [List.forall_mem_map]
    exact fun m member => accepted.findings_again member (fine m member)
  · rw [List.map_map]
    exact List.map_congr_left fun m member => (accepted.resolve_again member).symm

/-- The Prelude, put in front and imported without being written, stays where it is and is not
imported once more. -/
theorem shadowing_checked_again :
    ∃ ordered, check Options.default shadowing = .ok ordered ∧
      ordered.map (fun m => (m.name, m.imports.map fun entry => (entry.module, entry.implicit))) =
        [("Prelude", []), ("App", [("Prelude", true)])] ∧
      check Options.default ordered = .ok ordered := by
  obtain ⟨ordered, result, shape⟩ : ∃ ordered, check Options.default shadowing = .ok ordered ∧
      ordered.map (fun m => (m.name, m.imports.map fun entry => (entry.module, entry.implicit))) =
        [("Prelude", []), ("App", [("Prelude", true)])] := ⟨_, rfl, rfl⟩
  exact ⟨ordered, result, shape, check_again result⟩

end Module

end PureJs
