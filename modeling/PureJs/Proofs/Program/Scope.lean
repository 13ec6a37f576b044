import PureJs.Program.Scope

/-!
How the names that an expression uses depend on what stands around it, and what resolving makes of
them.
-/

namespace PureJs

def Occurrence.under (outer : List String) (use : Occurrence) : Occurrence :=
  { use with locals := use.locals ++ outer }

def Occurrence.resolveWith (lookup : Occurrence → Except Problem (Option String))
    (use : Occurrence) : Occurrence :=
  match lookup use with
  | .ok found => { use with resolved := found }
  | .error _ => use

namespace Expr

mutual

theorem occurrences_under (inner outer : List String) (e : Expr) :
    e.occurrences (inner ++ outer) = (e.occurrences inner).map (Occurrence.under outer) := by
  cases e with
  | literal place value => rfl
  | array place items => exact list_occurrences_under inner outer items
  | var place name qualifier resolved => rfl
  | app place function argument =>
    simp only [occurrences, List.map_append, occurrences_under inner outer]
  | lambda place params body =>
    simp only [occurrences, ← List.append_assoc, occurrences_under (params ++ inner) outer]
  | cond place condition yes no =>
    simp only [occurrences, List.map_append, occurrences_under inner outer]
  | binary place op left right =>
    simp only [occurrences, List.map_append, occurrences_under inner outer]
  | negate place operand => exact occurrences_under inner outer operand
  | block place statements => exact statement_occurrences_under inner outer statements

theorem list_occurrences_under (inner outer : List String) (items : List Expr) :
    listOccurrences (inner ++ outer) items =
      (listOccurrences inner items).map (Occurrence.under outer) := by
  cases items with
  | nil => rfl
  | cons e rest =>
    simp only [listOccurrences, List.map_append, occurrences_under inner outer,
      list_occurrences_under inner outer]

theorem statement_occurrences_under (inner outer : List String) (statements : List Statement) :
    statementOccurrences (inner ++ outer) statements =
      (statementOccurrences inner statements).map (Occurrence.under outer) := by
  match statements with
  | [] => rfl
  | .bind _ name e :: rest | .define _ name e :: rest =>
    simp only [statementOccurrences, List.map_append, occurrences_under inner outer,
      ← List.cons_append, statement_occurrences_under (name :: inner) outer]
  | .run _ e :: rest =>
    simp only [statementOccurrences, List.map_append, occurrences_under inner outer,
      statement_occurrences_under inner outer]

end

theorem occurrences_locals (locals : List String) (e : Expr) :
    e.occurrences locals = (e.occurrences []).map (Occurrence.under locals) :=
  occurrences_under [] locals e

mutual

theorem resolved_occurrences (lookup : Occurrence → Except Problem (Option String))
    (locals : List String) (e : Expr) :
    (e.resolveWith lookup locals).occurrences locals =
      (e.occurrences locals).map (Occurrence.resolveWith lookup) := by
  cases e with
  | literal place value => rfl
  | array place items => exact resolved_list_occurrences lookup locals items
  | var place name qualifier resolved =>
    cases found : lookup ⟨place, name, qualifier, resolved, locals⟩ <;>
      simp [resolveWith, occurrences, Occurrence.resolveWith, found]
  | app place function argument =>
    simp only [resolveWith, occurrences, List.map_append, resolved_occurrences lookup locals]
  | lambda place params body => exact resolved_occurrences lookup (params ++ locals) body
  | cond place condition yes no =>
    simp only [resolveWith, occurrences, List.map_append, resolved_occurrences lookup locals]
  | binary place op left right =>
    simp only [resolveWith, occurrences, List.map_append, resolved_occurrences lookup locals]
  | negate place operand => exact resolved_occurrences lookup locals operand
  | block place statements => exact resolved_statement_occurrences lookup locals statements

theorem resolved_list_occurrences (lookup : Occurrence → Except Problem (Option String))
    (locals : List String) (items : List Expr) :
    listOccurrences locals (resolveList lookup locals items) =
      (listOccurrences locals items).map (Occurrence.resolveWith lookup) := by
  cases items with
  | nil => rfl
  | cons e rest =>
    simp only [resolveList, listOccurrences, List.map_append, resolved_occurrences lookup locals,
      resolved_list_occurrences lookup locals]

theorem resolved_statement_occurrences (lookup : Occurrence → Except Problem (Option String))
    (locals : List String) (statements : List Statement) :
    statementOccurrences locals (resolveStatements lookup locals statements) =
      (statementOccurrences locals statements).map (Occurrence.resolveWith lookup) := by
  match statements with
  | [] => rfl
  | .bind _ name e :: rest | .define _ name e :: rest =>
    simp only [resolveStatements, statementOccurrences, List.map_append,
      resolved_occurrences lookup locals, resolved_statement_occurrences lookup (name :: locals)]
  | .run _ e :: rest =>
    simp only [resolveStatements, statementOccurrences, List.map_append,
      resolved_occurrences lookup locals, resolved_statement_occurrences lookup locals]

end

section Congr

variable {lookup other : Occurrence → Except Problem (Option String)}

mutual

theorem resolve_congr {e : Expr} {locals : List String}
    (same : ∀ use ∈ e.occurrences locals, other use = lookup use) :
    e.resolveWith other locals = e.resolveWith lookup locals := by
  cases e with
  | literal place value => rfl
  | array place items => exact congrArg (array place) (resolve_list_congr same)
  | var place name qualifier resolved =>
    unfold resolveWith
    rw [same _ List.mem_cons_self]
  | app place function argument =>
    obtain ⟨first, second⟩ := List.forall_mem_append.mp same
    rw [resolveWith, resolveWith, resolve_congr first, resolve_congr second]
  | lambda place params body =>
    rw [resolveWith, resolveWith, resolve_congr (e := body) same]
  | cond place condition yes no =>
    obtain ⟨front, third⟩ := List.forall_mem_append.mp same
    obtain ⟨first, second⟩ := List.forall_mem_append.mp front
    rw [resolveWith, resolveWith, resolve_congr first, resolve_congr second, resolve_congr third]
  | binary place op left right =>
    obtain ⟨first, second⟩ := List.forall_mem_append.mp same
    rw [resolveWith, resolveWith, resolve_congr first, resolve_congr second]
  | negate place operand =>
    rw [resolveWith, resolveWith, resolve_congr (e := operand) same]
  | block place statements => exact congrArg (block place) (resolve_statements_congr same)

theorem resolve_list_congr {items : List Expr} {locals : List String}
    (same : ∀ use ∈ listOccurrences locals items, other use = lookup use) :
    resolveList other locals items = resolveList lookup locals items := by
  cases items with
  | nil => rfl
  | cons e rest =>
    obtain ⟨first, others⟩ := List.forall_mem_append.mp same
    rw [resolveList, resolveList, resolve_congr first, resolve_list_congr others]

theorem resolve_statements_congr {statements : List Statement} {locals : List String}
    (same : ∀ use ∈ statementOccurrences locals statements, other use = lookup use) :
    resolveStatements other locals statements = resolveStatements lookup locals statements := by
  match statements with
  | [] => rfl
  | .bind _ name e :: rest | .define _ name e :: rest | .run _ e :: rest =>
    obtain ⟨first, others⟩ := List.forall_mem_append.mp same
    rw [resolveStatements, resolveStatements, resolve_congr first, resolve_statements_congr others]

end

end Congr

theorem mem_references {e : Expr} {target name : String} (locals : List String) :
    (target, name) ∈ e.references ↔
      ∃ use ∈ e.occurrences locals, use.resolved = some target ∧ use.name = name := by
  simp only [references, occurrences_locals locals e, List.mem_filterMap, Option.map_eq_some_iff,
    Prod.mk.injEq, List.mem_map]
  constructor
  · rintro ⟨use, member, found, same, rfl, rfl⟩
    exact ⟨use.under locals, ⟨use, member, rfl⟩, same, rfl⟩
  · rintro ⟨_, ⟨use, member, rfl⟩, same, rfl⟩
    exact ⟨use, member, target, same, rfl, rfl⟩

end Expr

namespace Module

variable {modules : List Module} {m : Module} {use : Occurrence}

theorem declares_iff {target name : String} :
    declares modules target name = true ↔
      ∃ m ∈ modules, m.name = target ∧ name ∈ m.declaredNames := by
  simp [declares]

theorem lookup_local (found : lookup modules m use = .ok none) :
    use.qualifier = none ∧ use.name ∈ use.locals := by
  unfold lookup at found
  split at found
  · split at found
    · cases found
    · split at found <;> cases found
  · rename_i unqualified
    split at found
    · rename_i inside
      exact ⟨unqualified, inside⟩
    · split at found
      · cases found
      · split at found <;> cases found

theorem lookup_value {target : String} (found : lookup modules m use = .ok (some target)) :
    (use.qualifier = some target ∧ (target = m.name ∨ target ∈ m.importedModules) ∧
        declares modules target use.name = true) ∨
      (use.qualifier = none ∧ use.name ∉ use.locals ∧
        ((target = m.name ∧ use.name ∈ m.declaredNames) ∨
          (target ∈ m.importedModules ∧ declares modules target use.name = true))) := by
  unfold lookup at found
  split at found
  · rename_i written qualified
    split at found
    · cases found
    · rename_i known
      split at found
      · rename_i declared
        cases found
        refine Or.inl ⟨qualified, ?_, declared⟩
        by_cases own : target = m.name
        · exact Or.inl own
        · exact Or.inr (Decidable.of_not_not fun missing => known ⟨own, missing⟩)
      · cases found
  · rename_i unqualified
    split at found
    · cases found
    · rename_i free
      refine Or.inr ⟨unqualified, free, ?_⟩
      split at found
      · rename_i own
        cases found
        exact Or.inl ⟨rfl, own⟩
      · split at found
        · cases found
        · rename_i exporter only
          cases found
          have member : target ∈ exporters modules m use.name := by
            rw [only]
            exact List.mem_cons_self
          obtain ⟨imported, declared⟩ := List.mem_filter.mp member
          exact Or.inr ⟨List.mem_eraseDups.mp imported, declared⟩
        · cases found

end Module

end PureJs
