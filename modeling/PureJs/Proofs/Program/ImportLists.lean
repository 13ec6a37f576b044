import PureJs.Proofs.Program.Relabelled
import PureJs.Proofs.Program.WellFormed

/-!
What a module imports counts, and not how its imports are listed. Two programs that differ in the
order and the number of the imports of their modules only are accepted alike, and their names stand
for the same things.
-/

namespace PureJs.Module

/-- A change of modules that leaves what each of the given ones imports, if not in which order and
how often. -/
structure Reimports (modules : List Module) (change : Module → Module) : Prop
    extends Relabels change where
  imports : ∀ m ∈ modules, ∀ target,
    target ∈ (change m).importedModules ↔ target ∈ m.importedModules

section Reimported

variable {modules : List Module} {change : Module → Module}
  (reimports : Reimports modules change)
include reimports

theorem Reimports.lookup_iff {m : Module} (inside : m ∈ modules) {use : Occurrence}
    {found : Option String} :
    lookup (modules.map change) (change m) use = .ok found ↔ lookup modules m use = .ok found := by
  have declared := reimports.declaredNames m
  have name := reimports.name m
  have imports := reimports.imports m inside
  cases written : use.qualifier with
  | some target =>
    rw [lookup_qualified_iff written, lookup_qualified_iff written, reimports.declares, name,
      imports]
  | none =>
    by_cases bound : use.name ∈ use.locals
    · rw [lookup_bound written bound, lookup_bound written bound]
    · by_cases own : use.name ∈ m.declaredNames
      · rw [lookup_own written bound (declared.symm ▸ own), lookup_own written bound own, name]
      · rw [lookup_imported_iff written bound (declared.symm ▸ own),
          lookup_imported_iff written bound own]
        simp only [exporters_single_iff, reimports.declares, imports]

theorem Reimports.findings_nil_iff {m : Module} (inside : m ∈ modules) :
    findings (modules.map change) (change m) = [] ↔ findings modules m = [] := by
  have whole : (change m).WellDeclared ↔ m.WellDeclared := by
    have declared := reimports.declaredNames m
    have declarations := reimports.declarations m
    have signatures := reimports.signatures m
    constructor
    · rintro ⟨once, params, signed, defined⟩
      rw [declared] at once
      rw [declarations] at params
      rw [signatures] at signed
      rw [declarations, signatures] at defined
      exact ⟨once, params, signed, defined⟩
    · rintro ⟨once, params, signed, defined⟩
      refine ⟨declared.symm ▸ once, declarations.symm ▸ params, signatures.symm ▸ signed, ?_⟩
      rw [declarations, signatures]
      exact defined
  rw [Module.findings_nil_iff, Module.findings_nil_iff, whole, reimports.declarations]
  simp only [reimports.lookup_iff inside]

theorem Reimports.resolve {m : Module} (inside : m ∈ modules) (fine : findings modules m = []) :
    Module.resolve (modules.map change) (change m) = change (Module.resolve modules m) := by
  have found := (Module.findings_nil_iff.mp fine).2
  show (change m).redeclare ((change m).declarations.map _) (change m).signatures =
    change (m.redeclare (m.declarations.map _) m.signatures)
  rw [reimports.redeclared, reimports.declarations, reimports.signatures]
  refine congrArg (fun declarations => redeclare declarations m.signatures (change m)) ?_
  refine List.map_congr_left fun d member => ?_
  cases d with
  | foreign f => rfl
  | value d =>
    refine congrArg (fun body => Declaration.value { d with body := body })
      (Expr.resolve_congr fun use used => ?_)
    obtain ⟨target, same⟩ := found d member use used
    rw [same, (reimports.lookup_iff inside).mpr same]

theorem Reimports.imports_within : ImportsWithin (modules.map change) = ImportsWithin modules := by
  funext a b
  unfold ImportsWithin
  rw [reimports.names]
  refine propext ⟨?_, ?_⟩
  · rintro ⟨_, member, named, imported, listed⟩
    obtain ⟨m, inside, rfl⟩ := List.mem_map.mp member
    exact ⟨m, inside, (reimports.name m).symm.trans named,
      (reimports.imports m inside b).mp imported, listed⟩
  · rintro ⟨m, inside, named, imported, listed⟩
    exact ⟨change m, List.mem_map_of_mem inside, (reimports.name m).trans named,
      (reimports.imports m inside b).mpr imported, listed⟩

theorem Reimports.unknown_imports_nil_iff :
    unknownImports (modules.map change) = [] ↔ unknownImports modules = [] := by
  have each : ∀ list : List Module, unknownImports list = [] ↔
      ∀ m ∈ list, ∀ target ∈ m.importedModules, target ∈ list.map Module.name := by
    intro list
    rw [Module.unknown_imports_nil_iff]
    simp only [importedModules, List.forall_mem_map]
  rw [each, each, reimports.names, List.forall_mem_map]
  refine forall₂_congr fun m inside => ?_
  simp only [reimports.imports m inside]

theorem Reimports.sort_ok_iff (distinct : (modules.map Module.name).Nodup) :
    (∃ sorted, sort (modules.map change) = .ok sorted) ↔ ∃ sorted, sort modules = .ok sorted := by
  rw [Module.sort_ok_iff distinct, Module.sort_ok_iff (reimports.names modules ▸ distinct),
    reimports.imports_within]

end Reimported

end PureJs.Module
