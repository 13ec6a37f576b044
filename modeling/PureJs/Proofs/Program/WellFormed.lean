import PureJs.Proofs.Program.Checked
import PureJs.Proofs.Program.Cycles
import Mathlib.Data.List.Forall2
import Mathlib.Data.List.Perm.Basic

/-!
Which programs are accepted, and what their names then refer to. The scope of a name is described
here by rules for each form of expression and statement, without the check: parameters are seen in
the body of their function, and what a statement names in the statements after it. The check accepts
exactly the programs that keep the rules, and fills in what the rules give.
-/

namespace PureJs

section Rules

variable (options : Options) (program : List Module) (m : Module)

/-- The module imports the target by an import that is written, or by that of the Prelude, which
every other module has if there is a Prelude and it is not kept out. -/
def Module.Imports (target : String) : Prop :=
  target ∈ m.importedModules ∨
    target = preludeName ∧ options.noPrelude = false ∧ m.name ≠ preludeName ∧
      preludeName ∈ program.map Module.name

def Module.Declares (program : List Module) (target name : String) : Prop :=
  ∃ m ∈ program, m.name = target ∧ name ∈ m.declaredNames

/-- What a name that is written in `m`, perhaps with a module, stands for under some local names:
nothing for a local one, and else the module that declares it. -/
inductive Module.Denotes (locals : List String) (name : String) :
    Option String → Option String → Prop
  | qualified {target : String} (near : target = m.name ∨ m.Imports options program target)
      (declared : Module.Declares program target name) :
      Module.Denotes locals name (some target) (some target)
  | bound (inside : name ∈ locals) : Module.Denotes locals name none none
  | own (free : name ∉ locals) (declared : name ∈ m.declaredNames) :
      Module.Denotes locals name none (some m.name)
  | imported {target : String} (free : name ∉ locals) (other : name ∉ m.declaredNames)
      (near : m.Imports options program target) (declared : Module.Declares program target name)
      (only : ∀ rival, m.Imports options program rival → Module.Declares program rival name →
        rival = target) :
      Module.Denotes locals name none (some target)

end Rules

namespace Expr

section Resolves

variable (means : List String → String → Option String → Option String → Prop)

mutual

/-- The second expression is the first one with what its names stand for. -/
inductive Resolves : List String → Expr → Expr → Prop
  | literal {locals place value} : Resolves locals (.literal place value) (.literal place value)
  | array {locals place items items'} (inner : ListResolves locals items items') :
      Resolves locals (.array place items) (.array place items')
  | var {locals place name qualifier before found}
      (stands : means locals name qualifier found) :
      Resolves locals (.var place name qualifier before) (.var place name qualifier found)
  | app {locals place function function' argument argument'}
      (first : Resolves locals function function') (second : Resolves locals argument argument') :
      Resolves locals (.app place function argument) (.app place function' argument')
  | lambda {locals place params body body'} (inner : Resolves (params ++ locals) body body') :
      Resolves locals (.lambda place params body) (.lambda place params body')
  | cond {locals place condition condition' yes yes' no no'}
      (first : Resolves locals condition condition') (second : Resolves locals yes yes')
      (third : Resolves locals no no') :
      Resolves locals (.cond place condition yes no) (.cond place condition' yes' no')
  | binary {locals place op left left' right right'} (first : Resolves locals left left')
      (second : Resolves locals right right') :
      Resolves locals (.binary place op left right) (.binary place op left' right')
  | negate {locals place operand operand'} (inner : Resolves locals operand operand') :
      Resolves locals (.negate place operand) (.negate place operand')
  | block {locals place statements statements'}
      (inner : StatementsResolve locals statements statements') :
      Resolves locals (.block place statements) (.block place statements')

inductive ListResolves : List String → List Expr → List Expr → Prop
  | nil {locals} : ListResolves locals [] []
  | cons {locals e e' rest rest'} (first : Resolves locals e e')
      (others : ListResolves locals rest rest') : ListResolves locals (e :: rest) (e' :: rest')

inductive StatementsResolve : List String → List Statement → List Statement → Prop
  | nil {locals} : StatementsResolve locals [] []
  | bind {locals place name e e' rest rest'} (first : Resolves locals e e')
      (others : StatementsResolve (name :: locals) rest rest') :
      StatementsResolve locals (.bind place name e :: rest) (.bind place name e' :: rest')
  | define {locals place name e e' rest rest'} (first : Resolves locals e e')
      (others : StatementsResolve (name :: locals) rest rest') :
      StatementsResolve locals (.define place name e :: rest) (.define place name e' :: rest')
  | run {locals place e e' rest rest'} (first : Resolves locals e e')
      (others : StatementsResolve locals rest rest') :
      StatementsResolve locals (.run place e :: rest) (.run place e' :: rest')

end

end Resolves

section Lookup

variable {means : List String → String → Option String → Option String → Prop}
  {lookup : Occurrence → Except Problem (Option String)}

mutual

theorem resolves_found
    (agrees : ∀ use found, lookup use = .ok found → means use.locals use.name use.qualifier found)
    {e : Expr} {locals : List String}
    (all : ∀ use ∈ e.occurrences locals, ∃ found, lookup use = .ok found) :
    Resolves means locals e (e.resolveWith lookup locals) := by
  cases e with
  | literal place value => exact .literal
  | array place items => exact .array (list_resolves_found agrees all)
  | var place name qualifier before =>
    obtain ⟨found, same⟩ := all _ List.mem_cons_self
    rw [resolveWith, same]
    exact .var (agrees _ found same)
  | app place function argument =>
    obtain ⟨first, second⟩ := List.forall_mem_append.mp all
    exact .app (resolves_found agrees first) (resolves_found agrees second)
  | lambda place params body => exact .lambda (resolves_found agrees all)
  | cond place condition yes no =>
    obtain ⟨front, third⟩ := List.forall_mem_append.mp all
    obtain ⟨first, second⟩ := List.forall_mem_append.mp front
    exact .cond (resolves_found agrees first) (resolves_found agrees second)
      (resolves_found agrees third)
  | binary place op left right =>
    obtain ⟨first, second⟩ := List.forall_mem_append.mp all
    exact .binary (resolves_found agrees first) (resolves_found agrees second)
  | negate place operand =>
    have inner : ∀ use ∈ operand.occurrences locals, ∃ found, lookup use = .ok found := all
    exact .negate (resolves_found agrees inner)
  | block place statements => exact .block (statements_resolve_found agrees all)

theorem list_resolves_found
    (agrees : ∀ use found, lookup use = .ok found → means use.locals use.name use.qualifier found)
    {items : List Expr} {locals : List String}
    (all : ∀ use ∈ listOccurrences locals items, ∃ found, lookup use = .ok found) :
    ListResolves means locals items (resolveList lookup locals items) := by
  cases items with
  | nil => exact .nil
  | cons e rest =>
    obtain ⟨first, others⟩ := List.forall_mem_append.mp all
    exact .cons (resolves_found agrees first) (list_resolves_found agrees others)

theorem statements_resolve_found
    (agrees : ∀ use found, lookup use = .ok found → means use.locals use.name use.qualifier found)
    {statements : List Statement} {locals : List String}
    (all : ∀ use ∈ statementOccurrences locals statements, ∃ found, lookup use = .ok found) :
    StatementsResolve means locals statements (resolveStatements lookup locals statements) := by
  match statements with
  | [] => exact .nil
  | .bind _ name e :: rest =>
    obtain ⟨first, others⟩ := List.forall_mem_append.mp all
    exact .bind (resolves_found agrees first) (statements_resolve_found agrees others)
  | .define _ name e :: rest =>
    obtain ⟨first, others⟩ := List.forall_mem_append.mp all
    exact .define (resolves_found agrees first) (statements_resolve_found agrees others)
  | .run _ e :: rest =>
    obtain ⟨first, others⟩ := List.forall_mem_append.mp all
    exact .run (resolves_found agrees first) (statements_resolve_found agrees others)

end

mutual

theorem found_of_resolves
    (agrees : ∀ use found, means use.locals use.name use.qualifier found → lookup use = .ok found)
    {e e' : Expr} {locals : List String} (resolves : Resolves means locals e e') :
    ∀ use ∈ e.occurrences locals, ∃ found, lookup use = .ok found := by
  cases resolves with
  | literal => exact fun use none => absurd none List.not_mem_nil
  | array inner => exact found_of_list_resolves agrees inner
  | var stands =>
    intro use only
    rw [List.mem_singleton.mp only]
    exact ⟨_, agrees _ _ stands⟩
  | app first second =>
    exact List.forall_mem_append.mpr
      ⟨found_of_resolves agrees first, found_of_resolves agrees second⟩
  | lambda inner =>
    have all := found_of_resolves agrees inner
    exact all
  | cond first second third =>
    exact List.forall_mem_append.mpr ⟨List.forall_mem_append.mpr
      ⟨found_of_resolves agrees first, found_of_resolves agrees second⟩,
      found_of_resolves agrees third⟩
  | binary first second =>
    exact List.forall_mem_append.mpr
      ⟨found_of_resolves agrees first, found_of_resolves agrees second⟩
  | negate inner =>
    have all := found_of_resolves agrees inner
    exact all
  | block inner => exact found_of_statements_resolve agrees inner

theorem found_of_list_resolves
    (agrees : ∀ use found, means use.locals use.name use.qualifier found → lookup use = .ok found)
    {items items' : List Expr} {locals : List String}
    (resolves : ListResolves means locals items items') :
    ∀ use ∈ listOccurrences locals items, ∃ found, lookup use = .ok found := by
  cases resolves with
  | nil => exact fun use none => absurd none List.not_mem_nil
  | cons first others =>
    exact List.forall_mem_append.mpr
      ⟨found_of_resolves agrees first, found_of_list_resolves agrees others⟩

theorem found_of_statements_resolve
    (agrees : ∀ use found, means use.locals use.name use.qualifier found → lookup use = .ok found)
    {statements statements' : List Statement} {locals : List String}
    (resolves : StatementsResolve means locals statements statements') :
    ∀ use ∈ statementOccurrences locals statements, ∃ found, lookup use = .ok found := by
  cases resolves with
  | nil => exact fun use none => absurd none List.not_mem_nil
  | bind first others | define first others | run first others =>
    exact List.forall_mem_append.mpr
      ⟨found_of_resolves agrees first, found_of_statements_resolve agrees others⟩

end

end Lookup

end Expr

/-- The second declaration is the first one with what the names in its body stand for. -/
inductive Declaration.Resolves
    (means : List String → String → Option String → Option String → Prop) :
    Declaration → Declaration → Prop
  | value {d : ValueDeclaration} {body : Expr} (inner : d.body.Resolves means d.params body) :
      Declaration.Resolves means (.value d) (.value { d with body := body })
  | foreign {f : ForeignDeclaration} : Declaration.Resolves means (.foreign f) (.foreign f)

/-- The second module is the first one with its import of the Prelude and with what its names stand
for. -/
structure Module.Resolves (options : Options) (program : List Module) (m result : Module) :
    Prop where
  name : result.name = m.name
  file : result.file = m.file
  place : result.place = m.place
  imports : ∀ target, target ∈ result.importedModules ↔ m.Imports options program target
  declarations : List.Forall₂ (Declaration.Resolves (m.Denotes options program)) m.declarations
    result.declarations
  signatures : result.signatures = m.signatures

structure WellFormed (options : Options) (program : List Module) : Prop where
  distinct : (program.map Module.name).Nodup
  known : ∀ m ∈ program, ∀ target, m.Imports options program target →
    target ∈ program.map Module.name
  acyclic : ∀ name, ¬Relation.TransGen
    (fun a b => ∃ m ∈ program, m.name = a ∧ m.Imports options program b) name name
  declared : ∀ m ∈ program, m.WellDeclared
  resolvable : ∀ m ∈ program, ∀ d, Declaration.value d ∈ m.declarations →
    ∃ body, d.body.Resolves (m.Denotes options program) d.params body

namespace Module

variable {options : Options} {program : List Module} {m : Module}

/-- The module with the import of the Prelude that it gets. -/
def withPrelude (options : Options) (program : List Module) (m : Module) : Module :=
  if options.noPrelude = false ∧ preludeName ∈ program.map Module.name ∧
      m.name ≠ preludeName ∧ preludeName ∉ m.importedModules then
    { m with imports := ⟨preludeName, m.place, true⟩ :: m.imports }
  else m

theorem add_prelude_eq :
    addPrelude options program = program.map (withPrelude options program) := by
  have present : program.any (fun m => decide (m.name = preludeName)) = true ↔
      preludeName ∈ program.map Module.name := by
    simp
  unfold addPrelude
  split
  · rename_i out
    rw [List.map_congr_left (g := id), List.map_id]
    intro m _
    unfold withPrelude
    rw [if_neg]
    · rfl
    · rintro ⟨wanted, there, _⟩
      rw [← present] at there
      simp [wanted, there] at out
  · rename_i wanted
    simp only [Bool.or_eq_true, Bool.not_eq_true', not_or, Bool.not_eq_true, Bool.not_eq_false,
      present] at wanted
    apply List.map_congr_left
    intro m _
    unfold withPrelude
    by_cases own : m.name = preludeName <;> by_cases written : preludeName ∈ m.importedModules <;>
      simp [own, written, wanted]

theorem with_prelude_keeps {α : Type} (part : Module → α)
    (same : ∀ imports, part { m with imports := imports } = part m) :
    part (withPrelude options program m) = part m := by
  unfold withPrelude
  split
  · exact same _
  · rfl

theorem with_prelude_name : (withPrelude options program m).name = m.name :=
  with_prelude_keeps Module.name fun _ => rfl

theorem with_prelude_declarations :
    (withPrelude options program m).declarations = m.declarations :=
  with_prelude_keeps Module.declarations fun _ => rfl

theorem with_prelude_declared_names :
    (withPrelude options program m).declaredNames = m.declaredNames :=
  with_prelude_keeps declaredNames fun _ => rfl

theorem mem_imported_with_prelude {target : String} :
    target ∈ (withPrelude options program m).importedModules ↔
      m.Imports options program target := by
  unfold withPrelude Imports
  split
  · rename_i missing
    obtain ⟨wanted, there, other, _⟩ := missing
    simp only [importedModules, List.map_cons, List.mem_cons, wanted, there]
    tauto
  · rename_i not
    constructor
    · exact Or.inl
    · rintro (written | ⟨rfl, wanted, other, there⟩)
      · exact written
      · exact by_contra fun missing => not ⟨wanted, there, other, missing⟩

theorem declares_add_prelude {target name : String} :
    declares (addPrelude options program) target name = true ↔ Declares program target name := by
  rw [declares_iff, add_prelude_eq]
  simp only [List.mem_map, exists_exists_and_eq_and, with_prelude_name,
    with_prelude_declared_names, Declares]

theorem erase_dups_nodup {α : Type} [BEq α] [LawfulBEq α] (entries : List α) :
    entries.eraseDups.Nodup := by
  match entries with
  | [] => exact List.nodup_nil
  | entry :: rest =>
    rw [List.eraseDups_cons, List.nodup_cons, List.mem_eraseDups]
    constructor
    · simp
    · exact erase_dups_nodup _
termination_by entries.length
decreasing_by
  have shorter := List.length_filter_le (fun other => !other == entry) rest
  simp only [List.length_cons]
  omega

theorem exporters_single_iff {modules : List Module} {name target : String} :
    exporters modules m name = [target] ↔
      (target ∈ m.importedModules ∧ declares modules target name = true) ∧
        ∀ rival ∈ m.importedModules, declares modules rival name = true → rival = target := by
  have distinct : (exporters modules m name).Nodup := (erase_dups_nodup _).filter _
  have listed : ∀ rival, rival ∈ exporters modules m name ↔
      rival ∈ m.importedModules ∧ declares modules rival name = true := by
    intro rival
    rw [exporters, List.mem_filter, List.mem_eraseDups]
  rw [← List.perm_singleton, List.perm_ext_iff_of_nodup distinct (List.nodup_singleton target)]
  constructor
  · intro same
    refine ⟨(listed target).mp ((same target).mpr List.mem_cons_self), ?_⟩
    intro rival imported declared
    exact List.mem_singleton.mp ((same rival).mp ((listed rival).mpr ⟨imported, declared⟩))
  · rintro ⟨there, only⟩ rival
    rw [listed, List.mem_singleton]
    constructor
    · exact fun known => only rival known.1 known.2
    · rintro rfl
      exact there

theorem lookup_qualified_iff {modules : List Module} {use : Occurrence} {target : String}
    {found : Option String} (qualified : use.qualifier = some target) :
    lookup modules m use = .ok found ↔ (target = m.name ∨ target ∈ m.importedModules) ∧
      declares modules target use.name = true ∧ found = some target := by
  unfold lookup
  rw [qualified]
  dsimp only
  split
  · rename_i away
    exact ⟨nofun, fun known => absurd known.1 (not_or.mpr away)⟩
  · rename_i near
    have near := Decidable.or_iff_not_not_and_not.mpr near
    split
    · rename_i declared
      constructor
      · rintro ⟨⟩
        exact ⟨near, declared, rfl⟩
      · rintro ⟨_, _, rfl⟩
        rfl
    · rename_i missing
      exact ⟨nofun, fun known => absurd known.2.1 missing⟩

theorem lookup_bound {modules : List Module} {use : Occurrence} (plain : use.qualifier = none)
    (inside : use.name ∈ use.locals) : lookup modules m use = .ok none := by
  rw [lookup, plain]
  exact if_pos inside

theorem lookup_own {modules : List Module} {use : Occurrence} (plain : use.qualifier = none)
    (free : use.name ∉ use.locals) (own : use.name ∈ m.declaredNames) :
    lookup modules m use = .ok (some m.name) := by
  rw [lookup, plain]
  exact (if_neg free).trans (if_pos own)

theorem lookup_imported_iff {modules : List Module} {use : Occurrence} {found : Option String}
    (plain : use.qualifier = none) (free : use.name ∉ use.locals)
    (other : use.name ∉ m.declaredNames) :
    lookup modules m use = .ok found ↔
      ∃ target, found = some target ∧ exporters modules m use.name = [target] := by
  unfold lookup
  rw [plain]
  dsimp only
  rw [if_neg free, if_neg other]
  split
  · rename_i none
    simp [none]
  · rename_i exporter only
    simp [only, eq_comm]
  · rename_i not
    simp only [reduceCtorEq, false_iff, not_exists, not_and]
    exact fun target _ => not target

theorem lookup_iff {use : Occurrence} {found : Option String} :
    lookup (addPrelude options program) (withPrelude options program m) use = .ok found ↔
      m.Denotes options program use.locals use.name use.qualifier found := by
  cases written : use.qualifier with
  | some target =>
    rw [lookup_qualified_iff written, declares_add_prelude, mem_imported_with_prelude,
      with_prelude_name]
    constructor
    · rintro ⟨near, declared, rfl⟩
      exact .qualified near declared
    · intro stands
      cases stands with
      | qualified near declared => exact ⟨near, declared, rfl⟩
  | none =>
    by_cases inside : use.name ∈ use.locals
    · rw [lookup_bound written inside]
      constructor
      · rintro ⟨⟩
        exact .bound inside
      · intro stands
        cases stands with
        | bound => rfl
        | own free => exact absurd inside free
        | imported free => exact absurd inside free
    · by_cases own : use.name ∈ m.declaredNames
      · rw [lookup_own written inside (with_prelude_declared_names.symm ▸ own), with_prelude_name]
        constructor
        · rintro ⟨⟩
          exact .own inside own
        · intro stands
          cases stands with
          | bound known => exact absurd known inside
          | own => rfl
          | imported _ other => exact absurd own other
      · rw [lookup_imported_iff written inside (with_prelude_declared_names.symm ▸ own)]
        simp only [exporters_single_iff, mem_imported_with_prelude, declares_add_prelude]
        constructor
        · rintro ⟨target, rfl, ⟨near, declared⟩, only⟩
          exact .imported inside own near declared only
        · intro stands
          cases stands with
          | bound known => exact absurd known inside
          | own _ declared => exact absurd declared own
          | imported _ _ near declared only => exact ⟨_, rfl, ⟨near, declared⟩, only⟩

theorem findings_with_prelude_iff :
    findings (addPrelude options program) (withPrelude options program m) = [] ↔
      m.WellDeclared ∧ ∀ d, Declaration.value d ∈ m.declarations →
        ∃ body, d.body.Resolves (m.Denotes options program) d.params body := by
  have whole : (withPrelude options program m).WellDeclared ↔ m.WellDeclared :=
    iff_of_eq (with_prelude_keeps WellDeclared fun _ => propext
      ⟨fun ⟨declared, params, signed, defined⟩ => ⟨declared, params, signed, defined⟩,
        fun ⟨declared, params, signed, defined⟩ => ⟨declared, params, signed, defined⟩⟩)
  rw [findings_nil_iff, whole, with_prelude_declarations]
  refine and_congr_right fun _ => forall_congr' fun d => imp_congr_right fun _ => ?_
  constructor
  · intro all
    exact ⟨_, Expr.resolves_found (fun _ _ => lookup_iff.mp) all⟩
  · rintro ⟨body, resolves⟩
    exact Expr.found_of_resolves (fun _ _ => lookup_iff.mpr) resolves

theorem resolve_resolves
    (fine : findings (addPrelude options program) (withPrelude options program m) = []) :
    m.Resolves options program (resolve (addPrelude options program)
      (withPrelude options program m)) := by
  have names := (findings_nil_iff.mp fine).2
  rw [with_prelude_declarations] at names
  refine ⟨with_prelude_name, with_prelude_keeps Module.file fun _ => rfl,
    with_prelude_keeps Module.place fun _ => rfl, fun _ => mem_imported_with_prelude, ?_,
    with_prelude_keeps Module.signatures fun _ => rfl⟩
  rw [resolve, with_prelude_declarations]
  refine List.forall₂_map_right_iff.mpr (List.forall₂_same.mpr ?_)
  intro d member
  cases d with
  | value d => exact .value (Expr.resolves_found (fun _ _ => lookup_iff.mp) (names d member))
  | foreign f => exact .foreign

theorem imports_within_add_prelude
    (known : ∀ m ∈ program, ∀ target, m.Imports options program target →
      target ∈ program.map Module.name) :
    ImportsWithin (addPrelude options program) =
      fun a b => ∃ m ∈ program, m.name = a ∧ m.Imports options program b := by
  funext a b
  unfold ImportsWithin
  rw [add_prelude_names, add_prelude_eq]
  simp only [List.mem_map, exists_exists_and_eq_and, with_prelude_name, mem_imported_with_prelude,
    eq_iff_iff]
  constructor
  · rintro ⟨m, member, same, imports, _⟩
    exact ⟨m, member, same, imports⟩
  · rintro ⟨m, member, same, imports⟩
    exact ⟨m, member, same, imports, List.mem_map.mp (known m member b imports)⟩

theorem unknown_imports_add_prelude_iff :
    unknownImports (addPrelude options program) = [] ↔
      ∀ m ∈ program, ∀ target, m.Imports options program target →
        target ∈ program.map Module.name := by
  rw [unknown_imports_nil_iff, add_prelude_names, add_prelude_eq, List.forall_mem_map]
  refine forall_congr' fun m => imp_congr_right fun _ => ?_
  simp only [← mem_imported_with_prelude, importedModules, List.forall_mem_map]

/-- The check accepts exactly the programs that keep the rules, and it gives each name what the
rules give. -/
theorem check_accepts_iff_well_formed :
    ((∃ ordered, check options program = .ok ordered) ↔ WellFormed options program) ∧
      ∀ ordered, check options program = .ok ordered →
        ∃ sources, sources.Perm program ∧
          List.Forall₂ (Module.Resolves options program) sources ordered := by
  have names : ((addPrelude options program).map Module.name).Nodup ↔
      (program.map Module.name).Nodup := by
    rw [add_prelude_names]
  have inside : ∀ {m}, m ∈ addPrelude options program ↔
      ∃ source ∈ program, withPrelude options program source = m := by
    intro m
    rw [add_prelude_eq, List.mem_map]
  refine ⟨⟨?_, ?_⟩, ?_⟩
  · rintro ⟨ordered, result⟩
    obtain ⟨distinct, none, sorted, order, fine, _⟩ := check_ok_iff.mp result
    have known := unknown_imports_add_prelude_iff.mp none
    have acyclic := (sort_ok_iff (names.mpr distinct)).mp ⟨sorted, order⟩
    rw [imports_within_add_prelude known] at acyclic
    have each : ∀ m ∈ program, _ := fun m member => findings_with_prelude_iff.mp
      (fine _ ((sort_sorted order).member (names.mpr distinct) (inside.mpr ⟨m, member, rfl⟩)))
    exact ⟨distinct, known, acyclic, fun m member => (each m member).1,
      fun m member => (each m member).2⟩
  · intro whole
    have acyclic := whole.acyclic
    rw [← imports_within_add_prelude whole.known] at acyclic
    obtain ⟨sorted, order⟩ := (sort_ok_iff (names.mpr whole.distinct)).mpr acyclic
    refine ⟨_, check_ok_iff.mpr ⟨whole.distinct, unknown_imports_add_prelude_iff.mpr whole.known,
      sorted, order, ?_, rfl⟩⟩
    intro m there
    obtain ⟨source, member, rfl⟩ := inside.mp ((sort_sorted order).members m there)
    exact findings_with_prelude_iff.mpr
      ⟨whole.declared source member, whole.resolvable source member⟩
  · intro ordered result
    obtain ⟨distinct, _, sorted, order, fine, rfl⟩ := check_ok_iff.mp result
    have sorts := sort_sorted order
    have perm : (program.map (withPrelude options program)).Perm sorted := by
      rw [← add_prelude_eq]
      exact (List.perm_ext_iff_of_nodup (names.mpr distinct).of_map sorts.distinct.of_map).mpr
        fun m => ⟨sorts.member (names.mpr distinct), sorts.members m⟩
    have resolved : List.Forall₂
        (fun m given => m.Resolves options program (resolve (addPrelude options program) given))
        program (program.map (withPrelude options program)) := by
      refine List.forall₂_map_right_iff.mpr (List.forall₂_same.mpr ?_)
      intro m member
      exact resolve_resolves (fine _ (perm.subset (List.mem_map_of_mem member)))
    have both : Relation.Comp (List.Forall₂ _) List.Perm program sorted := ⟨_, resolved, perm⟩
    rw [List.forall₂_comp_perm_eq_perm_comp_forall₂] at both
    obtain ⟨sources, same, all⟩ := both
    exact ⟨sources, same.symm, List.forall₂_map_right_iff.mpr all⟩

/-- A module whose action names the result of the Prelude's `log` like a value of its own, and then
uses both. -/
def shadowing : List Module :=
  let place : Position := ⟨1, 1⟩
  let use (name : String) (qualifier : Option String) : Expr := .var place name qualifier none
  [⟨"App", "app", place, [],
      [.value ⟨place, "x", [], .literal place (.integer 1)⟩,
        .value ⟨place, "main", [], .block place
          [.bind place "x" (.app place (use "log" none) (use "x" none)),
            .run place (.app place (.app place (use "log" (some "Prelude")) (use "x" none))
              (use "x" (some "App")))]⟩],
      [⟨place, "x", "Int"⟩]⟩,
    ⟨"Prelude", "prelude", place, [], [.foreign ⟨place, "log", "console.log", "a -> b"⟩], []⟩]

theorem shadowing_well_formed :
    ∃ ordered, check Options.default shadowing = .ok ordered ∧
      ordered.map Module.name = ["Prelude", "App"] ∧ WellFormed Options.default shadowing := by
  obtain ⟨ordered, result, names⟩ : ∃ ordered, check Options.default shadowing = .ok ordered ∧
      ordered.map Module.name = ["Prelude", "App"] := ⟨_, rfl, rfl⟩
  exact ⟨ordered, result, names, check_accepts_iff_well_formed.1.mp ⟨ordered, result⟩⟩

end Module

end PureJs
