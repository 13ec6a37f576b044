import PureJs.Proofs.Program.CommonImport
import PureJs.Proofs.Program.Extension
import PureJs.Proofs.Program.InputOrder
import PureJs.Proofs.Program.Linking

/-!
The import of the Prelude that a module gets and one that is written in it come to the same. The
first one stands in front of the other imports, the second anywhere among them. All modules of such
a program import the Prelude, so the Prelude imports nothing, stands first in every order and makes
no difference to what comes after it.
-/

namespace PureJs.Module

/-- The module with an import of the Prelude written behind the first `k` of its imports. -/
def importPrelude (k : Nat) (place : Position) (m : Module) : Module :=
  { m with imports := m.imports.take k ++ ⟨preludeName, place, false⟩ :: m.imports.drop k }

def importInstead (name : String) (imports : List Import) (m : Module) : Module :=
  if m.name = name then { m with imports := imports } else m

theorem import_instead_relabels (name : String) (imports : List Import) :
    Relabels (importInstead name imports) := by
  constructor
  · intro m
    unfold importInstead
    split <;> rfl
  · intro m declarations signatures
    unfold importInstead
    rw [show (m.redeclare declarations signatures).name = m.name from rfl]
    split <;> rfl

theorem add_prelude_rooted {options : Options} {program : List Module}
    (wanted : options.noPrelude = false) (present : preludeName ∈ program.map Module.name) :
    Rooted preludeName (addPrelude options program) := by
  rw [add_prelude_eq]
  refine List.forall_mem_map.mpr fun m _ other => mem_imported_with_prelude.mpr ?_
  rw [with_prelude_name] at other
  exact .inr ⟨rfl, wanted, other, present⟩

section Written

variable {options : Options} {before after : List Module} {m : Module} (k : Nat) (place : Position)

theorem import_prelude_names :
    (before ++ m.importPrelude k place :: after).map Module.name =
      (before ++ m :: after).map Module.name := by
  simp [importPrelude]

variable (wanted : options.noPrelude = false)
  (present : preludeName ∈ (before ++ m :: after).map Module.name)
  (other : m.name ≠ preludeName) (unwritten : preludeName ∉ m.importedModules)
include wanted present other unwritten

theorem with_prelude_unwritten : withPrelude options (before ++ m :: after) m =
    { m with imports := ⟨preludeName, m.place, true⟩ :: m.imports } :=
  if_pos ⟨wanted, present, other, unwritten⟩

variable (distinct : ((before ++ m :: after).map Module.name).Nodup)
include distinct

theorem add_prelude_written :
    addPrelude options (before ++ m.importPrelude k place :: after) =
      (addPrelude options (before ++ m :: after)).map
        (importInstead m.name (m.importPrelude k place).imports) := by
  have same : ∀ n, withPrelude options (before ++ m.importPrelude k place :: after) n =
      withPrelude options (before ++ m :: after) n := by
    intro n
    unfold withPrelude
    rw [import_prelude_names]
  have apart : ∀ n ∈ before ++ after, n.name ≠ m.name := by
    intro n member named
    rw [List.map_append, List.map_cons, List.nodup_middle, ← List.map_append] at distinct
    exact (List.nodup_cons.mp distinct).1 (named ▸ List.mem_map_of_mem member)
  have beside : ∀ list : List Module, list ⊆ before ++ after →
      list.map (withPrelude options (before ++ m :: after)) =
        (list.map (withPrelude options (before ++ m :: after))).map
          (importInstead m.name (m.importPrelude k place).imports) := by
    intro list inside
    rw [List.map_map]
    refine List.map_congr_left fun n member => (if_neg ?_).symm
    rw [with_prelude_name]
    exact apart n (inside member)
  have own : withPrelude options (before ++ m :: after) (m.importPrelude k place) =
      importInstead m.name (m.importPrelude k place).imports
        (withPrelude options (before ++ m :: after) m) := by
    rw [with_prelude_unwritten wanted present other unwritten]
    unfold withPrelude importInstead
    rw [if_pos rfl, if_neg]
    · rfl
    · simp [importPrelude, importedModules]
  rw [add_prelude_eq, add_prelude_eq, funext same, List.map_append, List.map_cons, List.map_append,
    List.map_cons, List.map_append, List.map_cons, own,
    ← beside before (List.subset_append_left _ _), ← beside after (List.subset_append_right _ _)]

theorem with_prelude_of_name {n : Module}
    (member : n ∈ addPrelude options (before ++ m :: after)) (named : n.name = m.name) :
    n.imports = ⟨preludeName, m.place, true⟩ :: m.imports := by
  rw [add_prelude_eq] at member
  obtain ⟨source, inside, rfl⟩ := List.mem_map.mp member
  rw [with_prelude_name] at named
  have same : source = m :=
    List.inj_on_of_nodup_map distinct inside (List.mem_append_right _ List.mem_cons_self) named
  rw [same, with_prelude_unwritten wanted present other unwritten]

theorem written_reimports :
    Reimports (addPrelude options (before ++ m :: after))
      (importInstead m.name (m.importPrelude k place).imports) := by
  refine ⟨import_instead_relabels _ _, fun n member target => ?_⟩
  unfold importInstead
  split
  · rename_i named
    have imports := with_prelude_of_name wanted present other unwritten distinct member named
    have split : m.imports.map Import.module =
        (m.imports.take k).map Import.module ++ (m.imports.drop k).map Import.module := by
      rw [← List.map_append, List.take_append_drop]
    simp only [importedModules, importPrelude, imports, List.map_append, List.map_cons,
      List.mem_append, List.mem_cons, split]
    tauto
  · rfl

theorem written_beside_prelude :
    ∀ n ∈ addPrelude options (before ++ m :: after),
      besideRoot preludeName (importInstead m.name (m.importPrelude k place).imports n).imports =
        besideRoot preludeName n.imports := by
  intro n member
  unfold importInstead
  split
  · rename_i named
    rw [with_prelude_of_name wanted present other unwritten distinct member named]
    unfold besideRoot importPrelude
    dsimp only
    rw [List.filter_append, List.filter_cons_of_neg (by simp),
      List.filter_cons_of_neg (by simp), ← List.filter_append, List.take_append_drop]
  · rfl

end Written

section Checked

variable {options : Options} {program others : List Module} {change : Module → Module}
  (added : addPrelude options others = (addPrelude options program).map change)
  (reimports : Reimports (addPrelude options program) change)
  (distinct : (program.map Module.name).Nodup)
include added reimports distinct

theorem others_distinct : (others.map Module.name).Nodup := by
  rw [← add_prelude_names options, added, reimports.names, add_prelude_names]
  exact distinct

theorem check_reimported_back {reordered : List Module}
    (accepted : check options others = .ok reordered) :
    ∃ ordered, check options program = .ok ordered := by
  have names : ((addPrelude options program).map Module.name).Nodup := by
    rw [add_prelude_names]
    exact distinct
  obtain ⟨_, known, resorted, reorder, fine, _⟩ := check_ok_iff.mp accepted
  rw [added] at known reorder fine
  obtain ⟨sorted, order⟩ := (reimports.sort_ok_iff names).mp ⟨resorted, reorder⟩
  have perm := (sort_sorted order).perm names
  have reperm := (sort_sorted reorder).perm ((reimports.names _).symm ▸ names)
  refine ⟨_, check_ok_iff.mpr ⟨distinct, reimports.unknown_imports_nil_iff.mp known, sorted, order,
    fun m member => ?_, rfl⟩⟩
  have inside : m ∈ addPrelude options program := perm.subset member
  exact (reimports.findings_nil_iff inside).mp
    (fine (change m) (reperm.symm.subset (List.mem_map_of_mem inside)))

variable {root : String}
  (beside : ∀ m ∈ addPrelude options program,
    besideRoot root (change m).imports = besideRoot root m.imports)
  (rooted : Rooted root (addPrelude options program)) (present : root ∈ program.map Module.name)
include beside rooted present

theorem check_reimported {ordered : List Module} (accepted : check options program = .ok ordered) :
    check options others = .ok (ordered.map change) := by
  have names : ((addPrelude options program).map Module.name).Nodup := by
    rw [add_prelude_names]
    exact distinct
  obtain ⟨_, known, sorted, order, fine, rfl⟩ := check_ok_iff.mp accepted
  obtain ⟨resorted, reorder⟩ := (reimports.sort_ok_iff names).mpr ⟨sorted, order⟩
  have moved := sort_reimported reimports beside rooted
    ((add_prelude_names options program).symm ▸ present) names known order reorder
  have inside : sorted ⊆ addPrelude options program := ((sort_sorted order).perm names).subset
  subst moved
  refine check_ok_iff.mpr ⟨others_distinct added reimports distinct, ?_, sorted.map change, ?_, ?_,
    ?_⟩
  · rw [added]
    exact reimports.unknown_imports_nil_iff.mpr known
  · rw [added]
    exact reorder
  · rw [added]
    exact List.forall_mem_map.mpr fun m member =>
      (reimports.findings_nil_iff (inside member)).mpr (fine m member)
  · rw [added, List.map_map, List.map_map]
    exact List.map_congr_left fun m member =>
      (reimports.resolve (inside member) (fine m member)).symm

end Checked

section Lines

theorem insert_behind {α : Type} (front back : List α) (entry : α) :
    (front ++ back).insertIdx front.length entry = front ++ entry :: back := by
  induction front with
  | nil => rfl
  | cons first rest ih =>
    rw [List.cons_append, List.length_cons, List.insertIdx_succ_cons, ih, List.cons_append]

def importLines (imports : List Import) : List String :=
  (imports.filter (!·.implicit)).map fun entry => "import " ++ entry.module

def typeLines (m : Module) : List String :=
  m.declaredNames.map fun name => name ++ " :: " ++ (m.typeOf? name).getD unknownType

theorem externs_lines (m : Module) :
    m.externsLines = ("module " ++ m.name ++ " where") :: importLines m.imports ++ m.typeLines :=
  rfl

theorem import_lines_append (front back : List Import) :
    importLines (front ++ back) = importLines front ++ importLines back := by
  unfold importLines
  rw [List.filter_append, List.map_append]

/-- The lines that describe `n`, with an import of the Prelude behind the first `k` imports of `m`
if it is this module. -/
def linesWithPrelude (m : Module) (k : Nat) (n : Module) : List String :=
  if n.name = m.name then
    n.externsLines.insertIdx ((importLines (m.imports.take k)).length + 1)
      ("import " ++ preludeName)
  else n.externsLines

theorem written_externs_lines {m n : Module} (k : Nat) (place : Position)
    (imports : n.name = m.name → n.imports = ⟨preludeName, m.place, true⟩ :: m.imports) :
    (importInstead m.name (m.importPrelude k place).imports n).externsLines =
      linesWithPrelude m k n := by
  unfold importInstead linesWithPrelude
  split
  · rename_i named
    have apart : importLines n.imports =
        importLines (m.imports.take k) ++ importLines (m.imports.drop k) := by
      rw [imports named, ← import_lines_append, List.take_append_drop]
      rfl
    have written : importLines (m.importPrelude k place).imports =
        importLines (m.imports.take k) ++
          ("import " ++ preludeName) :: importLines (m.imports.drop k) :=
      import_lines_append _ _
    show ("module " ++ n.name ++ " where") :: importLines (m.importPrelude k place).imports ++
      n.typeLines = _
    rw [externs_lines, apart, written, List.cons_append, List.cons_append,
      List.insertIdx_succ_cons, List.append_assoc, List.append_assoc, insert_behind]
    rfl
  · rfl

end Lines

theorem Relabels.output [Simplifier] {change : Module → Module} (relabels : Relabels change)
    (options : Options)
    (ordered : List Module) :
    output options (ordered.map change) = (output options ordered).map change := by
  unfold Module.output
  rw [relabels.optimized, relabels.withoutDeadCode, relabels.selected]

theorem output_member [Simplifier] {options : Options} {program ordered : List Module}
    (accepted : check options program = .ok ordered) {n : Module}
    (member : n ∈ output options ordered) :
    ∃ source ∈ addPrelude options program, n.name = source.name ∧ n.imports = source.imports := by
  obtain ⟨distinct, _, sorted, order, _, rfl⟩ := check_ok_iff.mp accepted
  obtain ⟨work, works, fewer⟩ :=
    output_redeclared options (sorted.map (resolve (addPrelude options program)))
  obtain ⟨_, inside, rfl⟩ := List.mem_map.mp (fewer.subset member)
  obtain ⟨source, there, rfl⟩ := List.mem_map.mp inside
  obtain ⟨_, _, same⟩ := works (resolve (addPrelude options program) source)
  refine ⟨source, ?_, ?_, ?_⟩
  · exact ((sort_sorted order).perm ((add_prelude_names options program).symm ▸ distinct)).subset
      there
  · rw [same]
    rfl
  · rw [same]
    rfl

theorem output_names_distinct [Simplifier] {options : Options} {program ordered : List Module}
    (accepted : check options program = .ok ordered) :
    ((output options ordered).map Module.name).Nodup := by
  obtain ⟨work, works, fewer⟩ := output_redeclared options ordered
  have names : (ordered.map work).map Module.name = ordered.map Module.name := by
    rw [List.map_map]
    refine List.map_congr_left fun m _ => ?_
    obtain ⟨_, _, same⟩ := works m
    rw [Function.comp_apply, same]
    rfl
  exact (names ▸ checked_names_distinct accepted).sublist (fewer.map Module.name)

/-- In a program with the Prelude, an import of it that is written in another module, at any place
among its imports, comes to the same as the one that the module gets without: the program is
compiled exactly if it was, and the code is the same. The descriptions of the modules have one line
more, if they have the module at all. -/
theorem written_prelude_compiled_alike [Simplifier] {options : Options} {header : List String}
    {before after : List Module} {m : Module} (k : Nat) (place : Position)
    (wanted : options.noPrelude = false)
    (present : preludeName ∈ (before ++ m :: after).map Module.name)
    (other : m.name ≠ preludeName) (unwritten : preludeName ∉ m.importedModules) :
    ((∃ compiled, compileModules options header (before ++ m :: after) = .ok compiled) ↔
        ∃ recompiled, compileModules options header
          (before ++ m.importPrelude k place :: after) = .ok recompiled) ∧
      ∀ compiled recompiled,
        compileModules options header (before ++ m :: after) = .ok compiled →
        compileModules options header (before ++ m.importPrelude k place :: after) =
          .ok recompiled →
        recompiled.javascript = compiled.javascript ∧ recompiled.notes = compiled.notes ∧
          ∃ ordered, check options (before ++ m :: after) = .ok ordered ∧
            ((output options ordered).map Module.name).Nodup ∧
            compiled.externs = "\n".intercalate ((output options ordered).map fun n =>
              String.join (n.externsLines.map (· ++ "\n"))) ∧
            recompiled.externs = "\n".intercalate ((output options ordered).map fun n =>
              String.join ((linesWithPrelude m k n).map (· ++ "\n"))) := by
  by_cases distinct : ((before ++ m :: after).map Module.name).Nodup
  swap
  · have stuck : ∀ program : List Module,
        program.map Module.name = (before ++ m :: after).map Module.name →
          ¬∃ compiled, compileModules options header program = .ok compiled := by
      rintro program names ⟨compiled, done⟩
      obtain ⟨ordered, accepted, _⟩ := compile_ok_iff.mp done
      exact distinct (names ▸ (check_ok_iff.mp accepted).1)
    refine ⟨iff_of_false (stuck _ rfl) (stuck _ (import_prelude_names k place)), ?_⟩
    exact fun compiled _ done _ => absurd ⟨compiled, done⟩ (stuck _ rfl)
  have added := add_prelude_written k place wanted present other unwritten distinct
  have reimports := written_reimports k place wanted present other unwritten distinct
  have beside := written_beside_prelude k place wanted present other unwritten distinct
  have rooted := add_prelude_rooted wanted present
  have relabels := reimports.toRelabels
  have forward : ∀ ordered, check options (before ++ m :: after) = .ok ordered →
      check options (before ++ m.importPrelude k place :: after) =
        .ok (ordered.map (importInstead m.name (m.importPrelude k place).imports)) :=
    fun ordered accepted =>
      check_reimported added reimports distinct beside rooted present accepted
  refine ⟨⟨?_, ?_⟩, ?_⟩
  · rintro ⟨compiled, done⟩
    obtain ⟨ordered, accepted, fine, _⟩ := compile_ok_iff.mp done
    exact ⟨_, compile_ok_iff.mpr ⟨_, forward ordered accepted,
      (relabels.option_findings_nil_iff options ordered).mpr fine, rfl⟩⟩
  · rintro ⟨recompiled, done⟩
    obtain ⟨reordered, reaccepted, fine, _⟩ := compile_ok_iff.mp done
    obtain ⟨ordered, accepted⟩ := check_reimported_back added reimports distinct reaccepted
    cases reaccepted.symm.trans (forward ordered accepted)
    exact ⟨_, compile_ok_iff.mpr ⟨ordered, accepted,
      (relabels.option_findings_nil_iff options ordered).mp fine, rfl⟩⟩
  · intro compiled recompiled done redone
    obtain ⟨ordered, accepted, _, rfl⟩ := compile_ok_iff.mp done
    obtain ⟨reordered, reaccepted, _, rfl⟩ := compile_ok_iff.mp redone
    cases reaccepted.symm.trans (forward ordered accepted)
    dsimp only
    rw [relabels.output]
    refine ⟨?_, ?_, ordered, accepted, output_names_distinct accepted, rfl, ?_⟩
    · rw [relabels.emitProgram]
    · rw [relabels.optimized, relabels.withoutDeadCode, relabels.compileNotes]
    · unfold externsOf
      rw [List.map_map]
      refine congrArg _ (List.map_congr_left fun n member => ?_)
      obtain ⟨source, inside, named, imports⟩ := output_member accepted member
      rw [Function.comp_apply, externs, written_externs_lines k place fun same => imports.trans
        (with_prelude_of_name wanted present other unwritten distinct inside (named ▸ same))]

theorem tool_compiled_alike :
    ∃ compiled recompiled, compileModules Options.default [] (shadowing ++ [tool]) = .ok compiled ∧
      compileModules Options.default [] (shadowing ++ [tool.importPrelude 1 ⟨3, 1⟩]) =
        .ok recompiled ∧
      recompiled.javascript = compiled.javascript ∧
      linesWithPrelude tool 1 tool =
        ["module Tool where", "import App", "import Prelude", "run :: _"] := by
  have compiles :
      (compileModules Options.default [] (shadowing ++ [tool])).isOk = true := by decide +kernel
  have alike := @written_prelude_compiled_alike _ Options.default [] shadowing [] tool 1 ⟨3, 1⟩ rfl
    (by decide) (by decide) (by decide)
  cases done : compileModules Options.default [] (shadowing ++ [tool]) with
  | error rejection =>
    rw [done] at compiles
    cases compiles
  | ok compiled =>
    obtain ⟨recompiled, redone⟩ := alike.1.mp ⟨compiled, done⟩
    exact ⟨compiled, recompiled, rfl, redone, (alike.2 compiled recompiled done redone).1,
      by decide⟩

end PureJs.Module
