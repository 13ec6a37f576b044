import PureJs.Proofs.Program.Outcome
import PureJs.Proofs.Program.Relabelled
import PureJs.Proofs.Program.WellFormed

/-!
The names of files only label what is reported. Every step of a compilation makes of modules without
the names of their files what it makes of the modules, less these names; so two runs on the same
texts end alike, whatever files the texts are from.
-/

namespace PureJs

def Module.unfiled (m : Module) : Module := { m with file := unnamedFile }

def Finding.unfiled (finding : Finding) : Finding :=
  { finding with place := finding.place.map fun place => (unnamedFile, place.2) }

def Rejection.unfiled (rejection : Rejection) : Rejection :=
  { rejection with findings := rejection.findings.map Finding.unfiled }

namespace Module

def ImportCycle.unfiled (cycle : ImportCycle) : ImportCycle :=
  { cycle with module := cycle.module.unfiled }

def Refusal.unfiled (refusal : Refusal) : Refusal :=
  ⟨refusal.rejection.unfiled, refusal.modules.map Module.unfiled⟩

theorem unfiled_relabels : Relabels unfiled := ⟨fun _ => rfl, fun _ _ _ => rfl⟩

section Order

variable (modules : List Module)

theorem arrange_unfiled (fuel : Nat) (path : List String) (ordered : List Module) (m : Module) :
    arrange (modules.map unfiled) fuel path (ordered.map unfiled) m.unfiled =
      ((arrange modules fuel path ordered m).map (List.map unfiled)).mapError
        ImportCycle.unfiled := by
  have known : m.unfiled.name ∈ (ordered.map unfiled).map Module.name ↔
      m.name ∈ ordered.map Module.name := by
    rw [unfiled_relabels.names]
    rfl
  induction fuel generalizing path ordered m with
  | zero =>
    unfold arrange
    by_cases old : m.name ∈ ordered.map Module.name
    · rw [if_pos old, if_pos (known.mpr old)]
      rfl
    · rw [if_neg old, if_neg (mt known.mp old)]
      by_cases on : m.name ∈ path
      · rw [if_pos on]
        exact if_pos on
      · rw [if_neg on]
        exact if_neg on
  | succ fuel ih =>
    unfold arrange
    by_cases old : m.name ∈ ordered.map Module.name
    · rw [if_pos old, if_pos (known.mpr old)]
      rfl
    · rw [if_neg old, if_neg (mt known.mp old)]
      by_cases on : m.name ∈ path
      · rw [if_pos on]
        exact if_pos on
      · rw [if_neg on]
        refine (if_neg on).trans ?_
        have folded := fold_mapped (follow modules fuel (path ++ [m.name]))
          (follow (modules.map unfiled) fuel (path ++ [m.name])) (List.map unfiled) id
          ImportCycle.unfiled m.imports
          (by
            intro start entry _
            dsimp only [id]
            unfold follow
            rw [unfiled_relabels.lookup?]
            cases lookup? modules entry.module with
            | none => rfl
            | some imported => exact ih _ _ imported (by rw [unfiled_relabels.names]; rfl))
          ordered
        rw [List.map_id] at folded
        exact (congrArg (fun result => result >>= _) folded).trans (bind_mapped _ fun _ => rfl)

theorem sort_unfiled :
    sort (modules.map unfiled) =
      ((sort modules).map (List.map unfiled)).mapError ImportCycle.unfiled := by
  have folded := fold_mapped (arrange modules modules.length [])
    (arrange (modules.map unfiled) modules.length []) (List.map unfiled) unfiled
    ImportCycle.unfiled modules
    (fun start m _ => arrange_unfiled modules _ _ start m) []
  unfold sort
  rw [List.length_map]
  rw [List.map_nil] at folded
  rw [folded]
  exact bind_mapped _ fun ordered => congrArg Except.ok List.map_reverse.symm

end Order

section Check

variable (options : Options) (modules : List Module) (m : Module)

theorem with_prelude_unfiled :
    withPrelude options (modules.map unfiled) m.unfiled =
      (withPrelude options modules m).unfiled := by
  unfold withPrelude
  rw [unfiled_relabels.names]
  by_cases missing : options.noPrelude = false ∧ preludeName ∈ modules.map Module.name ∧
      m.name ≠ preludeName ∧ preludeName ∉ m.importedModules
  · rw [if_pos missing]
    exact if_pos missing
  · rw [if_neg missing]
    exact if_neg missing

theorem add_prelude_unfiled :
    addPrelude options (modules.map unfiled) = (addPrelude options modules).map unfiled := by
  rw [add_prelude_eq, add_prelude_eq, List.map_map, List.map_map]
  exact List.map_congr_left fun m _ => with_prelude_unfiled options modules m

theorem repeated_unfiled (known : List String) :
    repeated Module.name known (modules.map unfiled) =
      (repeated Module.name known modules).map unfiled := by
  induction modules generalizing known with
  | nil => rfl
  | cons m rest ih =>
    rw [List.map_cons, repeated, repeated]
    by_cases seen : m.name ∈ known
    · rw [if_pos seen, List.map_cons, ← ih known]
      exact if_pos seen
    · rw [if_neg seen, ← ih]
      exact if_neg seen

theorem repeated_modules_unfiled :
    repeatedModules (modules.map unfiled) = (repeatedModules modules).map Finding.unfiled := by
  unfold repeatedModules
  rw [repeated_unfiled, List.map_map, List.map_map]
  rfl

theorem unknown_imports_unfiled :
    unknownImports (modules.map unfiled) = (unknownImports modules).map Finding.unfiled := by
  unfold unknownImports
  rw [unfiled_relabels.names, List.flatMap_map, List.map_flatMap]
  simp only [List.map_map]
  rfl

theorem lookup_name_unfiled : lookup (modules.map unfiled) m.unfiled = lookup modules m := by
  funext use
  simp only [lookup, exporters, unfiled_relabels.declares]
  rfl

theorem declaration_findings_unfiled (known : List String) (declarations : List Declaration) :
    declarationFindings m.unfiled known declarations =
      (declarationFindings m known declarations).map Finding.unfiled := by
  induction declarations generalizing known with
  | nil => rfl
  | cons d rest ih =>
    simp only [declarationFindings, List.map_append, ih]
    congr 1
    congr 1
    · split <;> rfl
    · cases d with
      | value v => dsimp only; split <;> rfl
      | foreign f => rfl

theorem signature_findings_unfiled (known : List String) (signatures : List Signature) :
    signatureFindings m.unfiled known signatures =
      (signatureFindings m known signatures).map Finding.unfiled := by
  induction signatures generalizing known with
  | nil => rfl
  | cons s rest ih =>
    simp only [signatureFindings, List.map_append, ih]
    congr 1
    congr 1
    · split <;> rfl
    · show (if m.declarations.any (fun d => d.value?.any (·.name = s.name)) then [] else _) = _
      split <;> rfl

theorem name_findings_unfiled (d : Declaration) :
    nameFindings (modules.map unfiled) m.unfiled d =
      (nameFindings modules m d).map Finding.unfiled := by
  cases d with
  | value d =>
    simp only [nameFindings, lookup_name_unfiled, List.map_filterMap]
    apply List.filterMap_congr
    intro use _
    cases lookup modules m use <;> rfl
  | foreign f => rfl

theorem findings_unfiled :
    findings (modules.map unfiled) m.unfiled = (findings modules m).map Finding.unfiled := by
  unfold findings
  rw [declaration_findings_unfiled, signature_findings_unfiled, List.map_append, List.map_append,
    List.map_flatMap, funext (name_findings_unfiled modules m)]
  rfl

theorem resolve_unfiled : resolve (modules.map unfiled) m.unfiled =
    (resolve modules m).unfiled := by
  unfold resolve
  rw [lookup_name_unfiled]
  rfl

theorem check_unfiled :
    check options (modules.map unfiled) =
      ((check options modules).map (List.map unfiled)).mapError Refusal.unfiled := by
  have none_iff : ∀ found : List Finding, found.map Finding.unfiled ≠ [] ↔ found ≠ [] :=
    fun _ => not_congr List.map_eq_nil_iff
  unfold check
  dsimp only
  rw [repeated_modules_unfiled, add_prelude_unfiled, unknown_imports_unfiled, sort_unfiled]
  simp only [none_iff]
  split
  · rfl
  · split
    · rfl
    · cases sort (addPrelude options modules) with
      | error cycle => rfl
      | ok ordered =>
        have found : (ordered.map unfiled).flatMap
            (findings ((addPrelude options modules).map unfiled)) =
              (ordered.flatMap (findings (addPrelude options modules))).map Finding.unfiled := by
          rw [List.flatMap_map, List.map_flatMap]
          simp only [findings_unfiled]
        have resolved : ∀ list : List Module,
            (list.map unfiled).map (resolve ((addPrelude options modules).map unfiled)) =
              (list.map (resolve (addPrelude options modules))).map unfiled := by
          intro list
          rw [List.map_map, List.map_map]
          exact List.map_congr_left fun m _ => resolve_unfiled _ m
        dsimp only [Except.map, Except.mapError]
        rw [found, resolved, resolved]
        simp only [none_iff]
        split <;> rfl

end Check

section Compile

variable (options : Options) (modules : List Module)

theorem option_findings_unfiled :
    optionFindings options (modules.map unfiled) =
      (optionFindings options modules).map Finding.unfiled := by
  have unknown : ∀ flag names, unknownModules (modules.map unfiled) flag names =
      (unknownModules modules flag names).map Finding.unfiled := by
    intro flag names
    unfold unknownModules
    rw [unfiled_relabels.names, List.map_map]
    rfl
  have entry : ∀ name, entryFindings (modules.map unfiled) name =
      (entryFindings modules name).map Finding.unfiled := by
    intro name
    have found : (modules.map unfiled).find? (·.name = name) =
        (modules.find? (·.name = name)).map unfiled := List.find?_map
    unfold entryFindings
    rw [found]
    cases modules.find? (·.name = name) with
    | none => rfl
    | some m =>
      show (if m.declarations.any (fun d => d.value?.any (·.name = entryName)) then [] else _) = _
      dsimp only
      split <;> rfl
  unfold optionFindings
  rw [unknown, unknown, List.map_append, List.map_append]
  cases options.entryModule with
  | none => rfl
  | some name => exact congrArg _ (entry name)

theorem externs_unfiled : externsOf (modules.map unfiled) = externsOf modules := by
  unfold externsOf
  rw [List.map_map]
  rfl

theorem compile_unfiled [Simplifier] (header : List String) :
    compileModules options header (modules.map unfiled) =
      (compileModules options header modules).mapError Rejection.unfiled := by
  unfold compileModules
  rw [check_unfiled]
  cases check options modules with
  | error refusal => rfl
  | ok ordered =>
    dsimp only [Except.map, Except.mapError]
    rw [option_findings_unfiled, unfiled_relabels.optimized, unfiled_relabels.withoutDeadCode,
      unfiled_relabels.selected, unfiled_relabels.emitProgram, externs_unfiled,
      unfiled_relabels.compileNotes]
    by_cases fine : optionFindings options ordered = []
    · rw [if_neg (not_not.mpr fine), if_neg (by rw [fine]; exact not_not.mpr rfl)]
    · rw [if_pos fine, if_pos (mt List.map_eq_nil_iff.mp fine)]
      rfl

end Compile

section Reading

variable (text : List Char)

theorem one_unfiled (file : String) (c : Cursor) :
    parseOne unnamedFile text c =
      (parseOne file text c).map fun read => (read.1.unfiled, read.2) := by
  have goes : ∀ {α β : Type} (result : Except ParseFault α) {next : α → Except ParseFault β}
      {next' : α → Except ParseFault β} {change : β → β},
      (∀ value, next' value = (next value).map change) →
        result >>= next' = (result >>= next).map change := by
    intro α β result next next' change each
    cases result with
    | error fault => rfl
    | ok value => exact each value
  unfold parseOne
  split
  · rfl
  · apply goes
    intro name
    apply goes
    intro word
    apply goes
    intro bound
    apply goes
    intro items
    rfl

theorem all_unfiled (file : String) (fuel : Nat) (c : Cursor) :
    parseAll unnamedFile text fuel c = (parseAll file text fuel c).map (List.map unfiled) := by
  induction fuel generalizing c with
  | zero => rfl
  | succ fuel ih =>
    unfold parseAll
    split
    · rfl
    · rw [one_unfiled text file]
      cases parseOne file text c with
      | error fault => rfl
      | ok read =>
        have rest := ih read.2
        dsimp only [Except.map, bind, Except.bind]
        rw [rest]
        cases parseAll file text fuel read.2 <;> rfl

theorem text_unfiled (file : String) :
    ofText unnamedFile text = (ofText file text).map (List.map unfiled) := by
  unfold ofText
  split
  · rfl
  · exact all_unfiled text file _ _

end Reading

end Module

def SourceUnit.unfiled (unit : SourceUnit) : SourceUnit := { unit with origin := none }

def SourceFault.unfiled : SourceFault → SourceFault
  | .rejected rejection => .rejected rejection.unfiled
  | .numeral fault => .numeral fault
  | .exhausted => .exhausted

def CompileFault.unfiled : CompileFault → CompileFault
  | .rejected stage rejection => .rejected stage rejection.unfiled
  | .numeral fault => .numeral fault
  | .exhausted => .exhausted

theorem units_unfiled (units : List SourceUnit) :
    parseUnits (units.map SourceUnit.unfiled) =
      ((parseUnits units).map (List.map Module.unfiled)).mapError SourceFault.unfiled := by
  induction units with
  | nil => rfl
  | cons unit rest ih =>
    rw [List.map_cons]
    unfold parseUnits
    have read : Module.ofText unit.unfiled.file unit.unfiled.text.toList =
        (Module.ofText unit.file unit.text.toList).map (List.map Module.unfiled) :=
      Module.text_unfiled _ _
    rw [read, ih]
    cases Module.ofText unit.file unit.text.toList with
    | error fault => cases fault <;> rfl
    | ok modules =>
      cases parseUnits rest with
      | error fault => rfl
      | ok others =>
        show Except.ok (_ ++ _) = Except.ok ((modules ++ others).map Module.unfiled)
        rw [List.map_append]

theorem sources_unfiled [Simplifier] (options : Options) (header : List String)
    (units : List SourceUnit) :
    compileSources options header (units.map SourceUnit.unfiled) =
      ((compileSources options header units).1,
        (compileSources options header units).2.mapError CompileFault.unfiled) := by
  unfold compileSources
  rw [units_unfiled]
  cases parseUnits units with
  | error fault => cases fault <;> rfl
  | ok modules =>
    dsimp only [Except.map, Except.mapError]
    rw [Module.compile_unfiled, List.length_map]
    cases compileModules options header modules <;> rfl

def Diagnostic.unfiled (d : Diagnostic) : Diagnostic :=
  { d with location := d.location.map fun place => { place with file := unnamedFile } }

/-- Two compilations end alike: with the same code, with as many diagnostics of the same stage that
differ in the names of files at most, or at the same literal without a value. -/
inductive EndAlike : Except CompileFault Compiled → Except CompileFault Compiled → Prop
  | compiled (compiled : Compiled) : EndAlike (.ok compiled) (.ok compiled)
  | rejected {stage : Stage} {first second : Rejection} (verbose : first.verbose = second.verbose)
      (diagnostics : first.diagnostics.map Diagnostic.unfiled =
        second.diagnostics.map Diagnostic.unfiled) :
      EndAlike (.error (.rejected stage first)) (.error (.rejected stage second))
  | numeral (fault : Text.NumeralFault) :
      EndAlike (.error (.numeral fault)) (.error (.numeral fault))

theorem diagnostics_unfiled (rejection : Rejection) :
    rejection.unfiled.diagnostics = rejection.diagnostics.map Diagnostic.unfiled := by
  unfold Rejection.diagnostics Rejection.unfiled
  rw [List.map_map, List.map_map]
  apply List.map_congr_left
  intro finding _
  cases place : finding.place <;>
    simp [Finding.diagnostic, Finding.unfiled, Diagnostic.unfiled, Position.inFile, place]

theorem sources_not_exhausted [Simplifier] {options : Options} {header : List String}
    {units : List SourceUnit} :
    (compileSources options header units).2 ≠ .error .exhausted := by
  intro ends
  unfold compileSources at ends
  cases read : parseUnits units with
  | error fault =>
    have told := units_fault_told read
    rw [read] at ends
    cases fault with
    | rejected rejection => cases ends
    | numeral fault => cases ends
    | exhausted => exact told
  | ok modules =>
    rw [read] at ends
    dsimp only at ends
    split at ends <;> cases ends

theorem end_alike {first second : Except CompileFault Compiled}
    (same : first.mapError CompileFault.unfiled = second.mapError CompileFault.unfiled)
    (ends : first ≠ .error .exhausted) : EndAlike first second := by
  cases first with
  | ok compiled =>
    cases second with
    | ok other =>
      cases same
      exact .compiled compiled
    | error fault => cases same
  | error fault =>
    cases second with
    | ok compiled => cases same
    | error other =>
      have faults : fault.unfiled = other.unfiled := by simpa [Except.mapError] using same
      cases fault with
      | rejected stage first =>
        cases other with
        | rejected at_ second =>
          obtain ⟨rfl, reports⟩ := CompileFault.rejected.inj faults
          have verbose : first.unfiled.verbose = second.unfiled.verbose := by rw [reports]
          refine .rejected verbose ?_
          rw [← diagnostics_unfiled, reports, diagnostics_unfiled]
        | numeral | exhausted => cases faults
      | numeral fault =>
        cases other with
        | numeral other =>
          cases faults
          exact .numeral fault
        | rejected | exhausted => cases faults
      | exhausted => exact absurd rfl ends

/-- Texts come to the same end, and the same is told on the way, whatever files they are from. -/
theorem origins_only_label [Simplifier] (options : Options) (header : List String)
    {units others : List SourceUnit}
    (same : units.map SourceUnit.text = others.map SourceUnit.text) :
    (compileSources options header units).1 = (compileSources options header others).1 ∧
      EndAlike (compileSources options header units).2
        (compileSources options header others).2 := by
  have texts : ∀ list : List SourceUnit, list.map SourceUnit.unfiled =
      (list.map SourceUnit.text).map fun text => ⟨none, text⟩ := by
    intro list
    rw [List.map_map]
    rfl
  have runs := sources_unfiled options header units
  rw [texts, same, ← texts, sources_unfiled options header others, Prod.mk.injEq] at runs
  exact ⟨runs.1.symm, end_alike runs.2.symm sources_not_exhausted⟩

def strayUnits (origin : Option String) : List SourceUnit :=
  [⟨origin, "module A where\nx = y\n"⟩, ⟨none, "module B where\n"⟩]

def isRejected (stage : Stage) (message : String) : Except CompileFault Compiled → Bool
  | .error (.rejected known rejection) => known = stage && rejection.message = message
  | _ => false

theorem stray_units_end_alike :
    (strayUnits none).map SourceUnit.text = (strayUnits (some "a")).map SourceUnit.text ∧
      isRejected .compile "Error at <stdin>:2:5: Unknown value 'y'"
        (compileSources Options.default [] (strayUnits none)).2 = true ∧
      isRejected .compile "Error at a:2:5: Unknown value 'y'"
        (compileSources Options.default [] (strayUnits (some "a"))).2 = true ∧
      EndAlike (compileSources Options.default [] (strayUnits none)).2
        (compileSources Options.default [] (strayUnits (some "a"))).2 := by
  have same : (strayUnits none).map SourceUnit.text = (strayUnits (some "a")).map SourceUnit.text :=
    rfl
  exact ⟨same, by decide +kernel, by decide +kernel,
    (origins_only_label Options.default [] same).2⟩

end PureJs
