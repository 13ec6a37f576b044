import PureJs.Compile

/-!
What a compilation makes of checked modules hangs on their names and on what they declare. A change
of anything else about them goes through all steps and is not to be seen in the code.
-/

namespace PureJs.Module

def redeclare (declarations : List Declaration) (signatures : List Signature) (m : Module) :
    Module :=
  { m with declarations := declarations, signatures := signatures }

/-- A change of modules that leaves their names, and that has nothing to do with what they declare
and sign. -/
structure Relabels (change : Module → Module) : Prop where
  name : ∀ m, (change m).name = m.name
  redeclared : ∀ m declarations signatures,
    change (m.redeclare declarations signatures) = (change m).redeclare declarations signatures

theorem Relabels.unchanged {change : Module → Module} (relabels : Relabels change) (m : Module) :
    change m = (change m).redeclare m.declarations m.signatures :=
  relabels.redeclared m m.declarations m.signatures

theorem Relabels.declarations {change : Module → Module} (relabels : Relabels change) (m : Module) :
    (change m).declarations = m.declarations := by
  rw [relabels.unchanged m]
  rfl

theorem Relabels.signatures {change : Module → Module} (relabels : Relabels change) (m : Module) :
    (change m).signatures = m.signatures := by
  rw [relabels.unchanged m]
  rfl

theorem emit_congr {options : Options} {m other : Module} (name : other.name = m.name)
    (declarations : other.declarations = m.declarations) :
    other.emit options = m.emit options := by
  unfold emit orderedDeclarations uses declaredNames
  simp only [name, declarations]

section Relabelled

variable {change : Module → Module} (relabels : Relabels change) (options : Options)
  (modules : List Module)
include relabels

theorem Relabels.names : (modules.map change).map Module.name = modules.map Module.name := by
  rw [List.map_map]
  exact List.map_congr_left fun m _ => relabels.name m

theorem Relabels.declaredNames (m : Module) : (change m).declaredNames = m.declaredNames :=
  congrArg (List.map Declaration.name) (relabels.declarations m)

theorem Relabels.declares : declares (modules.map change) = declares modules := by
  funext target name
  unfold Module.declares
  rw [List.any_map]
  simp only [Function.comp_def, relabels.name, relabels.declaredNames]

theorem Relabels.lookup? (name : String) :
    lookup? (modules.map change) name = (lookup? modules name).map change := by
  unfold Module.lookup?
  rw [← List.map_reverse, List.find?_map]
  simp only [Function.comp_def, relabels.name]

theorem Relabels.optimize [Simplifier] (m : Module) : (change m).optimize = change m.optimize := by
  show (change m).redeclare ((change m).declarations.map _) (change m).signatures =
    change (m.redeclare (m.declarations.map _) m.signatures)
  rw [relabels.redeclared, relabels.declarations, relabels.signatures]

theorem Relabels.optimized [Simplifier] :
    optimized options (modules.map change) = (optimized options modules).map change := by
  unfold PureJs.optimized
  split
  · rfl
  · rw [List.map_map, List.map_map]
    exact List.map_congr_left fun m _ => relabels.optimize m

theorem Relabels.keys : keys (modules.map change) = keys modules := by
  unfold Module.keys
  rw [List.flatMap_map]
  simp only [relabels.name, relabels.declaredNames]

theorem Relabels.live (roots : List String) (extra : List (String × String)) :
    live (modules.map change) roots extra = live modules roots extra := by
  have entries : entries (modules.map change) = entries modules := by
    unfold Module.entries
    rw [List.flatMap_map]
    simp only [relabels.name, relabels.declarations]
  have needs : dependencies (modules.map change) = dependencies modules := by
    funext key
    simp only [dependencies, entries, relabels.keys]
  unfold Module.live
  rw [needs, relabels.keys]

theorem Relabels.keepLive (alive : List (String × String)) (m : Module) :
    keepLive alive (change m) = change (keepLive alive m) := by
  show (change m).redeclare ((change m).declarations.filter _) ((change m).signatures.filter _) =
    change (m.redeclare (m.declarations.filter _) (m.signatures.filter _))
  rw [relabels.redeclared, relabels.name, relabels.declarations, relabels.signatures]

theorem Relabels.eliminateDead (roots : List String) (extra : List (String × String)) :
    eliminateDead roots extra (modules.map change) =
      (eliminateDead roots extra modules).map change := by
  have kept : (modules.map change).map (Module.keepLive (Module.live modules roots extra)) =
      (modules.map (Module.keepLive (Module.live modules roots extra))).map change := by
    rw [List.map_map, List.map_map]
    exact List.map_congr_left fun m _ => relabels.keepLive _ m
  unfold Module.eliminateDead
  dsimp only
  rw [relabels.live, kept, List.filter_map]
  simp only [Function.comp_def, relabels.name, relabels.declarations]

theorem Relabels.withoutDeadCode :
    withoutDeadCode options (modules.map change) =
      (withoutDeadCode options modules).map change := by
  unfold PureJs.withoutDeadCode
  split
  · rfl
  · exact relabels.eliminateDead _ _ _

theorem Relabels.selected :
    selected options (modules.map change) = (selected options modules).map change := by
  unfold PureJs.selected
  split
  · rfl
  · rw [List.filter_map]
    simp only [Function.comp_def, relabels.name]

theorem Relabels.emitProgram (header : List String) :
    emitProgram options header (modules.map change) = emitProgram options header modules := by
  unfold Module.emitProgram
  rw [List.map_map]
  congr 2
  exact List.map_congr_left fun m _ => emit_congr (relabels.name m) (relabels.declarations m)

theorem Relabels.compileNotes (kept output : List Module) :
    compileNotes options (kept.map change) (output.map change) =
      compileNotes options kept output := by
  unfold PureJs.compileNotes
  rw [List.length_map, relabels.names, List.isEmpty_map]

theorem Relabels.option_findings_nil_iff :
    optionFindings options (modules.map change) = [] ↔ optionFindings options modules = [] := by
  have unknown : ∀ flag names, unknownModules (modules.map change) flag names =
      unknownModules modules flag names := by
    intro flag names
    unfold unknownModules
    rw [relabels.names]
  have entry : ∀ name, entryFindings (modules.map change) name = [] ↔
      entryFindings modules name = [] := by
    intro name
    have found : (modules.map change).find? (·.name = name) =
        (modules.find? (·.name = name)).map change := by
      rw [List.find?_map]
      simp only [Function.comp_def, relabels.name]
    unfold entryFindings
    rw [found]
    cases modules.find? (·.name = name) with
    | none => rfl
    | some m =>
      dsimp only [Option.map]
      rw [relabels.declarations]
      split
      · rfl
      · exact iff_of_false (List.cons_ne_nil _ _) (List.cons_ne_nil _ _)
  unfold optionFindings
  rw [unknown, unknown]
  simp only [List.append_eq_nil_iff]
  refine and_congr_right fun _ => ?_
  cases options.entryModule with
  | none => rfl
  | some name => exact entry name

end Relabelled

def Redeclares (work : Module → Module) : Prop :=
  ∀ m, ∃ declarations signatures, work m = m.redeclare declarations signatures

theorem Redeclares.comp {late early : Module → Module} (second : Redeclares late)
    (first : Redeclares early) : Redeclares (late ∘ early) := by
  intro m
  obtain ⟨_, _, same⟩ := first m
  obtain ⟨declarations, signatures, again⟩ := second (early m)
  rw [same] at again
  exact ⟨declarations, signatures, (congrArg late same).trans again⟩

theorem eliminate_dead_redeclared (roots : List String) (extra : List (String × String))
    (modules : List Module) :
    ∃ work, Redeclares work ∧ (eliminateDead roots extra modules).Sublist (modules.map work) :=
  ⟨keepLive (Module.live modules roots extra), fun _ => ⟨_, _, rfl⟩, List.filter_sublist⟩

theorem output_redeclared [Simplifier] (options : Options) (ordered : List Module) :
    ∃ work, Redeclares work ∧
      (selected options (withoutDeadCode options (optimized options ordered))).Sublist
        (ordered.map work) := by
  obtain ⟨fold, folds, folded⟩ :
      ∃ fold, Redeclares fold ∧ optimized options ordered = ordered.map fold := by
    unfold optimized
    split
    · exact ⟨id, fun m => ⟨m.declarations, m.signatures, rfl⟩, (List.map_id _).symm⟩
    · exact ⟨Module.optimize, fun m => ⟨_, _, rfl⟩, rfl⟩
  obtain ⟨work, works, fewer⟩ : ∃ work, Redeclares work ∧
      (withoutDeadCode options (optimized options ordered)).Sublist (ordered.map work) := by
    rw [folded]
    unfold withoutDeadCode
    split
    · exact ⟨fold, folds, List.Sublist.refl _⟩
    · obtain ⟨keep, keeps, kept⟩ := eliminate_dead_redeclared options.rootModules
        (options.entryModule.toList.map (·, entryName)) (ordered.map fold)
      exact ⟨keep ∘ fold, keeps.comp folds, by rwa [← List.map_map]⟩
  refine ⟨work, works, List.Sublist.trans ?_ fewer⟩
  unfold selected
  split
  · exact List.Sublist.refl _
  · exact List.filter_sublist

end PureJs.Module
