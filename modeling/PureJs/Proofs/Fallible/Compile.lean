import PureJs.Proofs.Fallible.Code
import PureJs.Proofs.Fallible.Liveness

/-!
Compiling with every step that could fail: the look-ups of marks, paths and declarations, the
entries of lists, and the digits of numbers. After a successful reading, the compiler ends in code
or refuses the program, and that is all it does.
-/

namespace PureJs

theorem Module.eliminate_dead_formed {roots : List String} {extra : List (String × String)}
    {program : List Module} (formed : ∀ m ∈ program, m.Formed) :
    ∀ m ∈ eliminateDead roots extra program, m.Formed := by
  intro m member d declared
  obtain ⟨source, inside, rfl, _⟩ := mem_eliminate_dead.mp member
  exact formed source inside d (List.mem_of_mem_filter declared)

namespace Fallible

/-- The modules of a program in dependency order, with what their names refer to. -/
def check (options : Options) (modules : List Module) : Except Fault (List Module) :=
  let refuse (findings : List Finding) :=
    Except.error (Fault.refused ⟨findings, options.verboseErrors⟩)
  if Module.repeatedModules modules ≠ [] then refuse (Module.repeatedModules modules)
  else
    let modules := Module.addPrelude options modules
    if Module.unknownImports modules ≠ [] then refuse (Module.unknownImports modules)
    else do
      let ordered ← sort options modules
      if ordered.flatMap (Module.findings modules) ≠ [] then
        refuse (ordered.flatMap (Module.findings modules))
      else pure (ordered.map (Module.resolve modules))

/-- The modules without dead code, if there are root modules. -/
def withoutDeadCode (options : Options) (modules : List Module) : Except Fault (List Module) :=
  if options.rootModules.isEmpty then pure modules
  else eliminateDead options.rootModules (options.entryModule.toList.map (·, entryName)) modules

def compile [Simplifier] (options : Options) (header : List String) (modules : List Module) :
    Except Fault Compiled := do
  let ordered ← check options modules
  if optionFindings options ordered ≠ [] then
    throw (.refused ⟨optionFindings options ordered, options.verboseErrors⟩)
  else
    let kept ← withoutDeadCode options (optimized options ordered)
    let output := selected options kept
    let program ← emitProgram options header output
    pure {
      javascript := program.text
      externs := Module.externsOf output
      notes := compileNotes options kept output }

theorem check_eq (options : Options) (modules : List Module) :
    check options modules =
      (Module.check options modules).mapError fun refusal => .refused refusal.rejection := by
  unfold check Module.check
  dsimp only
  split
  · rfl
  · split
    · rfl
    · rw [sort_eq]
      cases Module.sort (Module.addPrelude options modules) with
      | error cycle => rfl
      | ok ordered =>
        dsimp only [Except.mapError, bind, Except.bind]
        split <;> rfl

theorem without_dead_code_eq (options : Options) (modules : List Module) :
    withoutDeadCode options modules = .ok (PureJs.withoutDeadCode options modules) := by
  unfold withoutDeadCode PureJs.withoutDeadCode
  split
  · rfl
  · exact eliminate_dead_eq _ _ _

theorem compile_eq [Simplifier] {options : Options} {header : List String} {modules : List Module}
    (formed : ∀ m ∈ modules, m.Formed) :
    compile options header modules =
      (compileModules options header modules).mapError .refused := by
  unfold compile compileModules
  rw [check_eq]
  cases checked : Module.check options modules with
  | error refusal => rfl
  | ok ordered =>
    have written : ∀ m ∈ selected options
        (PureJs.withoutDeadCode options (optimized options ordered)), m.Formed := by
      intro m member d declared
      obtain ⟨_, source, inside, _, fewer⟩ := emitted_source member
      exact optimized_keeps_formed (Module.check_formed formed checked) source inside d
        (fewer.subset declared)
    dsimp only [Except.mapError, bind, Except.bind]
    split
    · rfl
    · rw [without_dead_code_eq]
      dsimp only
      rw [emit_program_eq options header written]
      rfl

/-- All programs that can be read have a shape: do blocks end in an expression, so that they have a
first and a last statement, lambdas have parameters, and whole numbers are not too long. Checking,
folding and dropping dead code keep it. Under it, no look-up and no entry of a list is missing, so
that the compiler gives code or refuses the program, as `compileModules` does. -/
theorem compiled_or_refused [Simplifier] (options : Options) (header : List String)
    {units : List SourceUnit}
    {modules : List Module} (read : parseUnits units = .ok modules) :
    (∀ m ∈ modules, m.Formed) ∧
      (∀ program ordered, (∀ m ∈ program, m.Formed) → Module.check options program = .ok ordered →
        ∀ m ∈ ordered, m.Formed) ∧
      (∀ m : Module, m.Formed → m.optimize.Formed) ∧
      (∀ roots extra program, (∀ m ∈ program, m.Formed) →
        ∀ m ∈ Module.eliminateDead roots extra program, m.Formed) ∧
      compile options header modules =
        (compileModules options header modules).mapError .refused :=
  ⟨parseUnits_formed read, fun _ _ => Module.check_formed, fun _ => Module.optimize_formed,
    fun _ _ _ => Module.eliminate_dead_formed, compile_eq (parseUnits_formed read)⟩

def variedUnits : List SourceUnit :=
  [⟨none, "module A where\ncount n m = if n == 0 then m else count (n - 1) (m + 1)\n" ++
    "main = do\n  x <- count 1\n  let f = \\y -> x\n  f x\n"⟩]

theorem varied_units_compiled_or_refused :
    ∃ modules compiled, parseUnits variedUnits = .ok modules ∧
      modules.map (fun m => (m.name, m.declaredNames)) = [("A", ["count", "main"])] ∧
      (∀ m ∈ modules, m.Formed) ∧ compile Options.default [] modules = .ok compiled ∧
      compiled.externs = "module A where\ncount :: _\nmain :: _\n" := by
  have reads : (parseUnits variedUnits).toOption.any (fun modules =>
      modules.map (fun m => (m.name, m.declaredNames)) = [("A", ["count", "main"])] &&
        (compileModules Options.default [] modules).toOption.any
          (·.externs = "module A where\ncount :: _\nmain :: _\n")) = true := by decide +kernel
  obtain ⟨modules, read, both⟩ := any_gives reads
  rw [Bool.and_eq_true] at both
  obtain ⟨compiled, done, externs⟩ := any_gives both.2
  obtain ⟨formed, _, _, _, same⟩ := compiled_or_refused Options.default [] read
  rw [done] at same
  exact ⟨modules, compiled, read, of_decide_eq_true both.1, formed, same, of_decide_eq_true externs⟩

end Fallible

end PureJs
