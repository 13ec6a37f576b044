import PureJs.Compile
import PureJs.Proofs.Program.Sorting
import PureJs.Proofs.Program.WellFormed

/-!
The order in which the modules of a program are given decides nothing but the order of their code.
What the check asks of a module, and what it makes of it, depends on the other modules as a
collection only; an ordering exists for one list of them exactly if it does for any other.
-/

namespace PureJs.Module

variable {options : Options} {modules others : List Module}

theorem declares_perm (perm : modules.Perm others) : declares modules = declares others := by
  funext target name
  exact perm.any_eq

theorem lookup_perm (perm : modules.Perm others) : lookup modules = lookup others := by
  funext m use
  simp only [lookup, exporters, declares_perm perm]

theorem findings_perm (perm : modules.Perm others) : findings modules = findings others := by
  have names : nameFindings modules = nameFindings others := by
    funext m d
    cases d with
    | value d => simp only [nameFindings, lookup_perm perm]
    | foreign f => rfl
  funext m
  simp only [findings, names]

theorem resolve_perm (perm : modules.Perm others) : resolve modules = resolve others := by
  funext m
  simp only [resolve, lookup_perm perm]

theorem add_prelude_perm (perm : modules.Perm others) :
    (addPrelude options modules).Perm (addPrelude options others) := by
  have same : withPrelude options modules = withPrelude options others := by
    funext m
    unfold withPrelude
    simp only [(perm.map Module.name).mem_iff]
  rw [add_prelude_eq, add_prelude_eq, same]
  exact perm.map _

theorem imports_known_perm (perm : modules.Perm others) (known : unknownImports modules = []) :
    unknownImports others = [] := by
  rw [unknown_imports_nil_iff] at known ⊢
  intro m member entry imported
  exact (perm.map Module.name).mem_iff.mp (known m (perm.mem_iff.mpr member) entry imported)

theorem imports_within_perm (perm : modules.Perm others) :
    ImportsWithin modules = ImportsWithin others := by
  funext a b
  simp only [ImportsWithin, perm.mem_iff, (perm.map Module.name).mem_iff]

theorem sort_perm (perm : modules.Perm others) (distinct : (modules.map Module.name).Nodup)
    {sorted : List Module} (order : sort modules = .ok sorted) :
    ∃ resorted, sort others = .ok resorted ∧ resorted.Perm sorted := by
  have apart : (others.map Module.name).Nodup := (perm.map Module.name).nodup_iff.mp distinct
  have acyclic := (sort_ok_iff distinct).mp ⟨sorted, order⟩
  rw [imports_within_perm perm] at acyclic
  obtain ⟨resorted, reorder⟩ := (sort_ok_iff apart).mpr acyclic
  have left := (sort_sorted order).perm distinct
  have right := (sort_sorted reorder).perm apart
  exact ⟨resorted, reorder, right.trans (perm.symm.trans left.symm)⟩

theorem check_perm (perm : modules.Perm others) {ordered : List Module}
    (checked : check options modules = .ok ordered) :
    ∃ reordered, check options others = .ok reordered ∧ reordered.Perm ordered := by
  obtain ⟨distinct, known, sorted, order, fine, rfl⟩ := check_ok_iff.mp checked
  have moved : (addPrelude options modules).Perm (addPrelude options others) :=
    add_prelude_perm perm
  have names : ((addPrelude options modules).map Module.name).Nodup := by
    rw [add_prelude_names]
    exact distinct
  obtain ⟨resorted, reorder, same⟩ := sort_perm moved names order
  refine ⟨resorted.map (resolve (addPrelude options others)), check_ok_iff.mpr
    ⟨(perm.map Module.name).nodup_iff.mp distinct, imports_known_perm moved known, resorted,
      reorder, ?_, rfl⟩, ?_⟩
  · intro m member
    rw [← findings_perm moved]
    exact fine m (same.mem_iff.mp member)
  · rw [← resolve_perm moved]
    exact same.map _

theorem checked_names_distinct {ordered : List Module}
    (checked : check options modules = .ok ordered) : (ordered.map Module.name).Nodup := by
  obtain ⟨sorted, accepted, rfl⟩ := check_accepted checked
  rw [List.map_map]
  exact accepted.order.distinct

/-- The lines that set up a module in a program. -/
def block (options : Options) (m : Module) : List String := (m.emit options).lines 1

theorem body_lines (level : Nat) (statements : List Js.Statement) :
    Js.bodyLines level statements = (statements.map (Js.Statement.lines level)).flatten := by
  induction statements with
  | nil => rfl
  | cons s rest ih => rw [Js.bodyLines, ih, List.map_cons, List.flatten_cons]

theorem program_lines (header : List String) (browserNamespace : String) :
    ∃ before after : List String, ∀ body, Js.Program.text ⟨header, body, browserNamespace⟩ =
      "\n".intercalate (before ++ Js.bodyLines 1 body ++ after) := by
  apply Exists.intro
  apply Exists.intro
  intro body
  rw [Js.Program.text]
  dsimp only

def entryRun (options : Options) : List Js.Statement :=
  match options.entryModule with
  | some name => [.run (.call (.property (Js.moduleObject name) "main") [])]
  | none => []

theorem program_blocks (options : Options) (header : List String) :
    ∃ before after : List String, ∀ modules, (emitProgram options header modules).text =
      "\n".intercalate (before ++ (modules.map (block options)).flatten ++ after) := by
  obtain ⟨before, after, text⟩ := program_lines header options.browserNamespace
  refine ⟨before, Js.bodyLines 1 (entryRun options) ++ after, fun modules => ?_⟩
  have body : Js.bodyLines 1 (modules.map (emit options) ++ entryRun options) =
      (modules.map (block options)).flatten ++ Js.bodyLines 1 (entryRun options) := by
    rw [body_lines, body_lines, List.map_append, List.flatten_append, List.map_map]
    rfl
  show Js.Program.text ⟨header, modules.map (emit options) ++ entryRun options, _⟩ = _
  rw [text, body]
  simp only [List.append_assoc]

/-- A program is accepted in one order of its modules exactly if it is in any other. The modules
that come out are the same, with the same imports and with the same things that their names refer
to, and so is the code that is written for each. -/
theorem check_any_order [Simplifier] (perm : modules.Perm others) :
    ((∃ ordered, check options modules = .ok ordered) ↔
        ∃ reordered, check options others = .ok reordered) ∧
      ∀ ordered reordered, check options modules = .ok ordered →
        check options others = .ok reordered →
          reordered.Perm ordered ∧
          (∀ m ∈ ordered, ∀ other ∈ reordered, other.name = m.name → other = m) ∧
          ∀ header, ∃ before after blocks reblocks,
            (emitProgram options header (optimized options ordered)).text =
              "\n".intercalate (before ++ blocks.flatten ++ after) ∧
            (emitProgram options header (optimized options reordered)).text =
              "\n".intercalate (before ++ reblocks.flatten ++ after) ∧
            blocks = (optimized options ordered).map (block options) ∧
            reblocks = (optimized options reordered).map (block options) ∧
            reblocks.Perm blocks := by
  refine ⟨⟨?_, ?_⟩, ?_⟩
  · rintro ⟨ordered, checked⟩
    obtain ⟨reordered, rechecked, _⟩ := check_perm perm checked
    exact ⟨reordered, rechecked⟩
  · rintro ⟨reordered, rechecked⟩
    obtain ⟨ordered, checked, _⟩ := check_perm perm.symm rechecked
    exact ⟨ordered, checked⟩
  · intro ordered reordered checked rechecked
    obtain ⟨found, result, same⟩ := check_perm perm checked
    cases result.symm.trans rechecked
    refine ⟨same, ?_, ?_⟩
    · intro m member other inside named
      exact List.inj_on_of_nodup_map (checked_names_distinct checked) (same.mem_iff.mp inside)
        member named
    · intro header
      obtain ⟨before, after, text⟩ := program_blocks options header
      have folded : (optimized options reordered).Perm (optimized options ordered) := by
        unfold optimized
        split
        · exact same
        · exact same.map _
      exact ⟨before, after, _, _, text _, text _, rfl, rfl, folded.map _⟩

theorem shadowing_any_order :
    shadowing.Perm shadowing.reverse ∧
      ∃ ordered reordered, check Options.default shadowing = .ok ordered ∧
        check Options.default shadowing.reverse = .ok reordered ∧ reordered.Perm ordered ∧
        ordered.map Module.name = ["Prelude", "App"] := by
  have perm : shadowing.Perm shadowing.reverse := (List.reverse_perm shadowing).symm
  have order := @check_any_order Options.default _ _ _ perm
  obtain ⟨ordered, checked, names⟩ : ∃ ordered, check Options.default shadowing = .ok ordered ∧
      ordered.map Module.name = ["Prelude", "App"] := ⟨_, rfl, rfl⟩
  obtain ⟨reordered, rechecked⟩ := order.1.mp ⟨ordered, checked⟩
  exact ⟨perm, ordered, reordered, checked, rechecked,
    (order.2 ordered reordered checked rechecked).1, names⟩

end PureJs.Module
