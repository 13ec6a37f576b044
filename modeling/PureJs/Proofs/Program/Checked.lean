import PureJs.Program.Check
import PureJs.Program.Fold
import PureJs.Proofs.Program.Order
import PureJs.Proofs.Program.Scope

/-!
What is known of a program once it is accepted: its modules are told apart by their names and use
no others, they stand in the order in which they use one another, and every name in them is found.
-/

namespace PureJs

namespace Module

section Repeated

variable {α : Type} {key : α → String}

theorem repeated_nil_iff {known : List String} {entries : List α} :
    repeated key known entries = [] ↔
      (∀ entry ∈ entries, key entry ∉ known) ∧ (entries.map key).Nodup := by
  induction entries generalizing known with
  | nil => simp [repeated]
  | cons entry rest ih =>
    unfold repeated
    by_cases seen : key entry ∈ known
    · simp [seen]
    · simp only [seen, ↓reduceIte, ih, List.mem_cons, not_or, List.map_cons, List.nodup_cons,
        List.mem_map, not_exists, not_and, forall_eq_or_imp, not_false_eq_true, true_and]
      constructor
      · rintro ⟨others, distinct⟩
        exact ⟨fun other member => (others other member).2,
          fun other member => (others other member).1, distinct⟩
      · rintro ⟨old, new, distinct⟩
        exact ⟨fun other member => ⟨new other member, old other member⟩, distinct⟩

end Repeated

theorem repeated_modules_nil_iff {modules : List Module} :
    repeatedModules modules = [] ↔ (modules.map Module.name).Nodup := by
  rw [repeatedModules, List.map_eq_nil_iff, repeated_nil_iff]
  simp

def parameterFindings (m : Module) : Declaration → List Finding
  | .value v => if v.params.Nodup then [] else [m.finding v.place (.repeatedParameter v.name)]
  | .foreign _ => []

theorem declaration_findings_nil_iff {m : Module} {known : List String}
    {declarations : List Declaration} :
    declarationFindings m known declarations = [] ↔
      (∀ d ∈ declarations, d.name ∉ known) ∧ (declarations.map Declaration.name).Nodup ∧
        ∀ d, Declaration.value d ∈ declarations → d.params.Nodup := by
  induction declarations generalizing known with
  | nil => simp [declarationFindings]
  | cons d rest ih =>
    have params : parameterFindings m d = [] ↔
        ∀ v, Declaration.value v = d → v.params.Nodup := by
      cases d with
      | value v => by_cases distinct : v.params.Nodup <;> simp [parameterFindings, distinct]
      | foreign f => simp [parameterFindings]
    have step : declarationFindings m known (d :: rest) =
        (if d.name ∈ known then [m.finding d.place (.repeatedValue d.name)] else []) ++
          parameterFindings m d ++ declarationFindings m (d.name :: known) rest := rfl
    simp only [step, List.append_eq_nil_iff, ih]
    by_cases seen : d.name ∈ known
    · simp [seen]
    · simp only [seen, ↓reduceIte, true_and, List.mem_cons, not_or, List.map_cons, List.nodup_cons,
        List.mem_map, not_exists, not_and, forall_eq_or_imp, not_false_eq_true]
      constructor
      · rintro ⟨own, others, distinct, rest⟩
        refine ⟨fun other member => (others other member).2,
          ⟨fun other member => (others other member).1, distinct⟩, ?_⟩
        rintro v (same | member)
        · exact params.mp own v same
        · exact rest v member
      · rintro ⟨old, ⟨new, distinct⟩, every⟩
        exact ⟨params.mpr fun v same => every v (Or.inl same),
          fun other member => ⟨new other member, old other member⟩, distinct,
          fun v member => every v (Or.inr member)⟩

theorem signature_findings_nil_iff {m : Module} {known : List String}
    {signatures : List Signature} :
    signatureFindings m known signatures = [] ↔
      (∀ s ∈ signatures, s.name ∉ known) ∧ (signatures.map Signature.name).Nodup ∧
        ∀ s ∈ signatures, ∃ d, Declaration.value d ∈ m.declarations ∧ d.name = s.name := by
  induction signatures generalizing known with
  | nil => simp [signatureFindings]
  | cons s rest ih =>
    have defined : m.declarations.any (fun d => d.value?.any (·.name = s.name)) = true ↔
        ∃ d, Declaration.value d ∈ m.declarations ∧ d.name = s.name := by
      rw [List.any_eq_true]
      constructor
      · rintro ⟨d, member, named⟩
        cases d with
        | value v => exact ⟨v, member, by simpa [Declaration.value?] using named⟩
        | foreign f => cases named
      · rintro ⟨v, member, named⟩
        exact ⟨_, member, by simpa [Declaration.value?] using named⟩
    simp only [signatureFindings, List.append_eq_nil_iff, ih]
    by_cases seen : s.name ∈ known
    · simp [seen]
    · simp only [seen, ↓reduceIte, true_and, List.mem_cons, not_or, List.map_cons, List.nodup_cons,
        List.mem_map, not_exists, not_and, forall_eq_or_imp, not_false_eq_true, ite_eq_left_iff,
        reduceCtorEq, imp_false, Bool.not_eq_true, Bool.not_eq_false, ← defined]
      constructor
      · rintro ⟨own, others, distinct, every⟩
        exact ⟨fun other member => (others other member).2,
          ⟨fun other member => (others other member).1, distinct⟩, own, every⟩
      · rintro ⟨old, ⟨new, distinct⟩, own, every⟩
        exact ⟨own, fun other member => ⟨new other member, old other member⟩, distinct, every⟩

theorem name_findings_nil_iff {modules : List Module} {m : Module} {d : ValueDeclaration} :
    nameFindings modules m (.value d) = [] ↔
      ∀ use ∈ d.body.occurrences d.params, ∃ found, lookup modules m use = .ok found := by
  simp only [nameFindings, List.filterMap_eq_nil_iff]
  constructor
  · intro none use member
    have here := none use member
    cases found : lookup modules m use with
    | ok target => exact ⟨target, rfl⟩
    | error problem => simp [found] at here
  · intro all use member
    obtain ⟨target, found⟩ := all use member
    simp [found]

structure Accepted (program sorted : List Module) : Prop where
  distinct : (program.map Module.name).Nodup
  imports : ∀ m ∈ program, ∀ entry ∈ m.imports, entry.module ∈ program.map Module.name
  order : Sorted program sorted
  declared : ∀ m ∈ sorted, m.declaredNames.Nodup
  params : ∀ m ∈ sorted, ∀ d, Declaration.value d ∈ m.declarations → d.params.Nodup
  found : ∀ m ∈ sorted, ∀ d, Declaration.value d ∈ m.declarations →
    ∀ use ∈ d.body.occurrences d.params, ∃ target, lookup program m use = .ok target

theorem add_prelude_names (options : Options) (modules : List Module) :
    (addPrelude options modules).map Module.name = modules.map Module.name := by
  unfold addPrelude
  split
  · rfl
  · rw [List.map_map]
    apply List.map_congr_left
    intro m _
    dsimp only [Function.comp]
    split <;> rfl

theorem add_prelude_declarations {options : Options} {modules : List Module} {m : Module}
    (member : m ∈ addPrelude options modules) :
    ∃ source ∈ modules, source.name = m.name ∧ source.declarations = m.declarations := by
  unfold addPrelude at member
  split at member
  · exact ⟨m, member, rfl, rfl⟩
  · obtain ⟨source, inside, same⟩ := List.mem_map.mp member
    refine ⟨source, inside, ?_⟩
    split at same <;> subst same <;> exact ⟨rfl, rfl⟩

theorem unknown_imports_nil_iff {modules : List Module} :
    unknownImports modules = [] ↔
      ∀ m ∈ modules, ∀ entry ∈ m.imports, entry.module ∈ modules.map Module.name := by
  simp only [unknownImports, List.flatMap_eq_nil_iff, List.map_eq_nil_iff, List.filter_eq_nil_iff,
    decide_eq_true_eq, Decidable.not_not]

/-- Nothing is declared or signed twice in the module, no value has a parameter twice, and what has
a signature is a value. -/
structure WellDeclared (m : Module) : Prop where
  declared : m.declaredNames.Nodup
  params : ∀ d, Declaration.value d ∈ m.declarations → d.params.Nodup
  signed : (m.signatures.map Signature.name).Nodup
  defined : ∀ s ∈ m.signatures, ∃ d, Declaration.value d ∈ m.declarations ∧ d.name = s.name

theorem findings_nil_iff {modules : List Module} {m : Module} :
    findings modules m = [] ↔ m.WellDeclared ∧
      ∀ d, Declaration.value d ∈ m.declarations → ∀ use ∈ d.body.occurrences d.params,
        ∃ target, lookup modules m use = .ok target := by
  simp only [findings, List.append_eq_nil_iff, List.flatMap_eq_nil_iff,
    declaration_findings_nil_iff, signature_findings_nil_iff]
  constructor
  · rintro ⟨⟨⟨_, declared, params⟩, _, signed, defined⟩, names⟩
    exact ⟨⟨declared, params, signed, defined⟩,
      fun d member => name_findings_nil_iff.mp (names _ member)⟩
  · rintro ⟨whole, names⟩
    refine ⟨⟨⟨fun _ _ => List.not_mem_nil, whole.declared, whole.params⟩,
      fun _ _ => List.not_mem_nil, whole.signed, whole.defined⟩, ?_⟩
    intro d member
    cases d with
    | value d => exact name_findings_nil_iff.mpr (names d member)
    | foreign f => rfl

theorem check_ok_iff {options : Options} {modules ordered : List Module} :
    check options modules = .ok ordered ↔
      (modules.map Module.name).Nodup ∧
      unknownImports (addPrelude options modules) = [] ∧
      ∃ sorted, sort (addPrelude options modules) = .ok sorted ∧
        (∀ m ∈ sorted, findings (addPrelude options modules) m = []) ∧
        ordered = sorted.map (resolve (addPrelude options modules)) := by
  unfold check
  dsimp only
  simp only [← repeated_modules_nil_iff, ← List.flatMap_eq_nil_iff]
  by_cases once : repeatedModules modules = []
  · rw [if_neg (not_not.mpr once)]
    by_cases known : unknownImports (addPrelude options modules) = []
    · rw [if_neg (not_not.mpr known)]
      cases order : sort (addPrelude options modules) with
      | error cycle => simp
      | ok sorted =>
        dsimp only
        split
        · rename_i wrong
          refine ⟨nofun, ?_⟩
          rintro ⟨_, _, _, same, fine, _⟩
          cases same
          exact absurd fine wrong
        · rename_i fine
          constructor
          · intro same
            cases same
            exact ⟨once, known, sorted, rfl, not_not.mp fine, rfl⟩
          · rintro ⟨_, _, _, same, _, rfl⟩
            cases same
            rfl
    · simp [known]
  · simp [once]

inductive Refused (options : Options) (modules : List Module) : List Finding → Prop
  | repeated (wrong : ¬(modules.map Module.name).Nodup) :
      Refused options modules (repeatedModules modules)
  | unknown (once : (modules.map Module.name).Nodup)
      (wrong : unknownImports (addPrelude options modules) ≠ []) :
      Refused options modules (unknownImports (addPrelude options modules))
  | circle {cycle : ImportCycle} (once : (modules.map Module.name).Nodup)
      (known : unknownImports (addPrelude options modules) = [])
      (stuck : sort (addPrelude options modules) = .error cycle) :
      Refused options modules [cycle.finding]
  | inside {sorted : List Module} (once : (modules.map Module.name).Nodup)
      (known : unknownImports (addPrelude options modules) = [])
      (order : sort (addPrelude options modules) = .ok sorted)
      (wrong : sorted.flatMap (findings (addPrelude options modules)) ≠ []) :
      Refused options modules (sorted.flatMap (findings (addPrelude options modules)))

theorem check_refused {options : Options} {modules : List Module} {refusal : Refusal}
    (refused : check options modules = .error refusal) :
    Refused options modules refusal.rejection.findings := by
  unfold check at refused
  dsimp only at refused
  split at refused
  · rename_i wrong
    cases refused
    exact .repeated (mt repeated_modules_nil_iff.mpr wrong)
  · rename_i once
    have once := repeated_modules_nil_iff.mp (not_not.mp once)
    split at refused
    · rename_i wrong
      cases refused
      exact .unknown once wrong
    · rename_i known
      split at refused
      · rename_i stuck
        cases refused
        exact .circle once (not_not.mp known) stuck
      · rename_i order
        split at refused
        · rename_i wrong
          cases refused
          exact .inside once (not_not.mp known) order wrong
        · cases refused

theorem accepted_of_findings {options : Options} {modules sorted : List Module}
    (distinct : (modules.map Module.name).Nodup)
    (known : unknownImports (addPrelude options modules) = [])
    (order : sort (addPrelude options modules) = .ok sorted)
    (fine : ∀ m ∈ sorted, findings (addPrelude options modules) m = []) :
    Accepted (addPrelude options modules) sorted := by
  have each := fun m member => findings_nil_iff.mp (fine m member)
  refine ⟨?_, unknown_imports_nil_iff.mp known, sort_sorted order, ?_, ?_, ?_⟩
  · rw [add_prelude_names]
    exact distinct
  · exact fun m member => (each m member).1.declared
  · exact fun m member => (each m member).1.params
  · exact fun m member => (each m member).2

theorem check_accepted {options : Options} {modules ordered : List Module}
    (checked : check options modules = .ok ordered) :
    ∃ sorted, Accepted (addPrelude options modules) sorted ∧
      ordered = sorted.map (resolve (addPrelude options modules)) := by
  obtain ⟨distinct, known, sorted, order, fine, same⟩ := check_ok_iff.mp checked
  exact ⟨sorted, accepted_of_findings distinct known order fine, same⟩

theorem resolve_declared_names (modules : List Module) (m : Module) :
    (resolve modules m).declaredNames = m.declaredNames := by
  unfold declaredNames resolve
  rw [List.map_map]
  apply List.map_congr_left
  intro d _
  cases d <;> rfl

theorem resolve_values {modules : List Module} {m : Module} {d : ValueDeclaration}
    (member : Declaration.value d ∈ (resolve modules m).declarations) :
    ∃ source, Declaration.value source ∈ m.declarations ∧
      d = { source with body := source.body.resolveWith (lookup modules m) source.params } := by
  obtain ⟨source, inside, same⟩ := List.mem_map.mp member
  cases source with
  | value source =>
    cases same
    exact ⟨source, inside, rfl⟩
  | foreign source => cases same

theorem Accepted.resolved {program sorted : List Module} (accepted : Accepted program sorted)
    {m : Module} (member : m ∈ sorted) {d : ValueDeclaration}
    (value : Declaration.value d ∈ (resolve program m).declarations) {use : Occurrence}
    (inside : use ∈ d.body.occurrences d.params) :
    lookup program m use = .ok use.resolved := by
  obtain ⟨source, declared, same⟩ := resolve_values value
  subst same
  rw [Expr.resolved_occurrences] at inside
  obtain ⟨written, there, resolved⟩ := List.mem_map.mp inside
  obtain ⟨target, found⟩ := accepted.found m member source declared written there
  rw [Occurrence.resolveWith, found] at resolved
  subst resolved
  exact found

theorem Accepted.same_module {program sorted : List Module} (accepted : Accepted program sorted)
    {m other : Module} (left : m ∈ program) (right : other ∈ program) (same : m.name = other.name) :
    m = other :=
  List.inj_on_of_nodup_map accepted.distinct left right same

theorem Accepted.lookup_member {program sorted : List Module} (accepted : Accepted program sorted)
    {m : Module} (member : m ∈ program) : lookup? program m.name = some m :=
  lookup_distinct accepted.distinct member

/-- The value that a name in `m` stands for is declared in `m` or in a module before it. -/
def Reaches (earlier : List Module) (m : Module) (target name : String) : Prop :=
  (target = m.name ∧ name ∈ m.declaredNames) ∨
    (target ≠ m.name ∧ ∃ other ∈ earlier, other.name = target ∧ name ∈ other.declaredNames)

theorem Accepted.refers {program sorted before after : List Module} {m : Module}
    (accepted : Accepted program sorted) (split : sorted = before ++ m :: after) {use : Occurrence}
    {target : String} (found : lookup program m use = .ok (some target)) :
    Reaches before m target use.name := by
  have here : m ∈ program := accepted.order.members m (by simp [split])
  have behind : ∀ other ∈ program, other.name ∈ m.importedModules →
      other.name ∈ before.map Module.name := by
    intro other inside imported
    obtain ⟨entry, member, same⟩ := List.mem_map.mp imported
    exact accepted.order.follows before m after split entry member other
      (same ▸ accepted.lookup_member inside)
  have apart : m.name ∉ before.map Module.name := by
    intro member
    have distinct := accepted.order.distinct
    rw [split, List.map_append, List.map_cons] at distinct
    exact (List.nodup_middle.mp distinct).notMem (List.mem_append_left _ member)
  have imports : target ∈ m.importedModules → declares program target use.name = true →
      Reaches before m target use.name := by
    intro imported declared
    obtain ⟨other, inside, rfl, named⟩ := declares_iff.mp declared
    have listed := behind other inside imported
    refine Or.inr ⟨fun same => apart (same ▸ listed), ?_⟩
    obtain ⟨first, stands, equal⟩ := List.mem_map.mp listed
    have sorted : first ∈ program := accepted.order.members first (by simp [split, stands])
    rw [accepted.same_module sorted inside equal] at stands
    exact ⟨other, stands, rfl, named⟩
  have own : declares program m.name use.name = true → use.name ∈ m.declaredNames := by
    intro declared
    obtain ⟨other, inside, same, named⟩ := declares_iff.mp declared
    exact accepted.same_module inside here same ▸ named
  rcases lookup_value found with ⟨_, rfl | imported, declared⟩ | ⟨_, _, own | ⟨imported, declared⟩⟩
  · exact Or.inl ⟨rfl, own declared⟩
  · exact imports imported declared
  · exact Or.inl own
  · exact imports imported declared

end Module

end PureJs
