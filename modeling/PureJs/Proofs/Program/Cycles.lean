import PureJs.Proofs.Program.Order
import Mathlib.Data.List.Chain
import Mathlib.Data.List.DropRight
import Mathlib.Logic.Relation

/-!
When modules can be ordered. An ordering that fails has walked along a chain of imports back to a
module on it; an ordering that succeeds leaves no such chain, since imports only lead backwards in
it.
-/

namespace PureJs.Module

variable {modules : List Module}

/-- A module of the first name imports one of the second, both among the given ones. -/
def ImportsWithin (modules : List Module) (a b : String) : Prop :=
  ∃ m ∈ modules, m.name = a ∧ b ∈ m.importedModules ∧ b ∈ modules.map Module.name

/-- Each module on the path imports the next one, and the path comes to no module twice but to the
first one at its end. -/
structure ImportCycle.Real (modules : List Module) (cycle : ImportCycle) : Prop where
  linked : List.IsChain (ImportsWithin modules) cycle.path
  closed : ∃ rest, cycle.path = cycle.module.name :: rest ++ [cycle.module.name] ∧
    (cycle.module.name :: rest).Nodup

theorem chain_leads {α : Type} {r : α → α → Prop} {a b : α} {rest : List α}
    (chain : List.IsChain r (a :: rest ++ [b])) : Relation.TransGen r a b := by
  induction rest generalizing a with
  | nil => exact .single (List.isChain_pair.mp chain)
  | cons c rest ih =>
    obtain ⟨first, others⟩ := List.isChain_cons_cons.mp chain
    exact .head first (ih others)

theorem ImportCycle.Real.leads {cycle : ImportCycle} (real : cycle.Real modules) :
    Relation.TransGen (ImportsWithin modules) cycle.module.name cycle.module.name := by
  obtain ⟨rest, same, _⟩ := real.closed
  have linked := real.linked
  rw [same] at linked
  exact chain_leads linked

theorem cycle_at_real {path : List String} {m : Module} (on : m.name ∈ path)
    (distinct : path.Nodup) (linked : List.IsChain (ImportsWithin modules) (path ++ [m.name])) :
    (cycleAt path m).Real modules := by
  have split := List.takeWhile_append_dropWhile (p := fun x => decide (x ≠ m.name)) (l := path)
  cases back : path.dropWhile (fun x => decide (x ≠ m.name)) with
  | nil =>
    have away := List.dropWhile_eq_nil_iff.mp back m.name on
    simp at away
  | cons first rest =>
    have stops := List.head?_dropWhile_not (fun x => decide (x ≠ m.name)) path
    simp only [back, List.head?_cons, decide_eq_false_iff_not, ne_eq, Decidable.not_not] at stops
    subst stops
    rw [back] at split
    have same : (cycleAt path m).path = m.name :: rest ++ [m.name] := by rw [cycleAt, back]
    refine ⟨?_, rest, same, ?_⟩
    · rw [same]
      rw [← split, List.append_assoc] at linked
      exact linked.right_of_append
    · rw [← split] at distinct
      exact distinct.of_append_right

/-- A path of imports to a module: each module on it imports the next one, and none comes twice. -/
structure Trodden (modules : List Module) (path : List String) (m : Module) : Prop where
  inside : m ∈ modules
  known : path ⊆ modules.map Module.name
  distinct : path.Nodup
  linked : List.IsChain (ImportsWithin modules) (path ++ [m.name])

theorem Trodden.shorter {path : List String} {m : Module} (trodden : Trodden modules path m)
    (off : m.name ∉ path) : path.length < modules.length := by
  have named : m.name ∈ modules.map Module.name := List.mem_map_of_mem trodden.inside
  have longer := (List.nodup_cons.mpr ⟨off, trodden.distinct⟩).length_le_of_subset
    (List.cons_subset.mpr ⟨named, trodden.known⟩)
  simp only [List.length_cons, List.length_map] at longer
  omega

theorem Trodden.next {path : List String} {m imported : Module}
    (trodden : Trodden modules path m) (off : m.name ∉ path)
    (imports : imported.name ∈ m.importedModules) (inside : imported ∈ modules) :
    Trodden modules (path ++ [m.name]) imported := by
  refine ⟨inside, ?_, ?_, ?_⟩
  · intro name member
    rcases List.mem_append.mp member with old | last
    · exact trodden.known old
    · rw [List.mem_singleton.mp last]
      exact List.mem_map_of_mem trodden.inside
  · rw [← List.concat_eq_append]
    exact trodden.distinct.concat off
  · refine List.isChain_append.mpr ⟨trodden.linked, List.isChain_singleton _, ?_⟩
    intro a last b first
    simp only [List.getLast?_append_cons, List.getLast?_singleton, Option.mem_def,
      Option.some.injEq, List.head?_cons] at last first
    subst last first
    exact ⟨m, trodden.inside, rfl, imports, List.mem_map_of_mem inside⟩

theorem arrange_fails (fuel : Nat) {path : List String} {before : List Module} {m : Module}
    {cycle : ImportCycle} (trodden : Trodden modules path m)
    (enough : modules.length ≤ path.length + fuel)
    (failed : arrange modules fuel path before m = .error cycle) : cycle.Real modules := by
  induction fuel generalizing path before m with
  | zero =>
    unfold arrange at failed
    split at failed
    · cases failed
    · split at failed
      · rename_i on
        cases failed
        exact cycle_at_real on trodden.distinct trodden.linked
      · rename_i off
        -- the path is shorter than the list of modules, so that the bound never ends an ordering
        have shorter := trodden.shorter off
        omega
  | succ fuel ih =>
    unfold arrange at failed
    split at failed
    · cases failed
    · split at failed
      · rename_i on
        cases failed
        exact cycle_at_real on trodden.distinct trodden.linked
      · rename_i off
        rcases bind_fails failed with folded | ⟨_, _, last⟩
        · obtain ⟨entry, member, middle, result⟩ := fold_fails folded
          cases found : lookup? modules entry.module with
          | none =>
            rw [found] at result
            cases result
          | some imported =>
            rw [found] at result
            obtain ⟨there, same⟩ := lookup_member found
            have imports : imported.name ∈ m.importedModules :=
              same ▸ List.mem_map_of_mem member
            refine ih (trodden.next off imports there) ?_ result
            rw [List.length_append, List.length_singleton]
            omega
        · cases last

theorem sort_fails {cycle : ImportCycle} (failed : sort modules = .error cycle) :
    cycle.Real modules := by
  rcases bind_fails failed with folded | ⟨_, _, last⟩
  · obtain ⟨m, inside, before, result⟩ := fold_fails folded
    have trodden : Trodden modules [] m :=
      ⟨inside, List.nil_subset _, List.nodup_nil, List.isChain_singleton _⟩
    exact arrange_fails modules.length trodden (Nat.le_add_left _ _) result
  · cases last

theorem arrange_fails_inside {fuel : Nat} {path : List String} {before : List Module} {m : Module}
    {cycle : ImportCycle} (inside : m ∈ modules)
    (failed : arrange modules fuel path before m = .error cycle) : cycle.module ∈ modules := by
  induction fuel generalizing path before m with
  | zero =>
    unfold arrange at failed
    split at failed
    · cases failed
    · split at failed <;> cases failed <;> exact inside
  | succ fuel ih =>
    by_cases known : m.name ∈ before.map Module.name
    · rw [arrange_known _ _ known] at failed
      cases failed
    · by_cases on : m.name ∈ path
      · unfold arrange at failed
        rw [if_neg known, if_pos on] at failed
        cases failed
        exact inside
      · rw [arrange_new fuel known on] at failed
        rcases bind_fails failed with folded | ⟨_, _, last⟩
        · obtain ⟨entry, _, middle, step⟩ := fold_fails folded
          unfold follow at step
          split at step
          · cases step
          · rename_i found
            exact ih (lookup_member found).1 step
        · cases last

/-- What is reported of modules that cannot be ordered: the names along a chain of imports that
comes back to where it starts and to no module twice before. -/
theorem reported_cycle_real {cycle : ImportCycle} (failed : sort modules = .error cycle) :
    ∃ k, 1 ≤ k ∧ cycle.path.length = k + 1 ∧ cycle.path[0]? = cycle.path[k]? ∧
      (cycle.path.take k).Nodup ∧
      (∀ i < k, ∃ m ∈ modules, cycle.path[i]? = some m.name ∧
        ∃ next ∈ m.importedModules, cycle.path[i + 1]? = some next) ∧
      cycle.module ∈ modules ∧ cycle.path[0]? = some cycle.module.name ∧
      cycle.finding.diagnostic =
        { kind := .moduleError
          message := "Cycle in module dependencies: " ++ " -> ".intercalate cycle.path
          location := some (cycle.module.place.inFile cycle.module.file)
          context := [] } := by
  have real := sort_fails failed
  obtain ⟨rest, path, distinct⟩ := real.closed
  have length : cycle.path.length = rest.length + 1 + 1 := by simp [path]
  have linked := List.isChain_iff_getElem.mp real.linked
  refine ⟨rest.length + 1, Nat.le_add_left 1 _, length, ?_, ?_, ?_, ?_, ?_, rfl⟩
  · simp [path]
  · simpa [path] using distinct
  · intro i less
    obtain ⟨m, inside, name, imports, _⟩ := linked i (by omega)
    refine ⟨m, inside, ?_, _, imports, List.getElem?_eq_getElem _⟩
    rw [name, List.getElem?_eq_getElem]
  · rcases bind_fails failed with folded | ⟨_, _, last⟩
    · obtain ⟨m, inside, before, step⟩ := fold_fails folded
      exact arrange_fails_inside inside step
    · cases last
  · simp [path]

def sketch (name : String) (imports : List String) : Module :=
  ⟨name, name, ⟨1, 1⟩, imports.map (⟨·, ⟨1, 1⟩, false⟩), [], []⟩

def looping : List Module :=
  [sketch "App" ["Core", "View"], sketch "Core" [], sketch "View" ["Core", "Store"],
    sketch "Store" ["Log"], sketch "Log" ["View"]]

theorem looping_reported :
    ∃ cycle, sort looping = .error cycle ∧ cycle.path = ["View", "Store", "Log", "View"] ∧
      cycle.finding.diagnostic.message =
        "Cycle in module dependencies: View -> Store -> Log -> View" ∧ cycle.module ∈ looping := by
  obtain ⟨cycle, failed, path⟩ : ∃ cycle, sort looping = .error cycle ∧
      cycle.path = ["View", "Store", "Log", "View"] := ⟨_, rfl, rfl⟩
  obtain ⟨_, _, _, _, _, _, inside, _, report⟩ := reported_cycle_real failed
  refine ⟨cycle, failed, path, ?_, inside⟩
  rw [report, path]
  rfl

theorem Sorted.member {sorted : List Module} (order : Sorted modules sorted)
    (distinct : (modules.map Module.name).Nodup) {m : Module} (inside : m ∈ modules) :
    m ∈ sorted := by
  obtain ⟨other, there, same⟩ := List.mem_map.mp (order.complete m inside)
  rwa [List.inj_on_of_nodup_map distinct (order.members other there) inside same] at there

theorem Sorted.imports_before {sorted : List Module} (order : Sorted modules sorted)
    (distinct : (modules.map Module.name).Nodup) {a b : String}
    (imports : ImportsWithin modules a b) :
    (sorted.map Module.name).idxOf b < (sorted.map Module.name).idxOf a := by
  obtain ⟨m, inside, rfl, imported, listed⟩ := imports
  obtain ⟨entry, written, rfl⟩ := List.mem_map.mp imported
  obtain ⟨target, there, same⟩ := List.mem_map.mp listed
  obtain ⟨before, after, rfl⟩ := List.append_of_mem (order.member distinct inside)
  have earlier : entry.module ∈ before.map Module.name := by
    rw [← same]
    exact order.follows before m after rfl entry written target
      (same ▸ lookup_distinct distinct there)
  have own : m.name ∉ before.map Module.name := by
    intro member
    have alone := order.distinct
    rw [List.map_append, List.map_cons] at alone
    exact (List.nodup_middle.mp alone).notMem (List.mem_append_left _ member)
  rw [List.map_append, List.map_cons, List.idxOf_append_of_mem earlier,
    List.idxOf_append_of_notMem own]
  have bound := List.idxOf_lt_length_of_mem earlier
  omega

/-- Modules of distinct names can be ordered exactly if no chain of imports comes back to where it
starts. -/
theorem sort_ok_iff (distinct : (modules.map Module.name).Nodup) :
    (∃ sorted, sort modules = .ok sorted) ↔
      ∀ name, ¬Relation.TransGen (ImportsWithin modules) name name := by
  constructor
  · rintro ⟨sorted, result⟩ name cycle
    have order := sort_sorted result
    have less : ∀ {a b}, Relation.TransGen (ImportsWithin modules) a b →
        (sorted.map Module.name).idxOf b < (sorted.map Module.name).idxOf a := by
      intro a b path
      induction path with
      | single one => exact order.imports_before distinct one
      | tail _ last ih => exact (order.imports_before distinct last).trans ih
    exact Nat.lt_irrefl _ (less cycle)
  · intro acyclic
    cases result : sort modules with
    | error cycle => exact absurd (sort_fails result).leads (acyclic _)
    | ok sorted => exact ⟨sorted, rfl⟩

end PureJs.Module
