import PureJs.Proofs.Program.Cycles

/-!
An ordering of modules is a topological sort: it exists unless imports lead in a circle, it loses
and repeats no module, and modules that stand in order already are left as they are.
-/

namespace PureJs.Module

variable {modules : List Module}

/-- Each module stands behind all modules of the list that it imports. -/
def InOrder (modules : List Module) : Prop :=
  ∀ before m after, modules = before ++ m :: after →
    ∀ imported ∈ modules, imported.name ∈ m.importedModules → imported ∈ before

theorem Sorted.perm {sorted : List Module} (order : Sorted modules sorted)
    (distinct : (modules.map Module.name).Nodup) : sorted.Perm modules := by
  rw [List.perm_ext_iff_of_nodup order.distinct.of_map distinct.of_map]
  intro m
  exact ⟨order.members m, order.member distinct⟩

theorem Sorted.in_order {sorted : List Module} (order : Sorted modules sorted)
    (distinct : (modules.map Module.name).Nodup) : InOrder sorted := by
  intro before m after split imported member imports
  obtain ⟨entry, written, target⟩ := List.mem_map.mp imports
  have inside := order.members imported member
  have found : lookup? modules entry.module = some imported := by
    rw [target]
    exact lookup_distinct distinct inside
  obtain ⟨other, there, same⟩ :=
    List.mem_map.mp (order.follows before m after split entry written imported found)
  have listed : other ∈ sorted := by simp [split, there]
  rwa [List.inj_on_of_nodup_map order.distinct listed member same] at there

theorem arrange_next (fuel : Nat) {ordered : List Module} {m : Module}
    (new : m.name ∉ ordered.map Module.name)
    (ready : ∀ entry ∈ m.imports, ∀ imported, lookup? modules entry.module = some imported →
      imported.name ∈ ordered.map Module.name) :
    arrange modules (fuel + 1) [] ordered m = .ok (m :: ordered) := by
  rw [arrange_new fuel new List.not_mem_nil, fold_stays]
  · rfl
  · intro entry member
    unfold follow
    cases found : lookup? modules entry.module with
    | none => rfl
    | some imported => exact arrange_known _ _ (ready entry member imported found)

theorem fold_in_order (distinct : (modules.map Module.name).Nodup) (ordered : InOrder modules)
    (fuel : Nat) {before rest : List Module} (split : modules = before ++ rest) :
    rest.foldlM (arrange modules (fuel + 1) []) before.reverse = .ok modules.reverse := by
  induction rest generalizing before with
  | nil =>
    rw [split, List.append_nil]
    rfl
  | cons m rest ih =>
    have names := distinct
    rw [split, List.map_append, List.map_cons] at names
    have new : m.name ∉ before.reverse.map Module.name := by
      intro known
      have front : m.name ∈ before.map Module.name := by simpa using known
      exact (List.nodup_middle.mp names).notMem (List.mem_append_left _ front)
    have ready : ∀ entry ∈ m.imports, ∀ imported, lookup? modules entry.module = some imported →
        imported.name ∈ before.reverse.map Module.name := by
      intro entry member imported found
      obtain ⟨inside, same⟩ := lookup_member found
      have imports : imported.name ∈ m.importedModules := same ▸ List.mem_map_of_mem member
      have front := ordered before m rest split imported inside imports
      rw [List.map_reverse, List.mem_reverse]
      exact List.mem_map_of_mem front
    rw [List.foldlM_cons, arrange_next fuel new ready]
    have later := ih (show modules = (before ++ [m]) ++ rest by simp [split])
    rw [List.reverse_append] at later
    exact later

theorem sort_in_order (distinct : (modules.map Module.name).Nodup) (ordered : InOrder modules) :
    sort modules = .ok modules := by
  cases modules with
  | nil => rfl
  | cons m rest =>
    have folded := fold_in_order distinct ordered rest.length (List.nil_append _).symm
    unfold sort
    rw [List.length_cons]
    simp only [List.reverse_nil] at folded
    rw [folded]
    simp [bind, Except.bind, pure, Except.pure]

/-- Modules of distinct names are refused exactly if imports lead in a circle among them. All others
are put in an order in which each one stands behind what it imports, which changes nothing if they
stand in such an order already. -/
theorem sort_topological (distinct : (modules.map Module.name).Nodup) :
    ((∃ cycle, sort modules = .error cycle) ↔
        ∃ name, Relation.TransGen (ImportsWithin modules) name name) ∧
      (∀ sorted, sort modules = .ok sorted → sorted.Perm modules ∧ InOrder sorted) ∧
      (InOrder modules → sort modules = .ok modules) := by
  refine ⟨?_, ?_, sort_in_order distinct⟩
  · constructor
    · rintro ⟨cycle, failed⟩
      exact ⟨_, (sort_fails failed).leads⟩
    · rintro ⟨name, circle⟩
      cases result : sort modules with
      | error cycle => exact ⟨cycle, rfl⟩
      | ok sorted => exact absurd circle ((sort_ok_iff distinct).mp ⟨sorted, result⟩ name)
  · intro sorted result
    have order := sort_sorted result
    exact ⟨order.perm distinct, order.in_order distinct⟩

/-- A module that imports the same one twice and one that nobody has, in front of what it imports,
which imports a further one. -/
def tangled : List Module :=
  let place : Position := ⟨1, 1⟩
  let named (name : String) (imports : List String) : Module :=
    ⟨name, name, place, imports.map (⟨·, place, false⟩), [], []⟩
  [named "App" ["View", "View", "Lost"], named "Core" [], named "View" ["Core"]]

theorem tangled_sorted :
    (tangled.map Module.name).Nodup ∧
      ∃ sorted, sort tangled = .ok sorted ∧ sorted.map Module.name = ["Core", "View", "App"] ∧
        sorted.Perm tangled ∧ InOrder sorted := by
  have distinct : (tangled.map Module.name).Nodup := by decide
  obtain ⟨sorted, result, names⟩ : ∃ sorted, sort tangled = .ok sorted ∧
      sorted.map Module.name = ["Core", "View", "App"] := ⟨_, rfl, rfl⟩
  exact ⟨distinct, sorted, result, names, (sort_topological distinct).2.1 sorted result⟩

end PureJs.Module
