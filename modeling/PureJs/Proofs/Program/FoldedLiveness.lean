import PureJs.Proofs.Program.Reachability

/-!
Dead code after folding. Bodies that refer to less need less, so that folding before dead code
elimination never keeps more than elimination alone does; everything but the bodies is as before.
-/

namespace PureJs

/-- The same declaration, but for the body of a value. -/
inductive Declaration.Rebodied : Declaration → Declaration → Prop
  | value (d : ValueDeclaration) (body : Expr) : Rebodied (value d) (value { d with body := body })
  | foreign (d : ForeignDeclaration) : Rebodied (foreign d) (foreign d)

theorem Declaration.map_body_name (f : Expr → Expr) (d : Declaration) :
    (d.mapBody f).name = d.name := by
  cases d <;> rfl

namespace Module

/-- The same module, but for the bodies of its values. -/
structure Rebodied (m changed : Module) : Prop where
  name : changed.name = m.name
  file : changed.file = m.file
  place : changed.place = m.place
  imports : changed.imports = m.imports
  declarations : List.Forall₂ Declaration.Rebodied m.declarations changed.declarations
  signatures : changed.signatures = m.signatures

/-- The same module, but some declarations and signatures are left out. -/
structure Within (m wider : Module) : Prop where
  name : m.name = wider.name
  file : m.file = wider.file
  place : m.place = wider.place
  imports : m.imports = wider.imports
  declarations : m.declarations.Sublist wider.declarations
  signatures : m.signatures.Sublist wider.signatures

variable {modules : List Module} {roots : List String} {extra : List (String × String)}
  {f : Expr → Expr}

theorem map_bodies_rebodied (f : Expr → Expr) (m : Module) : m.Rebodied (m.mapBodies f) := by
  refine ⟨rfl, rfl, rfl, rfl, ?_, rfl⟩
  rw [mapBodies, List.forall₂_map_right_iff, List.forall₂_same]
  intro d _
  cases d with
  | value d => exact .value d (f d.body)
  | foreign d => exact .foreign d

theorem entries_map_bodies (f : Expr → Expr) (modules : List Module) :
    entries (modules.map (mapBodies f)) =
      (entries modules).map fun entry => (entry.1, entry.2.mapBody f) := by
  simp only [entries, List.flatMap_map, List.map_flatMap, mapBodies, List.map_map]
  rfl

theorem keys_map_bodies (f : Expr → Expr) (modules : List Module) :
    keys (modules.map (mapBodies f)) = keys modules := by
  rw [← entries_keys, ← entries_keys, entries_map_bodies, List.map_map]
  simp only [Function.comp_def, Declaration.map_body_name]

section Fewer

variable (fewer : ∀ e : Expr, (f e).references ⊆ e.references)
include fewer

theorem map_body_references (d : Declaration) : (d.mapBody f).references ⊆ d.references := by
  cases d with
  | value d => exact fewer d.body
  | foreign d => exact List.Subset.refl _

theorem dependencies_map_bodies (key : String × String) :
    dependencies (modules.map (mapBodies f)) key ⊆ dependencies modules key := by
  unfold dependencies
  rw [entries_map_bodies, keys_map_bodies, ← List.map_reverse, List.find?_map]
  simp only [Function.comp_def, Declaration.map_body_name]
  cases (entries modules).reverse.find? fun entry => (entry.1, entry.2.name) = key with
  | none => exact List.Subset.refl _
  | some entry => exact List.filter_subset _ (map_body_references fewer entry.2)

theorem live_map_bodies :
    live (modules.map (mapBodies f)) roots extra ⊆ live modules roots extra := by
  intro key alive
  unfold live at alive
  rw [keys_map_bodies] at alive
  have seen : DepthFirst.SeenGood id (· ∈ live modules roots extra) _ :=
    DepthFirst.walk_sees_good id
      (fun node here other leads => live_closed here (dependencies_map_bodies fewer node leads))
      (fun root member => starts_live member) (keys modules).length
  obtain ⟨node, good, rfl⟩ := seen.entered key alive
  exact good

theorem eliminate_dead_map_bodies {m : Module}
    (kept : m ∈ eliminateDead roots extra (modules.map (mapBodies f))) :
    ∃ wider ∈ eliminateDead roots extra modules, m.Within (wider.mapBodies f) := by
  have alive : live (modules.map (mapBodies f)) roots extra ⊆ live modules roots extra :=
    live_map_bodies fewer
  obtain ⟨changed, inside, rfl, stays⟩ := mem_eliminate_dead.mp kept
  obtain ⟨source, member, rfl⟩ := List.mem_map.mp inside
  refine ⟨keepLive (live modules roots extra) source, ?_, rfl, rfl, rfl, rfl, ?_, ?_⟩
  · refine mem_eliminate_dead.mpr ⟨source, member, rfl, stays.imp_right ?_⟩
    rintro ⟨d, declared, reached⟩
    obtain ⟨d, there, rfl⟩ := List.mem_map.mp declared
    rw [Declaration.map_body_name] at reached
    exact ⟨d, there, alive reached⟩
  · simp only [keepLive, mapBodies, List.filter_map, Function.comp_def,
      Declaration.map_body_name]
    refine (List.monotone_filter_right _ fun d reached => ?_).map _
    simp only [decide_eq_true_eq] at reached ⊢
    exact alive reached
  · refine List.monotone_filter_right _ fun s reached => ?_
    simp only [decide_eq_true_eq] at reached ⊢
    exact alive reached

end Fewer

/-- What dead code elimination keeps of folded modules it keeps of the modules as they are as well:
each module that stays is one that stays without folding, folded, and perhaps with less in it.
Folding adds no reference, and it changes nothing but bodies. -/
theorem folding_keeps_no_more [Simplifier] (modules : List Module) (roots : List String)
    (extra : List (String × String)) :
    (∀ m ∈ eliminateDead roots extra (modules.map optimize),
      ∃ wider ∈ eliminateDead roots extra modules, m.Within wider.optimize) ∧
      (∀ e : Expr, e.fold.references ⊆ e.references) ∧
      ∀ m : Module, m.Rebodied m.optimize :=
  ⟨fun _ kept => eliminate_dead_map_bodies (fun _ => Expr.fold_references) kept,
    fun _ => Expr.fold_references, map_bodies_rebodied Expr.fold⟩

end Module

end PureJs
