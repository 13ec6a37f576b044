import PureJs.Proofs.Emit.ModuleScopes
import PureJs.Proofs.Graph.PostOrder

/-!
The order in which the declarations of a module are written. All of them are, each once. What a
declaration refers to is declared before it, unless both refer to one another, and a source that
keeps to this is written in its own order.
-/

namespace PureJs.Module

/-- One declaration of the module refers to another one. -/
structure RefersTo (m : Module) (d other : Declaration) : Prop where
  inside : d ∈ m.declarations
  target : other ∈ m.declarations
  named : (m.name, other.name) ∈ d.references

variable {m : Module}

theorem mem_uses_iff {d other : Declaration} :
    other ∈ m.uses d ↔ other ∈ m.declarations ∧ (m.name, other.name) ∈ d.references := by
  simp [uses]

theorem refers_of_leads {d other : Declaration} (start : d ∈ m.declarations)
    (path : DepthFirst.Leads m.uses d other) : Relation.ReflTransGen m.RefersTo d other := by
  suffices both : other ∈ m.declarations ∧ Relation.ReflTransGen m.RefersTo d other from both.2
  induction path with
  | refl => exact ⟨start, .refl⟩
  | tail _ last ih =>
    obtain ⟨target, named⟩ := mem_uses_iff.mp last
    exact ⟨target, ih.2.tail ⟨ih.1, target, named⟩⟩

theorem ordered_declarations_settled (m : Module) :
    DepthFirst.Settled Declaration.name m.uses m.declarations m.orderedDeclarations.reverse := by
  unfold orderedDeclarations
  rw [List.reverse_reverse]
  exact DepthFirst.walk_settled Declaration.name (fun d _ => m.uses_subset d)
    (List.Subset.refl m.declarations)

theorem ordered_declarations_perm (distinct : m.declaredNames.Nodup) :
    m.orderedDeclarations.Perm m.declarations := by
  have once : (m.orderedDeclarations.map Declaration.name).Nodup := by
    have reversed := m.ordered_declarations_settled.distinct
    rwa [List.map_reverse, List.nodup_reverse] at reversed
  exact (List.perm_ext_iff_of_nodup once.of_map distinct.of_map).mpr
    fun d => mem_ordered_declarations distinct

theorem ordered_declarations_before (distinct : m.declaredNames.Nodup)
    {before after : List Declaration} {d other : Declaration}
    (split : m.orderedDeclarations = before ++ d :: after) (refers : m.RefersTo d other)
    (forth : ¬Relation.ReflTransGen m.RefersTo other d) : other ∈ before := by
  have settled := m.ordered_declarations_settled
  rw [split, List.reverse_append, List.reverse_cons, List.append_assoc, List.singleton_append]
    at settled
  rcases settled.behind (mem_uses_iff.mpr ⟨refers.target, refers.named⟩) with there | round
  · obtain ⟨same, front, named⟩ := List.mem_map.mp there
    rw [List.mem_reverse] at front
    have inside : same ∈ m.declarations :=
      (mem_ordered_declarations distinct).mp (by simp [split, front])
    rwa [← List.inj_on_of_nodup_map distinct inside refers.target named]
  · obtain ⟨back, inside, named, path⟩ := round
    rw [List.inj_on_of_nodup_map distinct inside refers.target named] at path
    exact absurd (refers_of_leads refers.target path) forth

/-- All declarations are written, each once. One that refers directly to another stands behind it,
unless the other one refers back to it over whatever declarations. A source in which each
declaration stands behind all others that it refers to is left in its order. -/
theorem declarations_follow_uses (distinct : m.declaredNames.Nodup) :
    m.orderedDeclarations.Perm m.declarations ∧
      (∀ d other, d ≠ other → m.RefersTo d other →
        ¬Relation.TransGen m.RefersTo other d →
        ∃ before between after,
          m.orderedDeclarations = before ++ other :: (between ++ d :: after)) ∧
      ((∀ before d after, m.declarations = before ++ d :: after → ∀ other, d ≠ other →
          m.RefersTo d other → other ∈ before) →
        m.orderedDeclarations = m.declarations) := by
  refine ⟨ordered_declarations_perm distinct, ?_, ?_⟩
  · intro d other different refers forth
    have written := (mem_ordered_declarations distinct).mpr refers.inside
    obtain ⟨before, after, split⟩ := List.append_of_mem written
    have away : ¬Relation.ReflTransGen m.RefersTo other d := by
      rw [Relation.reflTransGen_iff_eq_or_transGen]
      exact not_or.mpr ⟨different, forth⟩
    obtain ⟨front, between, rfl⟩ :=
      List.append_of_mem (ordered_declarations_before distinct split refers away)
    exact ⟨front, between, after, by rw [split, List.append_assoc, List.cons_append]⟩
  · intro ready
    refine DepthFirst.walk_in_order distinct fun before d after split other leads => ?_
    obtain ⟨target, named⟩ := mem_uses_iff.mp leads
    by_cases same : other = d
    · exact Or.inl (congrArg Declaration.name same)
    · have refers : m.RefersTo d other := ⟨by simp [split], target, named⟩
      exact Or.inr (List.mem_map_of_mem (ready before d after split other (Ne.symm same) refers))

/-- A module whose `main` and whose two functions that call one another stand in front of the value
that all of them use. -/
def intertwined : Module :=
  let place : Position := ⟨1, 1⟩
  let use (name : String) : Expr := .var place name none (some "App")
  let calls (name : String) : Expr := .app place (use name) (use "limit")
  ⟨"App", "app", place, [],
    [.value ⟨place, "main", [], calls "even"⟩, .value ⟨place, "odd", ["n"], calls "even"⟩,
      .value ⟨place, "even", ["n"], calls "odd"⟩,
      .value ⟨place, "limit", [], .literal place (.integer 9)⟩], []⟩

theorem intertwined_follow_uses :
    intertwined.declaredNames.Nodup ∧
      intertwined.orderedDeclarations.map Declaration.name = ["limit", "odd", "even", "main"] ∧
      intertwined.orderedDeclarations.Perm intertwined.declarations ∧
      ∃ user ∈ intertwined.declarations, ∃ used ∈ intertwined.declarations,
        user ≠ used ∧ intertwined.RefersTo user used ∧
          ¬Relation.TransGen intertwined.RefersTo used user ∧
          ∃ before between after,
            intertwined.orderedDeclarations = before ++ used :: (between ++ user :: after) := by
  have distinct : intertwined.declaredNames.Nodup := by decide
  obtain ⟨all, later, _⟩ := declarations_follow_uses distinct
  have first : intertwined.declarations[0] ∈ intertwined.declarations := List.getElem_mem _
  have third : intertwined.declarations[2] ∈ intertwined.declarations := List.getElem_mem _
  have different : intertwined.declarations[0] ≠ intertwined.declarations[2] :=
    ne_of_apply_ne Declaration.name (by decide)
  have refers : intertwined.RefersTo intertwined.declarations[0] intertwined.declarations[2] :=
    ⟨first, third, by decide⟩
  have unused : ∀ d ∈ intertwined.declarations,
      (intertwined.name, intertwined.declarations[0].name) ∉ d.references := by decide
  have forth : ¬Relation.TransGen intertwined.RefersTo intertwined.declarations[2]
      intertwined.declarations[0] := by
    intro path
    obtain ⟨d, _, last⟩ := Relation.TransGen.tail'_iff.mp path
    exact unused d last.inside last.named
  exact ⟨distinct, by decide, all, _, first, _, third, different, refers, forth,
    later _ _ different refers forth⟩

end PureJs.Module
