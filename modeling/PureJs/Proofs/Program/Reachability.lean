import PureJs.Proofs.Program.Linking
import Mathlib.Data.List.Flatten

/-!
Dead code elimination keeps what the roots reach. A declaration stays exactly if a chain of
references leads to it from a declaration of a root module or from an extra root, whatever cycles
the references make; all that stays keeps its order. What stays reaches the same things as before,
so that nothing is left to eliminate.
-/

namespace PureJs.Module

variable {modules : List Module} {roots : List String} {extra : List (String × String)}
  {key other : String × String}

def Refers (modules : List Module) (key other : String × String) : Prop :=
  ∃ m ∈ modules, ∃ d ∈ m.declarations,
    (m.name, d.name) = key ∧ other ∈ d.references ∧ other ∈ keys modules

/-- References lead to the key from a declaration of a root module, or from an extra root that is
declared. -/
def Needed (modules : List Module) (roots : List String) (extra : List (String × String))
    (key : String × String) : Prop :=
  ∃ start ∈ keys modules, (start.1 ∈ roots ∨ start ∈ extra) ∧
    Relation.ReflTransGen (Refers modules) start key

theorem key_of_declaration {m : Module} {d : Declaration} (inside : m ∈ modules)
    (member : d ∈ m.declarations) : (m.name, d.name) ∈ keys modules :=
  mem_keys.mpr ⟨m, inside, rfl, List.mem_map.mpr ⟨d, member, rfl⟩⟩

theorem declaration_of_key (declared : key ∈ keys modules) :
    ∃ m ∈ modules, ∃ d ∈ m.declarations, (m.name, d.name) = key := by
  obtain ⟨m, inside, same, named⟩ := mem_keys.mp declared
  obtain ⟨d, member, called⟩ := List.mem_map.mp named
  exact ⟨m, inside, d, member, Prod.ext same called⟩

theorem mem_dependencies_iff (distinct : (keys modules).Nodup) (declared : key ∈ keys modules) :
    other ∈ dependencies modules key ↔ Refers modules key other := by
  constructor
  · intro member
    obtain ⟨m, inside, d, there, rfl⟩ := declaration_of_key declared
    rw [dependencies_of_declaration distinct inside there, List.mem_filter] at member
    exact ⟨m, inside, d, there, rfl, member.1, of_decide_eq_true member.2⟩
  · rintro ⟨m, inside, d, there, rfl, refers, listed⟩
    rw [dependencies_of_declaration distinct inside there, List.mem_filter]
    exact ⟨refers, decide_eq_true listed⟩

theorem live_subset_keys : live modules roots extra ⊆ keys modules := by
  intro key alive
  obtain ⟨root, start, node, path, rfl⟩ := DepthFirst.walk_stays_reached alive
  cases path with
  | refl => exact starts_subset modules roots extra start
  | tail _ last => exact dependencies_subset _ last

theorem mem_live_iff (distinct : (keys modules).Nodup) :
    key ∈ live modules roots extra ↔ Needed modules roots extra key := by
  constructor
  · intro alive
    obtain ⟨root, start, node, path, rfl⟩ := DepthFirst.walk_stays_reached alive
    refine ⟨root, starts_subset modules roots extra start, ?_, ?_⟩
    · rcases List.mem_append.mp start with own | named
      · exact Or.inl (of_decide_eq_true (List.mem_filter.mp own).2)
      · exact Or.inr (List.mem_filter.mp named).1
    · have declared : root ∈ keys modules := starts_subset modules roots extra start
      -- every key on the way is declared, which is what makes a dependency a reference
      clear start alive
      induction path with
      | refl => exact .refl
      | tail path last ih =>
        refine ih.tail ((mem_dependencies_iff distinct ?_).mp last)
        cases path with
        | refl => exact declared
        | tail _ before => exact dependencies_subset _ before
  · rintro ⟨start, declared, root, path⟩
    induction path with
    | refl =>
      refine starts_live (List.mem_append.mpr ?_)
      rcases root with own | named
      · exact Or.inl (List.mem_filter.mpr ⟨declared, decide_eq_true own⟩)
      · exact Or.inr (List.mem_filter.mpr ⟨named, decide_eq_true declared⟩)
    | tail _ last ih =>
      exact live_closed ih ((mem_dependencies_iff distinct (live_subset_keys ih)).mpr last)

theorem keep_live_stays_iff {alive : List (String × String)} {m : Module} :
    (!(keepLive alive m).declarations.isEmpty || m.name ∈ roots) = true ↔
      m.name ∈ roots ∨ ∃ d ∈ m.declarations, (m.name, d.name) ∈ alive := by
  simp [keepLive, or_comm]

theorem mem_eliminate_dead {kept : Module} :
    kept ∈ eliminateDead roots extra modules ↔
      ∃ m ∈ modules, keepLive (live modules roots extra) m = kept ∧
        (m.name ∈ roots ∨ ∃ d ∈ m.declarations, (m.name, d.name) ∈ live modules roots extra) := by
  simp only [eliminateDead, List.mem_filter, List.mem_map]
  constructor
  · rintro ⟨⟨m, inside, rfl⟩, stays⟩
    exact ⟨m, inside, rfl, keep_live_stays_iff.mp stays⟩
  · rintro ⟨m, inside, rfl, stays⟩
    exact ⟨⟨m, inside, rfl⟩, keep_live_stays_iff.mpr stays⟩

theorem mem_keys_eliminate_dead :
    key ∈ keys (eliminateDead roots extra modules) ↔ key ∈ live modules roots extra := by
  constructor
  · intro member
    obtain ⟨kept, inside, same, named⟩ := mem_keys.mp member
    obtain ⟨m, _, rfl, _⟩ := mem_eliminate_dead.mp inside
    have alive := (keep_live_declares.mp named).2
    have equal : (m.name, key.2) = key := Prod.ext same rfl
    exact equal ▸ alive
  · intro alive
    obtain ⟨m, inside, d, there, rfl⟩ := declaration_of_key (live_subset_keys alive)
    have listed : keepLive (live modules roots extra) m ∈ eliminateDead roots extra modules :=
      mem_eliminate_dead.mpr ⟨m, inside, rfl, Or.inr ⟨d, there, alive⟩⟩
    have stays : d ∈ (keepLive (live modules roots extra) m).declarations :=
      List.mem_filter.mpr ⟨there, decide_eq_true alive⟩
    exact key_of_declaration (m := keepLive _ m) listed stays

theorem keys_eliminate_dead_sublist :
    (keys (eliminateDead roots extra modules)).Sublist (keys modules) := by
  have fewer := (List.filter_sublist (l := modules.map (keepLive (live modules roots extra)))
    (p := fun m => !m.declarations.isEmpty || m.name ∈ roots)).flatMap
      (fun m => m.declaredNames.map (m.name, ·))
  refine fewer.trans ?_
  rw [List.flatMap_map]
  apply List.Sublist.flatMap_right
  intro m _
  exact (List.filter_sublist.map Declaration.name).map (m.name, ·)

theorem needed_eliminate_dead_iff (distinct : (keys modules).Nodup) :
    Needed (eliminateDead roots extra modules) roots extra key ↔
      Needed modules roots extra key := by
  constructor
  · rintro ⟨start, declared, root, path⟩
    refine ⟨start, keys_eliminate_dead_sublist.subset declared, root, ?_⟩
    refine Relation.ReflTransGen.mono ?_ _ _ path
    rintro one two ⟨kept, inside, d, there, same, refers, listed⟩
    obtain ⟨m, origin, rfl, _⟩ := mem_eliminate_dead.mp inside
    exact ⟨m, origin, d, (List.mem_filter.mp there).1, same, refers,
      keys_eliminate_dead_sublist.subset listed⟩
  · rintro ⟨start, declared, root, path⟩
    have alive : ∀ {one}, Relation.ReflTransGen (Refers modules) start one →
        one ∈ live modules roots extra :=
      fun path => (mem_live_iff distinct).mpr ⟨start, declared, root, path⟩
    refine ⟨start, mem_keys_eliminate_dead.mpr (alive .refl), root, ?_⟩
    induction path with
    | refl => exact .refl
    | @tail one two path last ih =>
      obtain ⟨m, inside, d, there, rfl, refers, _⟩ := last
      have stays := alive path
      refine ih.tail ⟨_, mem_eliminate_dead.mpr ⟨m, inside, rfl, Or.inr ⟨d, there, stays⟩⟩, d,
        List.mem_filter.mpr ⟨there, decide_eq_true stays⟩, rfl, refers, ?_⟩
      exact mem_keys_eliminate_dead.mpr (alive (path.tail ⟨m, inside, d, there, rfl, refers, ‹_›⟩))

theorem live_eliminate_dead (distinct : (keys modules).Nodup) :
    key ∈ live (eliminateDead roots extra modules) roots extra ↔
      key ∈ live modules roots extra := by
  rw [mem_live_iff distinct, mem_live_iff (distinct.sublist keys_eliminate_dead_sublist)]
  exact needed_eliminate_dead_iff distinct

theorem keep_live_again {alive others : List (String × String)} {m : Module}
    (same : ∀ key, key ∈ others ↔ key ∈ alive) :
    keepLive others (keepLive alive m) = keepLive alive m := by
  simp [keepLive, List.filter_filter, same]

theorem eliminate_dead_twice (distinct : (keys modules).Nodup) :
    eliminateDead roots extra (eliminateDead roots extra modules) =
      eliminateDead roots extra modules := by
  have kept : ∀ m ∈ eliminateDead roots extra modules,
      keepLive (live (eliminateDead roots extra modules) roots extra) m = m := by
    intro m member
    obtain ⟨source, _, rfl, _⟩ := mem_eliminate_dead.mp member
    exact keep_live_again fun key => live_eliminate_dead distinct
  have all : (eliminateDead roots extra modules).map
      (keepLive (live (eliminateDead roots extra modules) roots extra)) =
        eliminateDead roots extra modules := by
    rw [List.map_congr_left kept, List.map_id']
  rw [eliminateDead, all]
  exact List.filter_eq_self.mpr fun m member => (List.mem_filter.mp member).2

open Classical in
/-- Exactly the declarations that are needed stay, in their modules and in their order, with their
signatures; a module goes if none of its declarations stays and it is no root. Doing it twice is
doing it once. -/
theorem eliminate_dead_keeps_needed (modules : List Module) (roots : List String)
    (extra : List (String × String)) (distinct : (keys modules).Nodup) :
    eliminateDead roots extra modules =
        (modules.filter fun m => m.name ∈ roots ∨
          ∃ d ∈ m.declarations, Needed modules roots extra (m.name, d.name)).map (fun m =>
            { m with
              declarations := m.declarations.filter fun d =>
                Needed modules roots extra (m.name, d.name)
              signatures := m.signatures.filter fun s =>
                Needed modules roots extra (m.name, s.name) }) ∧
      eliminateDead roots extra (eliminateDead roots extra modules) =
        eliminateDead roots extra modules := by
  refine ⟨?_, eliminate_dead_twice distinct⟩
  rw [eliminateDead, List.filter_map]
  simp only [← mem_live_iff distinct]
  congr 1
  apply List.filter_congr
  intro m _
  rw [Bool.eq_iff_iff, decide_eq_true_iff]
  exact keep_live_stays_iff

/-- Two values that refer to each other, one that nothing refers to, and a module that needs the
first. -/
def evenOdd : List Module :=
  let place : Position := ⟨1, 1⟩
  let refer (module name : String) : Expr := .var place name none (some module)
  [⟨"Base", "base", place, [],
      [.value ⟨place, "even", ["n"], .app place (refer "Base" "odd") (.var place "n" none none)⟩,
        .value ⟨place, "unused", [], refer "Base" "even"⟩,
        .value ⟨place, "odd", ["n"], .app place (refer "Base" "even") (.var place "n" none none)⟩],
      [⟨place, "unused", "Boolean"⟩, ⟨place, "odd", "Int -> Boolean"⟩]⟩,
    ⟨"App", "app", place, [⟨"Base", place, false⟩],
      [.value ⟨place, "main", [], refer "Base" "even"⟩], []⟩]

theorem even_odd_kept :
    (keys evenOdd).Nodup ∧
      (eliminateDead ["App"] [] evenOdd).map
        (fun m => (m.declaredNames, m.signatures.map Signature.name)) =
          [(["even", "odd"], ["odd"]), (["main"], [])] ∧
      eliminateDead ["App"] [] (eliminateDead ["App"] [] evenOdd) =
        eliminateDead ["App"] [] evenOdd := by
  have distinct : (keys evenOdd).Nodup := by decide
  exact ⟨distinct, by decide +kernel,
    (eliminate_dead_keeps_needed evenOdd ["App"] [] distinct).2⟩

end PureJs.Module
