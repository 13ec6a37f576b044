import PureJs.Proofs.Fallible.Order
import PureJs.Proofs.Program.Reachability

/-!
Dropping dead code by working off a list of keys, each of which is looked up among the declarations.
Only keys of declarations come into the list, so that every look-up succeeds; the list runs empty,
as no key is looked up twice; and what has been looked up then is what the roots need.
-/

namespace PureJs.Fallible

def filed? (modules : List Module) (key : String × String) : Option Declaration :=
  ((Module.entries modules).reverse.find? fun entry => (entry.1, entry.2.name) = key).map (·.2)

theorem filed_key {modules : List Module} {key : String × String} {d : Declaration}
    (found : filed? modules key = some d) : key ∈ Module.keys modules := by
  obtain ⟨entry, there, _⟩ := Option.map_eq_some_iff.mp found
  have listed := List.mem_reverse.mp (List.mem_of_find?_eq_some there)
  have same := List.find?_some there
  rw [← Module.entries_keys]
  exact List.mem_map.mpr ⟨entry, listed, of_decide_eq_true same⟩

theorem key_filed {modules : List Module} {key : String × String}
    (declared : key ∈ Module.keys modules) : ∃ d, filed? modules key = some d := by
  rw [← Module.entries_keys] at declared
  obtain ⟨entry, listed, same⟩ := List.mem_map.mp declared
  have some : ((Module.entries modules).reverse.find?
      fun entry => (entry.1, entry.2.name) = key).isSome := by
    rw [List.find?_isSome]
    exact ⟨entry, List.mem_reverse.mpr listed, decide_eq_true same⟩
  obtain ⟨found, there⟩ := Option.isSome_iff_exists.mp some
  exact ⟨found.2, by rw [filed?, there]; rfl⟩

theorem filed_dependencies {modules : List Module} {key : String × String} {d : Declaration}
    (found : filed? modules key = some d) :
    Module.dependencies modules key = d.references.filter (· ∈ Module.keys modules) := by
  obtain ⟨entry, there, rfl⟩ := Option.map_eq_some_iff.mp found
  unfold Module.dependencies
  rw [there]

/-- The keys that are live already, and those that the pending ones lead to, of which the next one
stands in front. -/
def drain (modules : List Module) (pending live : List (String × String)) :
    Except Fault (List (String × String)) :=
  match pending with
  | [] => .ok live
  | key :: rest =>
    if key ∈ live then drain modules rest live
    else
      match _found : filed? modules key with
      | none => .error (.key key)
      | some d =>
        drain modules ((d.references.filter (· ∈ Module.keys modules)).reverse ++ rest)
          (key :: live)
termination_by (DepthFirst.pending id (Module.keys modules) live, pending.length)
decreasing_by
  · exact Prod.Lex.right _ (Nat.lt_succ_self _)
  · exact Prod.Lex.left _ _ (DepthFirst.pending_enter (filed_key _found) ‹_›)

/-- The modules without what the roots do not need. -/
def eliminateDead (roots : List String) (extra : List (String × String)) (modules : List Module) :
    Except Fault (List Module) := do
  let starts := (Module.keys modules).filter (·.1 ∈ roots) ++
    extra.filter (· ∈ Module.keys modules)
  let alive ← drain modules starts.reverse []
  pure ((modules.map (Module.keepLive alive)).filter fun m =>
    !m.declarations.isEmpty || m.name ∈ roots)

/-- What comes of pending keys: the live ones stay, everything else is led to by a pending one, and
nothing is missing that these lead to. -/
structure Drained (modules : List Module) (pending live alive : List (String × String)) : Prop where
  keeps : live ⊆ alive
  starts : pending ⊆ alive
  closed : ∀ key ∈ alive, key ∈ live ∨ Module.dependencies modules key ⊆ alive
  reached : ∀ key ∈ alive, key ∈ live ∨ ∃ start ∈ pending,
    Relation.ReflTransGen (fun a b => b ∈ Module.dependencies modules a) start key

theorem Drained.skip {modules : List Module} {key : String × String}
    {rest live alive : List (String × String)} (known : key ∈ live)
    (drained : Drained modules rest live alive) : Drained modules (key :: rest) live alive := by
  refine ⟨drained.keeps, List.cons_subset.mpr ⟨drained.keeps known, drained.starts⟩,
    drained.closed, fun other member => ?_⟩
  rcases drained.reached other member with old | ⟨start, later, path⟩
  · exact Or.inl old
  · exact Or.inr ⟨start, List.mem_cons_of_mem _ later, path⟩

theorem Drained.enter {modules : List Module} {key : String × String}
    {rest live alive : List (String × String)}
    (drained : Drained modules ((Module.dependencies modules key).reverse ++ rest) (key :: live)
      alive) : Drained modules (key :: rest) live alive := by
  have leads : Module.dependencies modules key ⊆ alive := fun other member =>
    drained.starts (List.mem_append_left _ (List.mem_reverse.mpr member))
  refine ⟨fun other old => drained.keeps (List.mem_cons_of_mem _ old), ?_, ?_, ?_⟩
  · exact List.cons_subset.mpr ⟨drained.keeps List.mem_cons_self,
      fun other later => drained.starts (List.mem_append_right _ later)⟩
  · intro other member
    rcases drained.closed other member with known | closed
    · rcases List.mem_cons.mp known with rfl | old
      · exact Or.inr leads
      · exact Or.inl old
    · exact Or.inr closed
  · intro other member
    rcases drained.reached other member with known | ⟨start, pending, path⟩
    · rcases List.mem_cons.mp known with rfl | old
      · exact Or.inr ⟨other, List.mem_cons_self, .refl⟩
      · exact Or.inl old
    · rcases List.mem_append.mp pending with direct | later
      · exact Or.inr ⟨key, List.mem_cons_self, .head (List.mem_reverse.mp direct) path⟩
      · exact Or.inr ⟨start, List.mem_cons_of_mem _ later, path⟩

theorem drain_ok {modules : List Module} {pending live : List (String × String)}
    (declared : pending ⊆ Module.keys modules) :
    ∃ alive, drain modules pending live = .ok alive ∧ Drained modules pending live alive := by
  fun_induction drain modules pending live with
  | case1 live =>
    exact ⟨live, rfl, List.Subset.refl _, List.nil_subset _, fun _ old => Or.inl old,
      fun _ old => Or.inl old⟩
  | case2 live key rest known ih =>
    obtain ⟨alive, result, drained⟩ := ih (List.cons_subset.mp declared).2
    exact ⟨alive, result, drained.skip known⟩
  | case3 live key rest new missing =>
    obtain ⟨d, found⟩ := key_filed (List.cons_subset.mp declared).1
    rw [missing] at found
    cases found
  | case4 live key rest new d found ih =>
    rw [← filed_dependencies found] at ih ⊢
    obtain ⟨alive, result, drained⟩ := ih (List.append_subset.mpr
      ⟨fun other member => Module.dependencies_subset key (List.mem_reverse.mp member),
        (List.cons_subset.mp declared).2⟩)
    exact ⟨alive, result, drained.enter⟩

variable (roots : List String) (extra : List (String × String)) (modules : List Module)

/-- The keys that are left when no key is pending are those that a walk from the roots enters. -/
theorem drained_live {alive : List (String × String)}
    (drained : Drained modules ((Module.keys modules).filter (·.1 ∈ roots) ++
      extra.filter (· ∈ Module.keys modules)).reverse [] alive) (key : String × String) :
    key ∈ alive ↔ key ∈ Module.live modules roots extra := by
  have closed : ∀ node ∈ Module.keys modules,
      Module.dependencies modules node ⊆ Module.keys modules :=
    fun node _ => Module.dependencies_subset node
  have entered := (DepthFirst.walk_visits id closed (Module.starts_subset modules roots extra)).2
  constructor
  · intro member
    obtain none | ⟨start, pending, path⟩ := drained.reached key member
    · exact absurd none List.not_mem_nil
    · clear member
      induction path with
      | refl => exact entered start (List.mem_reverse.mp pending)
      | tail _ step ih => exact Module.live_closed ih step
  · intro member
    obtain ⟨root, start, node, path, rfl⟩ := DepthFirst.walk_stays_reached member
    clear member
    induction path with
    | refl => exact drained.starts (List.mem_reverse.mpr start)
    | tail _ step ih =>
      exact ((drained.closed _ ih).resolve_left List.not_mem_nil) step

theorem eliminate_dead_eq :
    eliminateDead roots extra modules = .ok (Module.eliminateDead roots extra modules) := by
  have declared : ((Module.keys modules).filter (·.1 ∈ roots) ++
      extra.filter (· ∈ Module.keys modules)).reverse ⊆ Module.keys modules := fun key member =>
    Module.starts_subset modules roots extra (List.mem_reverse.mp member)
  obtain ⟨alive, result, drained⟩ := @drain_ok modules _ [] declared
  have kept : Module.keepLive alive = Module.keepLive (Module.live modules roots extra) := by
    funext m
    unfold Module.keepLive
    simp only [drained_live roots extra modules drained]
  unfold eliminateDead Module.eliminateDead
  dsimp only
  rw [result, ← kept]
  rfl

end PureJs.Fallible
